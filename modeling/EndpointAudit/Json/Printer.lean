import EndpointAudit.Decimal.Layout
import EndpointAudit.Json.Basic

namespace EndpointAudit.Json

/-- Doubles are positional for exponents from -5 to 15 and keep a point and a zero. A value that is
no number cannot be written and becomes null. -/
def doubleLayout : Decimal.Layout :=
  { positional := some (-5,15), pointZero := true
    nan := "null", infinity := "null", negativeInfinity := "null" }

def singleLayout : Decimal.Layout :=
  { doubleLayout with positional := some (-6,12) }

def hexDigit (n : Nat) : Char :=
  if n < 10 then Char.ofNat (48 + n) else Char.ofNat (87 + n)

/-- Only the quote, the backslash and the controls below the space are escaped. -/
def escapedChar (c : Char) : List Char :=
  if c = '"' then ['\\','"']
  else if c = '\\' then ['\\','\\']
  else if c = '\n' then ['\\','n']
  else if c = '\r' then ['\\','r']
  else if c = '\t' then ['\\','t']
  else if c = '\x08' then ['\\','b']
  else if c = '\x0c' then ['\\','f']
  else if c.toNat < 32 then
    ['\\','u','0','0',hexDigit (c.toNat / 16),hexDigit (c.toNat % 16)]
  else [c]

def escaped (s : List Char) : List Char :=
  s.flatMap escapedChar

def quotedText (s : String) : List Char :=
  '"' :: (escaped s.toList ++ ['"'])

def Number.chars : Number → List Char
  | .nat n => Nat.toDigits 10 n
  | .negative n => '-' :: Nat.toDigits 10 n
  | .double bits => (doubleLayout.text (.ofFloat (Float.ofBits bits))).toList
  | .single bits => (singleLayout.text (.ofFloat32 (Float32.ofBits bits))).toList

def lineBreak (pretty : Bool) (depth : Nat) : List Char :=
  if pretty then '\n' :: List.replicate (2 * depth) ' ' else []

def colon (pretty : Bool) : List Char :=
  if pretty then [':',' '] else [':']

mutual

def chars (pretty : Bool) (depth : Nat) : Json → List Char
  | .null => ['n','u','l','l']
  | .bool true => ['t','r','u','e']
  | .bool false => ['f','a','l','s','e']
  | .number n => n.chars
  | .text s => quotedText s
  | .array [] => ['[',']']
  | .array (item :: items) =>
    '[' :: (lineBreak pretty (depth + 1) ++ chars pretty (depth + 1) item ++
      itemsChars pretty (depth + 1) items ++ lineBreak pretty depth ++ [']'])
  | .object [] => ['\x7b','\x7d']
  | .object ((key,value) :: members) =>
    '\x7b' :: (lineBreak pretty (depth + 1) ++ quotedText key ++ colon pretty ++
      chars pretty (depth + 1) value ++ membersChars pretty (depth + 1) members ++
      lineBreak pretty depth ++ ['\x7d'])

def itemsChars (pretty : Bool) (depth : Nat) : List Json → List Char
  | [] => []
  | item :: items =>
    ',' :: (lineBreak pretty depth ++ chars pretty depth item ++ itemsChars pretty depth items)

def membersChars (pretty : Bool) (depth : Nat) : List (String × Json) → List Char
  | [] => []
  | (key,value) :: members =>
    ',' :: (lineBreak pretty depth ++ quotedText key ++ colon pretty ++
      chars pretty depth value ++ membersChars pretty depth members)

end

def unitEscape (n : Nat) : List Char :=
  ['\\','u',hexDigit (n / 4096),hexDigit (n / 256 % 16),hexDigit (n / 16 % 16),
    hexDigit (n % 16)]

/-- A character outside ASCII as one escape, or as two where it does not fit into one. -/
def asciiChar (c : Char) : List Char :=
  let n := c.toNat
  if n < 0x80 then [c]
  else if n < 0x10000 then unitEscape n
  else unitEscape (0xD800 + (n - 0x10000) / 0x400) ++ unitEscape (0xDC00 + (n - 0x10000) % 0x400)

/-- JSON text of the same value in ASCII alone. -/
def inAscii (text : String) : String :=
  String.ofList (text.toList.flatMap asciiChar)

def compact (v : Json) : String :=
  String.ofList (chars false 0 v)

def pretty (v : Json) : String :=
  String.ofList (chars true 0 v)

end EndpointAudit.Json
