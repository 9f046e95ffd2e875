import EndpointAudit.Text.Invisible

namespace EndpointAudit.Text

def hexDigits (n : Nat) : String :=
  String.ofList (Nat.toDigits 16 n)

def quotedChar (c : Char) : String :=
  match c with
  | '\x00' => "\\0"
  | '\t' => "\\t"
  | '\n' => "\\n"
  | '\r' => "\\r"
  | '"' => "\\\""
  | '\\' => "\\\\"
  | c =>
    if c.toNat < 0x20 || (0x7F ≤ c.toNat && isInvisible c) then
      "\\u\x7b" ++ hexDigits c.toNat ++ "\x7d"
    else c.toString

def quoted (s : String) : String :=
  "\"" ++ String.join (s.toList.map quotedChar) ++ "\""

def quotedList (ss : List String) : String :=
  "[" ++ ", ".intercalate (ss.map quoted) ++ "]"

end EndpointAudit.Text
