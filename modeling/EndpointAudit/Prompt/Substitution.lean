import EndpointAudit.Json.Decode
import EndpointAudit.Prompt.Params
import EndpointAudit.Text.Search

namespace EndpointAudit.Prompt

inductive Mode
  | sequential
  | singlePass
deriving DecidableEq, Repr

def Mode.name : Mode → String
  | .sequential => "sequential"
  | .singlePass => "single_pass"

def Mode.decoder : Json.Decoder Mode :=
  Json.Decoder.choice ([.sequential,.singlePass].map fun m : Mode => (m.name,m))

def isNameStart (c : Char) : Bool :=
  ('a' ≤ c && c ≤ 'z') || ('A' ≤ c && c ≤ 'Z') || c == '_'

def isNamePart (c : Char) : Bool :=
  isNameStart c || ('0' ≤ c && c ≤ '9')

/-- The name of the placeholder at the start of the text, if one stands there, and what follows
it. -/
def placeholder? : List Char → Option (List Char × List Char)
  | '<' :: c :: cs =>
    if isNameStart c then
      match cs.dropWhile isNamePart with
      | '>' :: rest => some (c :: cs.takeWhile isNamePart,rest)
      | _ => none
    else none
  | _ => none

inductive Piece
  | literal (c : Char)
  | placeholder (name : List Char)
deriving DecidableEq, Repr

theorem length_of_placeholder? {cs name rest : List Char}
    (h : placeholder? cs = some (name,rest)) : rest.length < cs.length := by
  unfold placeholder? at h
  split at h
  · next c cs =>
    split at h
    · split at h
      · next r hd =>
        obtain ⟨-,rfl⟩ := Prod.mk.injEq .. ▸ Option.some.inj h
        have := (List.dropWhile_suffix (l := cs) isNamePart).length_le
        rw [hd] at this
        simp only [List.length_cons] at this ⊢
        omega
      · simp at h
    · simp at h
  · simp at h

def pieces (cs : List Char) : List Piece :=
  match cs with
  | [] => []
  | c :: cs =>
    match _h : placeholder? (c :: cs) with
    | some (name,rest) => .placeholder name :: pieces rest
    | none => .literal c :: pieces cs
termination_by cs.length
decreasing_by
  · exact length_of_placeholder? _h
  · simp

def Piece.chars : Piece → List Char
  | .literal c => [c]
  | .placeholder name => '<' :: (name ++ ['>'])

/-- A placeholder without a parameter stays as it is. -/
def Piece.fill (p : Params) : Piece → List Char
  | .literal c => [c]
  | .placeholder name =>
    match p.get? (String.ofList name) with
    | some value => value.toList
    | none => (Piece.placeholder name).chars

def fillOnce (template : String) (p : Params) : String :=
  String.ofList ((pieces template.toList).flatMap (Piece.fill p))

def fillInSequence (template : String) (p : Params) : String :=
  p.entries.foldl (fun text (k,v) => Text.replace text ("<" ++ k ++ ">") v) template

def substitute (template : String) (p : Params) : Mode → String
  | .sequential => fillInSequence template p
  | .singlePass => fillOnce template p

end EndpointAudit.Prompt
