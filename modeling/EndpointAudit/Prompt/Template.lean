import EndpointAudit.Error
import EndpointAudit.Json.Decode
import EndpointAudit.Prompt.Builtin
import EndpointAudit.Prompt.Substitution

namespace EndpointAudit.Prompt

structure Template where
  name : String
  user : String
  /-- Sent as it is, without filling. -/
  system : Option String := none
  mode : Mode := .singlePass
deriving DecidableEq, Repr

/-- A list of texts is read as lines, and any value but a text is given as compact JSON. -/
def blockText : Json → String
  | .text s => s
  | .array items =>
    match items.mapM Json.asText? with
    | some lines => "\n".intercalate lines
    | none => (Json.array items).compact
  | v => v.compact

namespace Template

def ofLines (name : String) (lines : List String) : Template :=
  { name, user := "\n".intercalate lines }

/-- Takes a template out of a document, or out of one of its sections. -/
def ofDocument (name : String) (document : Json) (sectionKey : Option String) :
    Except Error Template := do
  let selected ←
    match sectionKey with
    | none => .ok document
    | some key =>
      match document.get? key with
      | some v => .ok v
      | none => .error (.template name ("section '" ++ key ++ "' not found"))
  return {
    name
    user := blockText ((selected.get? "user_prompt").getD selected)
    system := (selected.get? "system_prompt").map blockText }

def fill (t : Template) (p : Params) : String :=
  substitute t.user p t.mode

end Template

structure Library where
  dir : Option String := none
deriving DecidableEq, Repr

namespace Library

def builtin (name : String) : Except Error Json :=
  match builtins.lookup name with
  | some document => .ok document
  | none => .error (.template name "no such template")

/-- The document of a name. A file in the directory comes before a built-in document. -/
def document (l : Library) (t : FileTree) (name : String) : Except Error Json :=
  match l.dir with
  | none => builtin name
  | some dir =>
    let path := Path.join dir name
    if t.isFile path then
      match t.readText path with
      | .error f => .error (.template name ("cannot read " ++ path ++ ": " ++ f.message))
      | .ok text =>
        match Json.parse text with
        | .ok document => .ok document
        | .error f => .error (.template name ("invalid JSON: " ++ Error.faultText f))
    else builtin name

def template (l : Library) (t : FileTree) (name : String) (sectionKey : Option String) :
    Except Error Template := do
  let document ← l.document t name
  Template.ofDocument name document sectionKey

end Library

end EndpointAudit.Prompt
