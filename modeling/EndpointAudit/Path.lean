import EndpointAudit.Text.Search

namespace EndpointAudit.Path

def pieces (path : String) : List String :=
  (path.toList.splitOn '/').map String.ofList

def isAbsolute (path : String) : Bool :=
  path.toList.head? == some '/'

/-- The names a path goes through. Empty pieces and single dots do not count, except that a path may
start with a dot. -/
def components (path : String) : List String :=
  match pieces path with
  | "." :: rest => "." :: rest.filter fun p => p != "" && p != "."
  | ps => ps.filter fun p => p != "" && p != "."

/-- A path below another one; an absolute path stands for itself. -/
def join (base path : String) : String :=
  if isAbsolute path then path
  else if base.isEmpty then path
  else if base.toList.getLast? == some '/' then base ++ path
  else base ++ "/" ++ path

/-- Drops slashes, and dots between slashes, from the end, given the characters in reverse. -/
def dropTrailing : List Char → List Char
  | '/' :: cs => dropTrailing cs
  | '.' :: '/' :: cs => dropTrailing cs
  | cs => cs

/-- The path without its last name; the root and the empty path have no parent. -/
def parent? (path : String) : Option String :=
  if (components path).isEmpty then none
  else
    let kept := ((dropTrailing path.toList.reverse).dropWhile (· != '/'))
    let kept := dropTrailing kept
    if kept.isEmpty && isAbsolute path then some "/" else some (String.ofList kept.reverse)

def fileName? (path : String) : Option String :=
  match (components path).getLast? with
  | some ".." => none
  | some "." => none
  | name => name

/-- What follows the last dot of a name, unless the dot comes first. -/
def nameExtension? (name : String) : Option String :=
  match Text.cutLast (· == '.') name.toList with
  | some ([],_) => none
  | some (_,ext) => some (String.ofList ext)
  | none => none

/-- Names in order, the shorter list first where one continues the other. -/
def namesBefore : List String → List String → Bool
  | [],_ => true
  | _ :: _,[] => false
  | a :: as,b :: bs => if a < b then true else if a = b then namesBefore as bs else false

/-- The order of paths: name by name, not character by character. An absolute path stands before a
relative one. -/
def before (a b : String) : Bool :=
  match isAbsolute a,isAbsolute b with
  | true,false => true
  | false,true => false
  | _,_ => namesBefore (components a) (components b)

end EndpointAudit.Path
