import EndpointAudit.Path

namespace EndpointAudit

inductive IoFault
  | notFound
  | notADirectory
  | isADirectory
  | alreadyExists
  | permissionDenied
  | invalidFilename
  | tooManyLinks
  | notExecutable
  | invalidInput
  | invalidData
deriving DecidableEq, Repr

def IoFault.message : IoFault → String
  | .notFound => "No such file or directory (os error 2)"
  | .notADirectory => "Not a directory (os error 20)"
  | .isADirectory => "Is a directory (os error 21)"
  | .alreadyExists => "File exists (os error 17)"
  | .permissionDenied => "Permission denied (os error 13)"
  | .invalidFilename => "File name too long (os error 36)"
  | .tooManyLinks => "Too many levels of symbolic links (os error 40)"
  | .notExecutable => "Exec format error (os error 8)"
  | .invalidInput => "file name contained an unexpected NUL byte"
  | .invalidData => "stream did not contain valid UTF-8"

inductive Node
  | file (bytes : ByteArray) (executable : Bool)
  | dir
  | link (target : String)

def Node.isFile : Node → Bool
  | .file .. => true
  | _ => false

/-- The names from the root down. -/
abbrev Location := List String

def Location.toPath (loc : Location) : String :=
  "/" ++ "/".intercalate loc

/-- What stands where. Names and the paths made of them are texts; names with bytes that are not
those of a text lie outside. -/
structure FileTree where
  entries : List (Location × Node)
  cwd : Location

namespace FileTree

def node? (t : FileTree) (loc : Location) : Option Node :=
  if loc.isEmpty then some .dir else t.entries.lookup loc

def put (t : FileTree) (loc : Location) (n : Node) : FileTree :=
  if (t.entries.lookup loc).isSome then
    { t with entries := t.entries.map fun (l,m) => if l == loc then (l,n) else (l,m) }
  else { t with entries := t.entries ++ [(loc,n)] }

def children (t : FileTree) (loc : Location) : List (String × Node) :=
  t.entries.filterMap fun (l,n) =>
    match l.getLast? with
    | some name => if l.dropLast = loc then some (name,n) else none
    | none => none

/-- The locations strictly below a directory with what stands there, links not followed. -/
def descendants (t : FileTree) (loc : Location) : List (Location × Node) :=
  t.entries.filterMap fun (l,n) =>
    match Text.dropPrefix? loc l with
    | some (name :: names) => some (name :: names,n)
    | _ => none

def maxLinks : Nat := 40

def maxNameBytes : Nat := 255

def maxPathBytes : Nat := 4095

/-- Walks the pieces of a path from a directory, up to a link that has to be followed: `jump` goes on
from there. The node is absent if only the last name is missing; slashes may follow it. -/
def walkTo (t : FileTree) (followLast : Bool)
    (jump : Location → List String → Except IoFault (Location × Option Node)) (here : Location) :
    List String → Except IoFault (Location × Option Node)
  | [] => .ok (here,t.node? here)
  | piece :: rest =>
    if piece = "" ∨ piece = "." then walkTo t followLast jump here rest
    else if piece = ".." then walkTo t followLast jump here.dropLast rest
    else if maxNameBytes < piece.utf8ByteSize then .error .invalidFilename
    else
      let next := here ++ [piece]
      match t.node? next with
      | none => if rest.all String.isEmpty then .ok (next,none) else .error .notFound
      | some .dir => walkTo t followLast jump next rest
      | some (.file bytes x) =>
        if rest.isEmpty then .ok (next,some (.file bytes x)) else .error .notADirectory
      | some (.link target) =>
        if rest.isEmpty && !followLast then .ok (next,some (.link target))
        else jump (if Path.isAbsolute target then [] else here) (Path.pieces target ++ rest)

/-- Walks the pieces of a path from a directory, through at most so many links. -/
def walk (t : FileTree) (followLast : Bool) :
    Nat → Location → List String → Except IoFault (Location × Option Node)
  | 0 => walkTo t followLast fun _ _ => .error .tooManyLinks
  | links + 1 => walkTo t followLast (walk t followLast links)

def locate (t : FileTree) (path : String) (followLast : Bool := true) :
    Except IoFault (Location × Option Node) :=
  if path.toList.contains '\x00' then .error .invalidInput
  else if path.isEmpty then .error .notFound
  else if maxPathBytes < path.utf8ByteSize then .error .invalidFilename
  else t.walk followLast maxLinks (if Path.isAbsolute path then [] else t.cwd) (Path.pieces path)

def find (t : FileTree) (path : String) : Except IoFault (Location × Node) :=
  match t.locate path with
  | .error f => .error f
  | .ok (_,none) => .error .notFound
  | .ok (loc,some n) => .ok (loc,n)

def pathExists (t : FileTree) (path : String) : Bool :=
  (t.find path).isOk

def isFile (t : FileTree) (path : String) : Bool :=
  match t.find path with
  | .ok (_,.file ..) => true
  | _ => false

def isDir (t : FileTree) (path : String) : Bool :=
  match t.find path with
  | .ok (_,.dir) => true
  | _ => false

def read (t : FileTree) (path : String) : Except IoFault ByteArray :=
  match t.find path with
  | .error f => .error f
  | .ok (_,.file bytes _) => .ok bytes
  | .ok (_,_) => .error .isADirectory

def readText (t : FileTree) (path : String) : Except IoFault String := do
  let bytes ← t.read path
  match String.fromUTF8? bytes with
  | some s => .ok s
  | none => .error .invalidData

/-- Writes a file, which is created if its directory exists, but not by a name that a slash follows in
the path or in a link that it goes through. -/
def write (t : FileTree) (path : String) (bytes : ByteArray) : Except IoFault FileTree :=
  match t.locate path with
  | .error f => .error f
  | .ok (loc,none) =>
    let created := t.put loc (.file bytes false)
    if (created.locate path).isOk then .ok created else .error .isADirectory
  | .ok (loc,some (.file _ x)) => .ok (t.put loc (.file bytes x))
  | .ok (_,some _) => .error .isADirectory

def writeText (t : FileTree) (path text : String) : Except IoFault FileTree :=
  t.write path text.toUTF8

def makeDir (t : FileTree) (path : String) : Except IoFault FileTree :=
  match t.locate path false with
  | .error f => .error f
  | .ok (loc,none) => .ok (t.put loc .dir)
  | .ok (_,some _) => .error .alreadyExists

/-- Creates a directory whose parent may have to be created first, tried `fuel` levels up. -/
def makeDirsWithin (t : FileTree) : Nat → String → Except IoFault FileTree
  | 0,_ => .error .notFound
  | fuel + 1,path =>
    if path.isEmpty then .ok t
    else
      match t.makeDir path with
      | .ok t' => .ok t'
      | .error .notFound =>
        match Path.parent? path with
        | none => .error .notFound
        | some up =>
          match makeDirsWithin t fuel up with
          | .error f => .error f
          | .ok t' =>
            match t'.makeDir path with
            | .ok t'' => .ok t''
            | .error f => if t'.isDir path then .ok t' else .error f
      | .error f => if t.isDir path then .ok t else .error f

def makeDirs (t : FileTree) (path : String) : Except IoFault FileTree :=
  t.makeDirsWithin (path.length + 1) path

/-- The absolute path without links and dots that a path leads to. -/
def canonical (t : FileTree) (path : String) : Except IoFault String := do
  let (loc,_) ← t.find path
  return loc.toPath

/-- The regular files below a directory by their relative paths, in ascending order. -/
def filesBelow (t : FileTree) (path : String) : List String :=
  match t.find path with
  | .ok (loc,.dir) =>
    let found := (t.descendants loc).filterMap fun (names,n) =>
      if n.isFile then some ("/".intercalate names) else none
    found.mergeSort fun a b => a ≤ b
  | _ => []

/-- The bytes of a program that may be run. -/
def program (t : FileTree) (path : String) : Except IoFault ByteArray :=
  match t.find path with
  | .error f => .error f
  | .ok (_,.file bytes true) => .ok bytes
  | .ok (_,_) => .error .permissionDenied

end FileTree

end EndpointAudit
