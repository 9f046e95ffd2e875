import EndpointAudit.FileTree
import EndpointAudit.Json.Basic
import EndpointAudit.Project

namespace EndpointAudit.Detection

/-- A file name, or an extension with its dot, that shows a language and perhaps a tool. -/
structure Mark where
  mark : String
  language : String
  tool : Option String := none
deriving DecidableEq, Repr

/-- The marks, languages of higher priority first. -/
def marks : List Mark :=
  [⟨"pom.xml","Java","Maven"⟩,
    ⟨"build.gradle","Java","Gradle"⟩,
    ⟨"build.gradle.kts","Java","Gradle"⟩,
    ⟨"settings.gradle","Java","Gradle"⟩,
    ⟨".java","Java",none⟩,
    ⟨"requirements.txt","Python","pip"⟩,
    ⟨"pyproject.toml","Python","poetry or PEP 517"⟩,
    ⟨"Pipfile","Python","pipenv"⟩,
    ⟨"manage.py","Python","Django"⟩,
    ⟨"setup.py","Python","setuptools"⟩,
    ⟨".ipynb","Python","Jupyter"⟩,
    ⟨"package.json","JavaScript/TypeScript","Node.js"⟩,
    ⟨"vite.config.js","JavaScript/TypeScript","Vite"⟩,
    ⟨"next.config.js","JavaScript/TypeScript","Next.js"⟩,
    ⟨"tsconfig.json","TypeScript",none⟩,
    ⟨"go.mod","Go","Modules"⟩,
    ⟨"Cargo.toml","Rust","Cargo"⟩,
    ⟨"composer.json","PHP","Composer"⟩,
    ⟨"artisan","PHP","Laravel"⟩,
    ⟨"Gemfile","Ruby","Bundler"⟩,
    ⟨"Rakefile","Ruby","Rake"⟩,
    ⟨"CMakeLists.txt","C/C++","CMake"⟩,
    ⟨"Makefile","C/C++","Make"⟩]

structure Entry where
  name : String
  regular : Bool
deriving DecidableEq, Repr

def dottedExtension? (name : String) : Option String :=
  (Path.nameExtension? name).map ("." ++ ·)

/-- A mark shows by the name of any entry, or by the extension of a regular file. -/
def Mark.shows (m : Mark) (e : Entry) : Bool :=
  m.mark == e.name || (e.regular && dottedExtension? e.name == some m.mark)

/-- The languages found so far with their tools, both in ascending order. -/
abbrev Found := List (String × List String)

def insertSorted (s : String) : List String → List String
  | [] => [s]
  | t :: ts => if s < t then s :: t :: ts else if s = t then t :: ts else t :: insertSorted s ts

def addMark (m : Mark) (found : Found) : Found :=
  let tools := (found.lookup m.language).getD []
  Json.insertMember m.language (m.tool.elim tools (insertSorted · tools)) found

def addEntry (found : Found) (e : Entry) : Found :=
  (marks.filter (·.shows e)).foldl (fun f m => addMark m f) found

def languagesOf (entries : List Entry) : Found :=
  entries.foldl addEntry []

def priority (language : String) : Nat :=
  marks.findIdx (·.language == language)

def kindOf (found : Found) : String :=
  ((found.map (·.1)).minOn? priority).getD Project.unknownKind

/-- What a walk from a path meets: the path itself, and all that lies below it if it leads to a
directory. A link that leads nowhere is not met. -/
def walk (t : FileTree) (root : String) : List Entry :=
  match t.locate root false,t.find root with
  | .ok (_,some n),.ok (loc,target) =>
    let self : Entry := ⟨(Path.fileName? root).getD root,n.isFile⟩
    match target with
    | .dir => self :: (t.descendants loc).map fun (names,n) => ⟨names.getLastD "",n.isFile⟩
    | _ => [self]
  | _,_ => []

def languages (t : FileTree) (root : String) : Found :=
  languagesOf (walk t root)

def kind (t : FileTree) (root : String) : String :=
  kindOf (languages t root)

def sourceKinds : List String :=
  [".java",".py",".js",".ts",".php",".cs",".go",".rb",".swift",".kt"]

def isHidden (name : String) : Bool :=
  name.toList.head? == some '.'

/-- The source file at a path with the given name, if its extension is that of one. -/
def sourceFile? (path name : String) (bytes : ByteArray) : Option SourceFile :=
  match dottedExtension? name with
  | some ext => if sourceKinds.contains ext then some ⟨path,bytes.size,ext⟩ else none
  | none => none

/-- The source file that stands somewhere below the root, unless a name on the way is hidden. -/
def sourceBelow? (root : String) : Location × Node → Option SourceFile
  | (names,.file bytes _) =>
    if names.any isHidden then none
    else sourceFile? (names.foldl Path.join root) (names.getLastD "") bytes
  | _ => none

/-- The source files of a project in order of their paths. Hidden files and directories are passed
over, but the root may be hidden. -/
def sourceFiles (t : FileTree) (root : String) : List SourceFile :=
  let found : List SourceFile :=
    match t.find root with
    | .ok (_,.file bytes _) => (sourceFile? root ((Path.fileName? root).getD root) bytes).toList
    | .ok (loc,.dir) => (t.descendants loc).filterMap (sourceBelow? root)
    | _ => []
  found.mergeSort fun a b => Path.before a.path b.path

def project (t : FileTree) (root : String) : Project :=
  { kind := kind t root, root, files := sourceFiles t root }

end EndpointAudit.Detection
