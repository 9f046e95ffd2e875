import EndpointAudit.Program

namespace EndpointAudit.Main

def maxDepth : Nat := 64

/-- Adds a directory or file at its real path, with all that lies below it. -/
def scan (t : FileTree) (path : String) : Nat → IO FileTree
  | 0 => return t
  | depth + 1 => do
    let real ← IO.FS.realPath path
    let loc := Path.components real.toString
    if ← real.isDir then
      let mut t := t.put loc .dir
      for entry in ← real.readDir do
        t ← try
          let here := Path.join real.toString entry.fileName
          let target := (← IO.FS.realPath here).toString
          if target == here then scan t here depth
          else pure (t.put (loc ++ [entry.fileName]) (.link target))
        catch _ => pure t
      return t
    else return t.put loc (.file (← IO.FS.readBinFile path) false)

def addParents (t : FileTree) (loc : Location) : FileTree :=
  (List.range loc.length).foldl (fun t n =>
    let up := loc.take n
    if (t.node? up).isSome then t else t.put up .dir) t

/-- Adds what a path leads to, if there is anything. A path through links becomes a link. -/
def addPath (t : FileTree) (path : String) : IO FileTree := do
  try
    let written := Path.components (Path.join t.cwd.toPath path)
    let real : Location := Path.components (← IO.FS.realPath path).toString
    let t ← scan t path maxDepth
    let t := addParents t real
    if written == real || written.contains ".." || written.contains "." then return t
    else return addParents (t.put written (.link real.toPath)) written
  catch _ => return t

/-- The present time. A file that was just made carries it. -/
def readClock : IO Clock := do
  let (_,path) ← IO.FS.createTempFile
  let made := (← path.metadata).modified
  IO.FS.removeFile path
  return .ofSeconds made.sec.toNat

def readEnvironment (names : List String) : IO Environment := do
  let found ← names.mapM fun name => do return (← IO.getEnv name).map fun value => (name,value)
  return found.filterMap id

def invocationPaths (args : List String) : List String :=
  match CommandLine.parse args with
  | .ok i => i.project :: (i.output.toList ++ i.config.toList ++ i.templates.toList)
  | .error _ => []

def settings? (t : FileTree) (args : List String) : Option Settings :=
  match CommandLine.parse args with
  | .ok i => (Settings.build t (.ofInvocation i)).toOption
  | .error _ => none

def settingsPaths (s : Settings) : List String :=
  s.sessionRoot :: (s.templateDir.toList ++ s.java.toList ++ s.jar.toList)

def keyVariables (s : Settings) : List String :=
  s.models.filterMap Model.Entry.keyVariable

/-- Makes the changes of a run on disk. Nothing is ever deleted. -/
def applyChanges (old new : FileTree) : IO Unit :=
  for (loc,n) in new.entries do
    match n,old.node? loc with
    | .dir,none => IO.FS.createDirAll loc.toPath
    | .file bytes _,some (.file before _) =>
      if bytes.data != before.data then IO.FS.writeBinFile loc.toPath bytes
    | .file bytes _,none => IO.FS.writeBinFile loc.toPath bytes
    | _,_ => pure ()

def machine : Machine := fun _ _ _ t => { exit := .error (.file .notExecutable), files := t }

def server : Http.Server := fun _ _ => none

def run (args : List String) : IO Program.Outcome := do
  let cwd := (← IO.currentDir).toString
  let t : FileTree := { entries := [], cwd := Path.components cwd }
  let t := addParents t (t.cwd ++ [""])
  let t ← (invocationPaths args).foldlM addPath t
  let settings := settings? t args
  let t ← (settings.elim [] settingsPaths).foldlM addPath t
  let environment ← readEnvironment
    ("PATH" :: JavaTool.javaVariable :: JavaTool.jarVariable :: settings.elim [] keyVariables)
  let world : World := { files := t, clock := ← readClock }
  let (outcome,world) := (Program.run { environment, machine, server } args).run world
  applyChanges t world.files
  return outcome

end EndpointAudit.Main

def main (args : List String) : IO UInt32 := do
  let outcome ← EndpointAudit.Main.run args
  IO.print outcome.output
  IO.eprint outcome.errorOutput
  return outcome.code.toUInt32
