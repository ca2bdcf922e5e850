import DocLint.Command.Basic

/-!
# The program

Reads what the command line may need from the file system, runs the command on it, and writes what
the outcome says.
-/

namespace DocLint

/-- The names that a path leads along, from the root. -/
def namesFrom (cwd : List Text) (path : Text) : List Text :=
  (Path.components path).foldl (fun (names : List Text) c =>
    match c with
    | .root => []
    | .current => names
    | .parent => names.dropLast
    | .name n => names ++ [n]) cwd

/-- The tree at a path, if there is one. -/
partial def readTree (path : String) : IO (Option Tree) := do
  match ← (IO.FS.realPath path).toBaseIO with
  | .error _ => return none
  | .ok place =>
    if ← place.isDir then
      let mut entries : List (Text × Tree) := []
      for e in ← place.readDir do
        if let some t ← readTree (path ++ "/" ++ e.fileName) then
          entries := Tree.putEntry e.fileName.toList t entries
      return some (.dir entries)
    else
      return some (.file (← IO.FS.readBinFile place).toList)

/-- The disk with what is found at the paths. -/
def readDisk (cwd : List Text) (paths : List Text) : IO Disk := do
  let mut tree := Tree.empty.makeDir cwd
  for p in paths do
    if let some t ← readTree (String.ofList p) then
      tree := tree.insert t (namesFrom cwd p)
  return { tree, cwd }

/-- The paths that a command line may ask for. -/
def wantedPaths (cwd words : List Text) (settingsDir : Option Text) : List Text :=
  let dirs := Command.Origin.above cwd
  settingsDir.toList.map (Path.join · Command.globalName) ++
    dirs.flatMap (fun d => Command.projectNames.map (Path.join (Disk.absolute d))) ++
    [['.']] ++ words.filter (!·.isEmpty)

/-- Writes the files of `new` that `old` does not hold. -/
def writeChanges (old new : Tree) : IO Unit := do
  for (names, content) in new.files do
    let same := match old.get? names with
      | some (.file b) => b == content
      | _ => false
    unless same do
      IO.FS.writeBinFile (String.ofList (Disk.absolute names)) ⟨content.toArray⟩

/-- Runs a command line on the file system. -/
def runProgram (words : List Text) : IO UInt32 := do
  let home := (← IO.getEnv "HOME").map String.toList
  let globalDir := (← IO.getEnv "PHPDOC_CHECK_CONFIG_DIR").map String.toList
  let cwd := namesFrom [] (← IO.currentDir).toString.toList
  let env : Command.Environment := { disk := {}, home, globalDir }
  let disk ← readDisk cwd (wantedPaths cwd words env.settingsDir)
  let outcome := { env with disk }.run words
  writeChanges disk.tree outcome.disk.tree
  for e in outcome.events do
    IO.eprintln (String.ofList e.line)
  IO.print (String.ofList outcome.output.standard)
  for d in outcome.output.diagnostics do
    IO.eprintln (String.ofList d.message)
  for l in outcome.output.errorLines do
    IO.eprintln (String.ofList l)
  return outcome.exitCode.toUInt32

end DocLint

/-- Runs the program with the arguments of the command line. -/
def main (args : List String) : IO UInt32 := DocLint.runProgram (args.map String.toList)
