import Accounts.Machine.Launch

/-! The command line. It reads what the program looks at, and carries out what the program decides:
directories are made before what is in them, files that have changed are replaced as a whole, and
the keyring lasts as long as the process. -/
namespace Accounts.Main

/-- What there is at a place. -/
def readNode (place : String) : IO (Option Node) := do
  try
    let bytes ← IO.FS.readBinFile place
    return some (.file (.ofBytes bytes.toList))
  catch
    | .inappropriateType none .. => return some .directory
    | .inappropriateType (some _) .. => return none
    | .noFileOrDirectory .. => return none
    | .invalidArgument .. => return none
    | e => throw e

/-- What there is on the way to a place and at it. What is on the way and cannot be read is taken
for a directory. -/
def readWay (files : Files) (places : List String) : IO Files := do
  let mut files := files
  for place in places do
    if place ≠ Path.root then
      let node ←
        try readNode place
        catch e => if some place = places.getLast? then throw e else pure (some .directory)
      if let some node := node then files := files.put place node
  return files

/-- What there is on the way to the given paths. -/
def readFiles (paths : List String) : IO Files := do
  let here := toString (← IO.currentDir)
  let current := if here = "/" then Path.root else here
  paths.foldlM (fun files path =>
    readWay files (Path.places (Path.start current path) (Path.steps path))) (.bare current)

/-- Replace a file. Nobody but its owner may read it. -/
def writeContent (place : String) (content : Content) : IO Unit := do
  let draft := place ++ ".new"
  match content with
  | .text s => IO.FS.writeFile draft s
  | .binary bytes => IO.FS.writeBinFile draft ⟨bytes.toArray⟩
  IO.setAccessRights draft ⟨⟨true, true, false⟩, ⟨false, false, false⟩, ⟨false, false, false⟩⟩
  IO.FS.rename draft place

/-- Put something at a place. -/
def writeNode (place : String) : Node → IO Unit
  | .directory => IO.FS.createDirAll place
  | .file content => writeContent place content

/-- The given variables that are set. -/
def readVariables (names : List String) : IO (List (String × String)) :=
  names.filterMapM fun name => do return (← IO.getEnv name).map (name, ·)

/-- The files that the program looks at, with the given variables set. Arguments that make no
command need none. -/
def readMachine (valueOf : String → Option String) (args : List String) : IO Machine := do
  match (Command.parse args).toOption.bind fun _ => Machine.configPath? valueOf with
  | none => return ⟨.bare Path.root, ∅⟩
  | some path =>
    let m : Machine := ⟨← readFiles [path], ∅⟩
    match (m.config valueOf path).toOption.bind (Machine.accountDir? valueOf) with
    | none => return m
    | some dir => return ⟨← readFiles (path :: Machine.accountPaths dir), ∅⟩

/-- A collection that has not been used before. -/
def freshCollection : IO String := do
  let bytes ← IO.getRandomBytes 16
  return CollectionFile.identifier (bytes.toList.foldl (fun n b => 256 * n + b.toNat) 0)

/-- Run the program. -/
def run (args : List String) : IO UInt32 := do
  let vars ← readVariables Machine.variableNames
  let valueOf := fun name => List.lookup name vars
  let m ← readMachine valueOf args
  let (exit, after) := (Machine.launch valueOf (← freshCollection) args).run m
  for (place, node) in after.files.nodes.toList do
    if m.files.node? place ≠ some node then writeNode place node
  IO.print exit.output
  if exit.complaint ≠ "" then IO.eprintln exit.complaint
  return .ofNat exit.code

end Accounts.Main

def main (args : List String) : IO UInt32 := do
  try Accounts.Main.run args
  catch e =>
    IO.eprintln (toString e)
    return 1
