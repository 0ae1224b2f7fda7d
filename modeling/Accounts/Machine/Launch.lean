import Accounts.CollectionFile
import Accounts.Command.Arguments
import Accounts.Command.Run
import Accounts.Config
import Accounts.Machine.Files

/-! Runs of the program on a machine: from arguments, variables, files and a keyring to what is
printed and what is left behind. -/
namespace Accounts

/-- What the program finds and may change. -/
structure Machine where
  files : Files
  /-- The keyring of the operating system. -/
  vault : Vault

namespace Machine

/-- A machine on which the program has opened its account file. -/
structure Opened where
  book : Book
  machine : Machine

/-- Save a book in the account file at `path`. -/
def Opened.save (path : String) (book : Book) (s : Opened) : Except String Unit × Opened :=
  let (outcome, files) :=
    s.machine.files.writeIn (Path.parent path) path (AccountFile.content book)
  (outcome.mapError Obstacle.message,
    ⟨if outcome.isOk then book else s.book, { s.machine with files }⟩)

/-- Have the keyring answer a call. -/
def Opened.call (request : Request) (s : Opened) : Except CallFailure String × Opened :=
  let (answer, vault) := s.machine.vault.serve request
  (answer.mapError .refused, { s with machine := { s.machine with vault } })

/-- An opened machine as a host. Its keyring answers every call at once. -/
def host (path : String) : Host Opened where
  book s := s.book
  save := Opened.save path
  put e value s := let (r, s) := s.call (.put e value); (r.map fun _ => (), s)
  get e := Opened.call (.get e)
  delete e s := let (r, s) := s.call (.delete e); (r.map fun _ => (), s)
  emit _ s := s

/-- Work on a machine, which may fail for a reason. What it did until then stays done. -/
abbrev Job := ExceptT String (StateM Machine)

/-- Go on with what has been found, if there is nothing in the way. -/
def Job.ofExcept {ε α : Type} (message : ε → String) (r : Except ε α) : Job α :=
  ExceptT.mk (pure (r.mapError message))

/-- Write a file, after making the directory `dir` for it. -/
def writeFile (dir path : String) (content : Content) : Job Unit :=
  ExceptT.mk fun m =>
    let (outcome, files) := m.files.writeIn dir path content
    (outcome.mapError Obstacle.message, { m with files })

/-- The collection of the keyring for an account directory. -/
def collection (config : Config) (dir fresh : String) : Job String := do
  let path := Path.join dir CollectionFile.name
  let saved := ((← get).files.read path).mapError Obstacle.message
  let (collection, isNew) ←
    Job.ofExcept id (CollectionFile.choose config.secrets.collection saved fresh)
  if isNew then writeFile dir path (CollectionFile.content collection)
  return collection

/-- The configured backend for an account directory. -/
def backend (config : Config) (dir fresh : String) : Job Backend :=
  match config.secrets.backend with
  | .plaintext => return .inline
  | .keyring =>
    return .keyring ⟨← collection config dir fresh, config.secrets.timeout.toNat⟩

/-- The book in the account file at `path`. -/
def load (m : Machine) (path : String) : Except Error Book :=
  match m.files.read path with
  | .ok content => AccountFile.load content
  | .error obstacle => .error (.storage obstacle.message)

/-- Open the registry of an account directory, carry out a command, and answer with what it prints.
`fresh` names the collection if one must be made up. -/
def perform (config : Config) (dir fresh : String) (command : Command) : Job String := do
  let path := Path.join dir AccountFile.name
  let book ← Job.ofExcept Error.message ((← get).load path)
  let r : Registry := ⟨← backend config dir fresh, config.secretNames⟩
  let action : Action String := do
    r.openUp
    command.run r path
  ExceptT.mk fun m =>
    let (outcome, s) := action.run.run (host path) ⟨book, m⟩
    (outcome.mapError Error.message, s.machine)

/-! ## The whole program -/

/-- How a run of the program ends. -/
structure Exit where
  code : Nat
  /-- What is printed. -/
  output : String
  /-- What is said about a failure. -/
  complaint : String
  deriving DecidableEq, Repr

/-- The end of a run that succeeds. -/
def Exit.success (output : String) : Exit := ⟨0, output, ""⟩

/-- The end of a run that fails. -/
def Exit.failure (complaint : String) : Exit := ⟨1, "", complaint⟩

/-- The end of a run with an output, or with a reason why there is none. -/
def Exit.ofOutcome : Except String String → Exit
  | .ok output => .success output
  | .error reason => .failure reason

/-- The version of the program. -/
def versionNumber : String := "0.1.0"

/-- What the program prints about the version of a part of it. -/
def versionText (name : String) : String := name ++ " " ++ versionNumber ++ "\n"

/-- The end of a run whose arguments make no command. -/
def Exit.ofUsage : Usage → Exit
  | .version name => .success (versionText name)
  | .help name => .success ((Usage.help name).message ++ "\n")
  | usage => ⟨2, "", usage.message⟩

/-- A directory that a variable names by an absolute path, or else the usual one under the home
directory. -/
def baseDir? (valueOf : String → Option String) (name usual : String) : Option String :=
  match (valueOf name).filter Path.isAbsolute with
  | some dir => some dir
  | none => ((valueOf "HOME").filter (· ≠ "")).map fun home => Path.join home usual

/-- The path of the configuration file. -/
def configPath? (valueOf : String → Option String) : Option String :=
  (baseDir? valueOf "XDG_CONFIG_HOME" ".config").map fun dir =>
    Path.join (Path.join dir "keeper") "config.toml"

/-- The account directory. -/
def accountDir? (valueOf : String → Option String) (config : Config) : Option String :=
  match config.accountDir with
  | some dir => some dir
  | none => (baseDir? valueOf "XDG_DATA_HOME" ".local/share").map (Path.join · "keeper")

/-- The configuration at a path, with what variables overrule. -/
def config (m : Machine) (valueOf : String → Option String) (path : String) :
    Except String Config := do
  let content ← (m.files.find path).mapError Obstacle.message
  let config ← (Config.load content).mapError ConfigFault.message
  return config.withEnvironment valueOf

/-- Write the configuration unless there is something at its path. -/
def initConfig (path : String) (config : Config) : Job Unit := do
  if !(← get).files.leadsSomewhere path then
    writeFile (Path.parent path) path (.text config.render)

/-- The output of a command, on lines of its own. -/
def printed (output : String) : String := if output = "" then "" else output ++ "\n"

/-- The variables that the program looks at. -/
def variableNames : List String :=
  ["HOME", "XDG_CONFIG_HOME", "XDG_DATA_HOME", Config.accountDirVariable,
    Config.collectionVariable]

/-- The files of an account directory. -/
def accountPaths (dir : String) : List String :=
  [Path.join dir AccountFile.name, Path.join dir CollectionFile.name]

/-- Carry out a command with the configuration at a path, and answer with the output. -/
def execute (valueOf : String → Option String) (fresh path : String) (command : Command) :
    Job String := do
  let config ← Job.ofExcept id ((← get).config valueOf path)
  match command with
  | .version => return versionText Command.programName
  | .configInit =>
    initConfig path config
    return "Config initialized at " ++ path ++ "\n"
  | command =>
    match accountDir? valueOf config with
    | none => throw "no data dir available"
    | some dir => return printed (← perform config dir fresh command)

/-- Run the program with the given arguments and variables. -/
def launch (valueOf : String → Option String) (fresh : String) (args : List String) :
    StateM Machine Exit :=
  match Command.parse args with
  | .error usage => return .ofUsage usage
  | .ok command =>
    match configPath? valueOf with
    | none => return .failure "no config dir available"
    | some path => return .ofOutcome (← (execute valueOf fresh path command).run)

end Machine
end Accounts
