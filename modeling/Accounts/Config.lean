import Accounts.AccountFile
import Accounts.Registry.SecretNames
import Accounts.Secret.Backend
import Accounts.Text.Space
import Accounts.Toml.Writer

/-! The configuration: where the accounts are, where their secrets are, and which of their
parameters are secret. It comes from a TOML file, and two variables of the environment overrule the
file. -/
namespace Accounts

/-- Where secrets are kept. -/
inductive BackendChoice where
  | plaintext
  | keyring
  deriving DecidableEq, Repr

/-- The configuration of the secrets. -/
structure SecretConfig where
  backend : BackendChoice
  /-- The collection of the keyring. If none is given, one is made up and remembered. -/
  collection : Option String
  /-- The limit for one call of the keyring, in milliseconds. -/
  timeout : UInt64
  /-- The names of the secret parameters. -/
  params : List String
  deriving DecidableEq, Repr

/-- The configuration. -/
structure Config where
  /-- The directory of the account file, if it is not the usual one. -/
  accountDir : Option String
  secrets : SecretConfig
  deriving DecidableEq, Repr

namespace BackendChoice

def name : BackendChoice → String
  | plaintext => "plaintext"
  | keyring => "keyring"

def ofName? (s : String) : Option BackendChoice :=
  if s = plaintext.name then some plaintext
  else if s = keyring.name then some keyring
  else none

theorem ofName?_name (b : BackendChoice) : ofName? b.name = some b := by
  cases b <;> decide

end BackendChoice

/-- Secrets stay in the account file unless something else is configured. -/
def SecretConfig.default : SecretConfig where
  backend := .plaintext
  collection := none
  timeout := .ofNat Keyring.defaultTimeout
  params := ["password"]

/-- What holds without a file. -/
def Config.default : Config where
  accountDir := none
  secrets := .default

/-- Why a configuration file is refused. -/
inductive ConfigFault where
  | notText
  | malformed
  deriving DecidableEq, Repr

def ConfigFault.message : ConfigFault → String
  | notText => "the configuration is not valid UTF-8"
  | malformed => "the configuration is malformed"

/-! ## Reading -/

namespace Toml

/-- A string. -/
def string? : Toml → Option String
  | .string s => some s
  | _ => none

/-- An integer of 64 bits without a sign. -/
def uint64? : Toml → Option UInt64
  | .integer n => if 0 ≤ n ∧ n.toNat < UInt64.size then some (.ofNat n.toNat) else none
  | _ => none

/-- A list of strings. -/
def strings? : Toml → Option (List String)
  | .array items => items.mapM string?
  | _ => none

/-- The name of a backend, or a table whose only field has that name and holds nothing. -/
def backend? : Toml → Option BackendChoice
  | .string s => BackendChoice.ofName? s
  | .table _ [(name, .array [])] => BackendChoice.ofName? name
  | .table _ [(name, .table _ [])] => BackendChoice.ofName? name
  | _ => none

/-- What is read from a value, or a default if there is none. -/
def readOr {α : Type} (default : α) (read : Toml → Option α) : Option Toml → Option α
  | none => some default
  | some value => read value

/-- Whether fields with other names than the known ones can be read. They have no meaning, but are
looked at all the same. -/
def othersReadable (known : List String) (fields : Fields) : Bool :=
  fields.all fun e => known.contains e.1 || e.2.isReadable

/-- The configuration of the secrets from its parts. -/
def secretConfigOf? (backend collection timeout params : Option Toml) : Option SecretConfig := do
  return {
    backend := ← readOr SecretConfig.default.backend backend? backend
    collection := ← readOr SecretConfig.default.collection (fun v => v.string?.map some) collection
    timeout := ← readOr SecretConfig.default.timeout uint64? timeout
    params := ← readOr SecretConfig.default.params strings? params }

/-- The configuration of the secrets: a table, or its values in a row, of which nobody looks at
those that are too many. A date has no fields and leaves everything at its default. -/
def secretConfig? : Toml → Option SecretConfig
  | .table _ fields =>
    if othersReadable ["backend", "collection", "timeout_ms", "params"] fields then
      secretConfigOf? (fields.lookup "backend") (fields.lookup "collection")
        (fields.lookup "timeout_ms") (fields.lookup "params")
    else none
  | .array items => secretConfigOf? items[0]? items[1]? items[2]? items[3]?
  | .tables earlier last =>
    let items := (earlier ++ [last]).map (Toml.table .stated)
    secretConfigOf? items[0]? items[1]? items[2]? items[3]?
  | .date => some .default
  | _ => none

end Toml

namespace Config

/-- The configuration in the fields of a document. -/
def ofFields? (fields : Toml.Fields) : Option Config := do
  guard (Toml.othersReadable ["account_dir", "secrets"] fields)
  return {
    accountDir := ← Toml.readOr none (fun v => v.string?.map some) (fields.lookup "account_dir")
    secrets := ← Toml.readOr .default Toml.secretConfig? (fields.lookup "secrets") }

/-- The configuration in a text. A blank text stands for the default. -/
def parse? (text : String) : Option Config :=
  if Text.trim text.toList = [] then some .default else (Toml.read? text).bind ofFields?

/-- The configuration in a file, which may be missing. -/
def load : Option Content → Except ConfigFault Config
  | none => .ok .default
  | some (.binary _) => .error .notText
  | some (.text s) => match parse? s with
    | some config => .ok config
    | none => .error .malformed

/-- The variable that overrules the directory of the account file. -/
def accountDirVariable : String := "KEEPER_ACCOUNT_DIR"

/-- The variable that turns the keyring on and overrules its collection. -/
def collectionVariable : String := "KEEPER_KEYRING_NAME"

/-- Overrule a configuration by variables. An empty one is as good as none. -/
def withEnvironment (config : Config) (valueOf : String → Option String) : Config :=
  let given := fun name => (valueOf name).filter (· ≠ "")
  let config := match given accountDirVariable with
    | some dir => { config with accountDir := some dir }
    | none => config
  match given collectionVariable with
  | some name =>
    { config with
      secrets := { config.secrets with backend := .keyring, collection := some name } }
  | none => config

/-- The secret parameters. -/
def secretNames (config : Config) : SecretNames := .ofList config.secrets.params

/-! ## Writing -/

private def optionalField (name : String) : Option String → List Char
  | some s => Toml.writeField name (Toml.writeString s)
  | none => []

/-- The text of a configuration. What is not set is left out. -/
def render (config : Config) : String :=
  let dir := optionalField "account_dir" config.accountDir
  String.ofList <|
    dir ++ (if dir = [] then [] else ['\n']) ++ "[secrets]\n".toList ++
    Toml.writeField "backend" (Toml.writeString config.secrets.backend.name) ++
    optionalField "collection" config.secrets.collection ++
    Toml.writeField "timeout_ms" config.secrets.timeout.toNat.repr.toList ++
    Toml.writeField "params" (Toml.writeStrings config.secrets.params)

end Config
end Accounts
