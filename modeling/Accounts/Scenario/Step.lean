import Accounts.Registry.Account
import Accounts.Scenario.World
import Accounts.Value

/-! The steps of a scenario and the answers they get. Groups are named as a user names them, so a
step may name one that cannot exist. -/
namespace Accounts.Scenario

/-- Where a scenario keeps its secrets. -/
inductive BackendKind where
  | plaintext
  | memory
  | os
  deriving DecidableEq

/-- What an opening depends on. -/
structure Settings where
  backend : BackendKind
  collection : String
  timeout : Nat
  secrets : SecretNames

/-- Operations of the registry. -/
inductive RegistryStep where
  | create (manager protocol : String) (params : SortedMap String Value)
  | set (group key : String) (value : Value)
  /-- Set an attribute to each number below `count` in turn. To do so no times never fails. -/
  | setCounting (group key : String) (count : Nat)
  | setEnabled (group : String) (enabled : Bool)
  | get (group key : String)
  | getParam (group name : String) (kind : Value.Kind)
  | getSecret (group key : String)
  | remove (group : String)
  | list
  | account (group : String)
  | check
  | info
  /-- The notices that wait. They are gone afterwards. -/
  | events

/-- Operations of the attribute store. -/
inductive StoreStep where
  | list
  | pending
  | snapshot
  | reload
  | get (group key : String)
  | set (group key value : String)
  | setMany (group : String) (entries : List (String × String))
  | delete (group key : String)
  | deleteGroup (group : String)
  | state (group : String)
  | entries (group : String)
  | mark (group : String)
  | clear (group : String)

/-- Operations of the backend itself. -/
inductive BackendStep where
  | info
  | get (group key : String)
  | set (group key value : String)
  | delete (group key : String)

/-- Operations of a secret service, and its switches. -/
inductive ServiceStep where
  | call (request : Request)
  | contains (entry : Entry)
  | available (on : Bool)
  | stall (time : Nat)
  | script (items : List Scripted)
  | fault (fault : Option OsFault)

inductive Step where
  | registry (step : RegistryStep)
  | store (handle : Handle) (step : StoreStep)
  | backend (step : BackendStep)
  | service (step : ServiceStep)
  /-- Close everything, change the settings and open again. -/
  | reopen (change : Settings → Settings)
  | openOther
  | writeFile (content : Content)
  | removeFile
  | listDirectory
  | fileMode
  | sleep (time : Nat)
  | block (how : Blockage)
  | unblock

/-- What a step answers. -/
inductive Answer where
  | done
  | failed (error : Error)
  | refused (error : ServiceError)
  /-- The store, or the registry, is not open. -/
  | notOpen
  | opened (accounts : List GroupName)
  | group (group : GroupName)
  | groups (groups : List GroupName)
  | text (text : String)
  | value (value : Value)
  | flag (flag : Bool)
  | attributes (attributes : Attributes)
  | book (book : Book)
  | account (account : Account)
  | registry (backend : String) (secretKeys : List String) (book : Book)
  | backend (name description : String) (isInline : Bool)
  | state (contains exists_ pending : Bool)
  | events (queue : EventQueue)
  | names (names : List String)
  | mode (mode : Option String)

/-- What a step leaves to report: its answer, and the file and the secrets if they changed. -/
structure Report where
  answer : Answer
  file : Option (Option Content)
  secrets : Option (List String × List (Entry × String))

end Accounts.Scenario
