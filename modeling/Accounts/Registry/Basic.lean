import Accounts.Registry.Account
import Accounts.Secret.Backend
import Accounts.Value

/-! The account registry: the accounts of a store together with the secrets of a backend, kept in
step. A group is marked before secrets are written or removed and unmarked, or deleted, when both
sides agree, so whatever stops an operation leaves a mark to clean up by. -/
namespace Accounts

/-- A registry over the open store. -/
structure Registry where
  backend : Backend
  secrets : SecretNames
  deriving DecidableEq

namespace Registry

/-- The parameter whose value names the group of a new account. -/
def identityParam : String := "account"

/-- How many serial numbers there are. -/
def serials : Nat := UInt32.size - 1

/-- The group with the first of the given serial numbers that makes a name not in the book. -/
def allocateAmong (book : Book) (manager protocol identity : String) :
    List Nat → Except Error GroupName
  | [] => .error (.storage ("no free account name for " ++ identity))
  | serial :: rest =>
    match GroupName.allocate manager protocol identity serial with
    | .error e => .error e
    | .ok g =>
      if book.contains g then allocateAmong book manager protocol identity rest else .ok g

/-- The group with the lowest serial number that is not in the book in any state. One of the first
numbers is free, up to the number of groups. -/
def allocate (book : Book) (manager protocol identity : String) : Except Error GroupName :=
  allocateAmong book manager protocol identity (List.range (min (book.size + 1) serials))

variable (r : Registry)

/-- The attributes of the parameters that are not secret. -/
def plainParams (params : SortedMap String Value) : Attributes :=
  .ofList (((params.filter fun name _ => !r.secrets.isSecret name).toList).map fun e =>
    (paramKey e.1, e.2.encode))

/-- The attributes of the secret parameters, in order of their names. -/
def secretParams (params : SortedMap String Value) : List (String × String) :=
  ((params.filter fun name _ => r.secrets.isSecret name).toList).map fun e =>
    (paramKey e.1, e.2.encode)

/-- The text that names the group of a new account. Section names can be read by anyone, so a
secret identity is not used. -/
def identity (params : SortedMap String Value) : String :=
  if r.secrets.isSecret identityParam then identityParam
  else match params.get? identityParam with
    | some value => value.encode
    | none => identityParam

/-- Whether the attributes are those of an account with this manager, this protocol and exactly
these parameters, secret ones aside. -/
def isEquivalent (manager protocol : String) (plain a : Attributes) : Bool :=
  a.get? managerKey == some manager && a.get? protocolKey == some protocol &&
    decide ((a.filter fun key _ => (paramName? key).isSome && !r.secrets.isSecretKey key) = plain)

/-- The first live group with an equivalent account. -/
def equivalent? (book : Book) (manager protocol : String) (plain : Attributes) :
    Option GroupName :=
  book.liveGroups.find? fun g => r.isEquivalent manager protocol plain (book.attributes g)

/-- Fail unless the group is there and not pending. -/
def ensureLive (g : GroupName) : Action Unit := do
  if (← Store.book).isLive g then return () else throw (.unknownGroup g.sectionName)

/-- Remove the secrets of a group and then the group, which must be marked. Inline secrets go with
the group. -/
def finishRemoval (g : GroupName) : Action Unit :=
  tryCatch (do
    if !r.backend.isInline then
      r.secrets.keys.forM fun key => r.backend.delete g key
    let _ ← Store.deleteGroup g)
    fun e => throw (.partialRemoval g.sectionName e.message)

/-- Try to undo a creation. What cannot be undone stays marked. -/
def abandon (g : GroupName) : Action Unit :=
  tryCatch (r.finishRemoval g) fun _ => pure ()

/-- Write to the backend what a new group keeps there, and show the group. -/
def publish (g : GroupName) (secrets : List (String × String)) : Action Unit := do
  secrets.forM fun e => r.backend.set g e.1 e.2
  Store.clearPending g

/-- Create an account and return its group. The group stays hidden until every secret has reached
the backend. -/
def create (manager protocol : String) (params : SortedMap String Value) : Action GroupName := do
  let plain := r.plainParams params
  match r.equivalent? (← Store.book) manager protocol plain with
  | some existing => throw (.duplicateAccount existing.sectionName)
  | none =>
    let g ← .ofExcept (allocate (← Store.book) manager protocol (r.identity params))
    let attributes := ((plain.insert managerKey manager).insert protocolKey protocol).insert
      pendingKey "true"
    Store.setMany g attributes.toList
    tryCatch (r.publish g (r.secretParams params)) fun e => do
      r.abandon g
      throw e
    Action.emit (.created g)
    return g

/-- Write an attribute of a live group, to the backend if it is secret. The attributes that the
registry itself relies on cannot be written. -/
def write (g : GroupName) (key : String) (value : Value) : Action Unit := do
  ensureLive g
  if key = managerKey ∨ key = protocolKey ∨ key = pendingKey then
    throw (.invalidValue "writable attribute key" key)
  else if r.secrets.isSecretKey key then r.backend.set g key value.encode
  else Store.set g key value.encode

/-- Read an attribute of a live group, wherever it is kept. -/
def read (g : GroupName) (key : String) : Action String := do
  ensureLive g
  if r.secrets.isSecretKey key then r.backend.get g key else Store.get g key

/-- Write an attribute. -/
def setProperty (g : GroupName) (key : String) (value : Value) : Action Unit := do
  r.write g key value
  Action.emit (.altered g key)

/-- Say whether an account is in use. -/
def setEnabled (g : GroupName) (enabled : Bool) : Action Unit := do
  r.write g enabledKey (.bool enabled)
  Action.emit (.toggled g enabled)

/-- Read a parameter as a value of a kind. -/
def getParam (g : GroupName) (name : String) (kind : Value.Kind) : Action Value := do
  .ofExcept (Value.decode kind (← r.read g (paramKey name)))

/-- Read from the backend, whether the key is secret or not. -/
def getSecret (g : GroupName) (key : String) : Action String := do
  ensureLive g
  r.backend.get g key

/-- Remove an account. If its secrets cannot all be removed the group stays hidden and marked, and
a further call completes the removal. -/
def remove (g : GroupName) : Action Unit := do
  if !(← Store.book).contains g then throw (.unknownGroup g.sectionName)
  else
    Store.markPending g
    r.finishRemoval g
    Action.emit (.removed g)

/-- The live groups. -/
def list : Action (List GroupName) := return (← Store.book).liveGroups

/-- What may be shown of an account. -/
def account (g : GroupName) : Action Account := do
  ensureLive g
  return .ofAttributes g (← Store.entries g) r.secrets

/-- What may be shown of all accounts, as a book. -/
def dump : Action Book := return (← Store.book).visible r.secrets

end Registry
end Accounts
