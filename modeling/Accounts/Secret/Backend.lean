import Accounts.Store

/-! Where secrets are kept: among the other attributes of the account file, or in a secret service
under one collection. -/
namespace Accounts

/-- A collection of a secret service. A call that lasts longer than the limit is given up. -/
structure Keyring where
  collection : String
  /-- The limit for one call, in milliseconds. -/
  timeout : Nat
  deriving DecidableEq, Repr

/-- Where secrets are kept. -/
inductive Backend where
  | inline
  | keyring (ring : Keyring)
  deriving DecidableEq, Repr

/-- The limit for one call if none is configured. -/
def Keyring.defaultTimeout : Nat := 5000

namespace Backend

def name : Backend → String
  | inline => "plaintext"
  | keyring _ => "keyring"

def description : Backend → String
  | inline => "secrets stored inline in the account file"
  | keyring _ => "secrets stored in the OS keyring / secret service"

/-- Whether secrets are attributes of the account file. -/
def isInline : Backend → Bool
  | inline => true
  | keyring _ => false

end Backend

namespace Keyring

/-- The entry of a secret. Its key is the section name of the group, a slash and the key of the
attribute. -/
def entry (ring : Keyring) (g : GroupName) (key : String) : Entry :=
  ⟨ring.collection, g.sectionName ++ "/" ++ key⟩

/-- The error of a keyring that gives a reason. -/
def unavailable (reason : String) : Error := .backendUnavailable "keyring" reason

/-- The error for a call that gave no answer. -/
def failure (ring : Keyring) (operation : String) : CallFailure → Error
  | .refused .noEntry => unavailable "entry vanished during write"
  | .refused (.unavailable reason) => unavailable reason
  | .timedOut =>
    unavailable (operation ++ " timed out after " ++ ring.timeout.repr ++ "ms")
  | .crashed => unavailable (operation ++ " task failed")

/-- Read a secret. -/
def get (ring : Keyring) (g : GroupName) (key : String) : Action String :=
  ExceptT.mk (.get (ring.entry g key) fun
    | .ok value => .done (.ok value)
    | .error (.refused .noEntry) => .done (.error (.notFound g.sectionName key))
    | .error e => .done (.error (ring.failure "get" e)))

/-- Write a secret, over one that is there. -/
def set (ring : Keyring) (g : GroupName) (key value : String) : Action Unit :=
  ExceptT.mk (.put (ring.entry g key) value fun
    | .ok () => .done (.ok ())
    | .error e => .done (.error (ring.failure "set" e)))

/-- Remove a secret. It is no error if there is none. -/
def delete (ring : Keyring) (g : GroupName) (key : String) : Action Unit :=
  ExceptT.mk (.delete (ring.entry g key) fun
    | .ok () => .done (.ok ())
    | .error (.refused .noEntry) => .done (.ok ())
    | .error e => .done (.error (ring.failure "delete" e)))

end Keyring

namespace Backend

/-- Read a secret. -/
def get : Backend → GroupName → String → Action String
  | inline => Store.get
  | keyring ring => ring.get

/-- Write a secret, over one that is there. -/
def set : Backend → GroupName → String → String → Action Unit
  | inline => Store.set
  | keyring ring => ring.set

/-- Remove a secret. It is no error if there is none. -/
def delete : Backend → GroupName → String → Action Unit
  | inline => Store.delete
  | keyring ring => ring.delete

end Backend
end Accounts
