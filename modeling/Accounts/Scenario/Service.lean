import Accounts.Secret.Service

/-! Secret services with faults that can be switched on: one in memory, which can be offline, slow
or scripted, and one that stands for the keyring of the operating system. -/
namespace Accounts.Scenario

/-- What a script lets happen in place of a call to the service in memory. -/
inductive Scripted where
  /-- The call goes ahead. -/
  | proceed
  | noEntry
  | unavailable
  /-- The task that makes the call dies. -/
  | crash
  /-- The account file becomes unreachable, then the call goes ahead. -/
  | block
  /-- A read answers with this text. Other calls go ahead. -/
  | value (text : String)
  deriving DecidableEq

/-- The service in memory. -/
structure MemoryService where
  vault : Vault
  offline : Bool
  /-- How long each call takes, in milliseconds. -/
  stall : Nat
  /-- What the coming calls of a backend do, one item a call. -/
  script : List Scripted

/-- The answer of the service in memory once it gets to a call. -/
def MemoryService.serve (m : MemoryService) (request : Request) :
    Except ServiceError String × MemoryService :=
  if m.offline then (.error (.unavailable "service offline"), m)
  else
    let (answer, vault) := m.vault.serve request
    (answer, { m with vault })

/-- What makes every call to the keyring of the operating system fail. -/
inductive OsFault where
  | noAccess
  | platform
  | invalid
  | badEncoding
  | tooLong
  | noEntry
  deriving DecidableEq

/-- The error that the fault shows as. -/
def OsFault.error : OsFault → ServiceError
  | noAccess => .unavailable "Couldn't access platform secure storage: locked"
  | platform => .unavailable "Platform secure storage failure: broken"
  | invalid => .unavailable "Attribute user is invalid: odd"
  | badEncoding => .unavailable "Data is not UTF-8 encoded"
  | tooLong => .unavailable "Attribute 'user' is longer than platform limit of 200 chars"
  | noEntry => .noEntry

/-- The keyring of the operating system. -/
structure OsService where
  vault : Vault
  fault : Option OsFault

def OsService.serve (o : OsService) (request : Request) : Except ServiceError String × OsService :=
  match o.fault with
  | some fault => (.error fault.error, o)
  | none =>
    let (answer, vault) := o.vault.serve request
    (answer, { o with vault })

end Accounts.Scenario
