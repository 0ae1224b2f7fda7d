import Accounts.Registry.Basic

/-! The backend check: a secret that is written, read back and removed again. -/
namespace Accounts.Registry

/-- The group of the secret. It is marked before anything is written, so it never shows. -/
def checkGroup : GroupName where
  manager := "keeper"
  protocol := "health"
  account := "check0"
  isComponent_manager := by decide
  isComponent_protocol := by decide
  isComponent_account := by decide

/-- The secret. -/
def checkValue : String := "ok"

variable (r : Registry)

/-- The key of the secret: that of the first secret parameter, if there is one. -/
def checkKey : String := (r.secrets.keys.head?).getD (paramKey "password")

/-- Write the secret and read it back. -/
def roundTrip (key : String) : Action Unit := do
  r.backend.set checkGroup key checkValue
  let value ← r.backend.get checkGroup key
  if value = checkValue then return ()
  else throw (.backendUnavailable r.backend.name "read back a different value than was written")

/-- Check that the backend answers. Whatever the answer, the group is removed again; of two
failures the first is reported. -/
def check : Action Unit := do
  if (← Store.book).isLive checkGroup then
    throw (.duplicateAccount checkGroup.sectionName)
  else
    Store.setMany checkGroup [(pendingKey, "true")]
    let outcome ← Action.attempt (r.roundTrip r.checkKey)
    let cleanup ← Action.attempt (r.finishRemoval checkGroup)
    match outcome with
    | .error e => throw e
    | .ok () => .ofExcept cleanup

end Accounts.Registry
