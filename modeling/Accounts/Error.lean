import Accounts.Text.Quoted

/-! Why an operation on accounts fails, and the text that says so. -/
namespace Accounts

/-- The causes of failure. Groups are named by their section names. -/
inductive Error where
  /-- The group has no value under the key. -/
  | notFound (group key : String)
  /-- There is an equivalent account already. -/
  | duplicateAccount (group : String)
  /-- The group was never created, or has been removed. -/
  | unknownGroup (group : String)
  /-- The secret backend could not be reached or did not answer in time. -/
  | backendUnavailable (backend reason : String)
  /-- The account file is malformed at a line, counted from one. -/
  | corruptStore (line : Nat) (reason : String)
  /-- A removal reached some backends and not all. Trying again completes it. -/
  | partialRemoval (group reason : String)
  /-- The text names no group. -/
  | invalidGroup (input : String)
  /-- The text is no value of the kind asked for. -/
  | invalidValue (kind input : String)
  /-- The account file could not be read or written. -/
  | storage (reason : String)
  deriving DecidableEq, Repr

namespace Error

/-- The text shown for an error. -/
def message : Error → String
  | notFound group key => "no value for " ++ key ++ " in " ++ group
  | duplicateAccount group => "account already exists: " ++ group
  | unknownGroup group => "unknown account group: " ++ group
  | backendUnavailable backend reason =>
    "secret backend " ++ backend ++ " unavailable: " ++ reason
  | corruptStore line reason => "corrupt account store at line " ++ line.repr ++ ": " ++ reason
  | partialRemoval group reason => "removal of " ++ group ++ " incomplete: " ++ reason
  | invalidGroup input => "invalid account group identifier: " ++ Text.quoted input
  | invalidValue kind input => "invalid " ++ kind ++ ": " ++ Text.quoted input
  | storage reason => "storage failure: " ++ reason

/-- Whether an error only says that there is no such value, so that it may stand for absence. -/
def isNotFound : Error → Bool
  | notFound .. => true
  | _ => false

end Error
end Accounts
