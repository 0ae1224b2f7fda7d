import Accounts.KeyFile.Line
import Accounts.Program

/-! The attribute store: what may be done to an account book that lives in a file. A change is
saved before it counts, so a save that fails leaves the store as it was. -/
namespace Accounts.Store

/-- The book that the store holds. -/
def book : Action Book := ExceptT.mk (.book fun b => .done (.ok b))

/-- Save a book and hold it from then on. -/
def commit (b : Book) : Action Unit :=
  ExceptT.mk (.save b fun
    | .ok () => .done (.ok ())
    | .error reason => .done (.error (.storage reason)))

/-- The value of a group under a key. -/
def get (g : GroupName) (key : String) : Action String := do
  match (← book).value? g key with
  | some value => return value
  | none => throw (.notFound g.sectionName key)

/-- Write attributes of one group in one save. Nothing is written if some key cannot stand in a
key file; the first such key is reported. -/
def setMany (g : GroupName) (entries : List (String × String)) : Action Unit := do
  match entries.find? fun e => !KeyFile.isKey e.1 with
  | some e => throw (.invalidValue "attribute key" e.1)
  | none => commit ((← book).write g entries)

/-- Write one attribute. -/
def set (g : GroupName) (key value : String) : Action Unit := setMany g [(key, value)]

/-- Remove one attribute. There is nothing to save if it is not there. -/
def delete (g : GroupName) (key : String) : Action Unit := do
  let b ← book
  if (b.value? g key).isSome then commit (b.eraseKey g key)

/-- Remove a group with all its attributes, and say whether it was there. -/
def deleteGroup (g : GroupName) : Action Bool := do
  let b ← book
  if b.contains g then
    commit (b.erase g)
    return true
  else return false

/-- All attributes of a group, pending or not. -/
def entries (g : GroupName) : Action Attributes := do
  match (← book).get? g with
  | some a => return a
  | none => throw (.unknownGroup g.sectionName)

/-- Hide a group until its removal completes. -/
def markPending (g : GroupName) : Action Unit := do
  let b ← book
  if !b.contains g then throw (.unknownGroup g.sectionName)
  else if b.isPending g then return ()
  else set g pendingKey "true"

/-- Show a group again. -/
def clearPending (g : GroupName) : Action Unit := delete g pendingKey

end Accounts.Store
