import Accounts.Registry.Basic

/-! Opening a registry: secrets in the account file move to the backend, and removals that were cut
off are completed. -/
namespace Accounts.Registry

variable (r : Registry)

/-- Move one secret from the account file to the backend. -/
def moveSecret (g : GroupName) (key value : String) : Action Unit := do
  r.backend.set g key value
  Store.delete g key

/-- The secrets in a book, with their groups and keys, in order. -/
def inlineSecrets (book : Book) : List (GroupName × String × String) :=
  book.toList.flatMap fun (g, a) =>
    (a.toList.filter fun e => r.secrets.isSecretKey e.1).map fun e => (g, e.1, e.2)

/-- Move every secret of the account file to the backend, unless that is where the backend keeps
them. The first failure ends it. -/
def migrate : Action Unit := do
  if !r.backend.isInline then
    (r.inlineSecrets (← Store.book)).forM fun (g, key, value) => r.moveSecret g key value

/-- Complete the removal of every pending group. A group that resists stays marked. -/
def cleanUp : Action Unit := do
  (← Store.book).pendingGroups.forM r.abandon

/-- Open the registry. -/
def openUp : Action Unit := do
  r.migrate
  r.cleanUp

end Accounts.Registry
