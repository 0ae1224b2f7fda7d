import Accounts.Command.Basic
import Accounts.Command.Dump
import Accounts.Registry.Check
import Accounts.Registry.Open

/-! What commands do with a registry, and what they print. -/
namespace Accounts.Command

/-- Do what a command asks on the open registry over the account file at `path`, and return what it
prints. Commands that need no registry print nothing here. -/
def run (r : Registry) (path : String) : Command → Action String
  | .list => do return "\n".intercalate ((← Registry.list).map GroupName.sectionName)
  | .create manager protocol params => do
    let values := SortedMap.ofList (params.map fun p => (p.1, Value.string p.2))
    return (← r.create manager protocol values).sectionName
  | .set group key value => do
    r.setProperty (← .ofExcept (GroupName.parse group)) key (.string value)
    return ""
  | .get group key => do r.read (← .ofExcept (GroupName.parse group)) key
  | .remove group => do
    r.remove (← .ofExcept (GroupName.parse group))
    return ""
  | .dump json => do
    let book ← r.dump
    return if json then book.dumpJson else book.dumpText
  | .health => do
    r.check
    return "Accounts: " ++ path ++ " ok\nSecrets (" ++ r.backend.name ++ "): ok"
  | .configInit => return ""
  | .version => return ""

end Accounts.Command
