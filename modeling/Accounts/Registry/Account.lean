import Accounts.Registry.SecretNames

/-! What may be shown of an account: all but its secrets. -/
namespace Accounts

/-- The reserved attribute that holds the manager of an account. -/
def managerKey : String := "manager"

/-- The reserved attribute that holds the protocol of an account. -/
def protocolKey : String := "protocol"

/-- The attribute that says whether an account is in use. -/
def enabledKey : String := "Enabled"

/-- An account without its secrets. -/
structure Account where
  group : GroupName
  manager : String
  protocol : String
  /-- The parameters, by name. -/
  params : SortedMap String String
  /-- Every other attribute, by key. -/
  properties : SortedMap String String
  deriving DecidableEq

namespace Account

/-- An account of which nothing is known but its group. -/
def blank (group : GroupName) : Account := ⟨group, "", "", ∅, ∅⟩

/-- Take one more attribute into account. -/
def add (account : Account) (key value : String) : Account :=
  if key = managerKey then { account with manager := value }
  else if key = protocolKey then { account with protocol := value }
  else match paramName? key with
    | some name => { account with params := account.params.insert name value }
    | none => { account with properties := account.properties.insert key value }

/-- The account with the given attributes. -/
def ofAttributes (group : GroupName) (a : Attributes) (secrets : SecretNames) : Account :=
  (a.withoutSecrets secrets).toList.foldl (fun account e => account.add e.1 e.2) (blank group)

end Account

/-- The live groups with the attributes that may be shown. -/
def Book.visible (book : Book) (secrets : SecretNames) : Book :=
  (book.filter fun _ a => !a.isPending).map fun _ a => a.withoutSecrets secrets

end Accounts
