import Accounts.Proofs.Dump
import Accounts.Proofs.GroupOrder

/-! The order in which accounts are listed. Groups are ordered as their section names are, so the
list of accounts, a saved account file and both dumps have the same order, though JSON sorts by name
and the others by group. -/
namespace Accounts

namespace KeyFile

/-! ## The headers of a text -/

end KeyFile

namespace Book
open KeyFile

variable {book : Book}

end Book

namespace Process

variable {r : Registry} {found : Option Content} {p q : Process}

/-! ## The account file over time -/

end Process

namespace Registry
open Process

end Registry
end Accounts
