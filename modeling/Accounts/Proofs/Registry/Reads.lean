import Accounts.Proofs.Atomic
import Accounts.Proofs.Registry.Operation

/-! Operations that only look at an account. Whatever fails, they leave the process as it is. -/
namespace Accounts

/-- Whether an operation only looks at accounts. -/
def Operation.isRead : Operation → Bool
  | .read .. | .getParam .. | .getSecret .. | .list | .account .. | .dump => true
  | _ => false

/-- An operation changes an account, or it is the backend check, or it only looks. -/
theorem Operation.isMutation_or_isRead (op : Operation) :
    op.isMutation = true ∨ op = .check ∨ op.isRead = true := by
  cases op <;> simp [isMutation, isRead]

namespace Registry
open Process Accounts.Action

variable {J : Process → Prop} {r : Registry}

theorem stable_ensureLive (g : GroupName) : Stable J (ensureLive g) := by
  refine Stable.book fun b => ?_
  split
  · exact Preserves.pure _
  · exact Preserves.throw _

theorem stable_storeGet (g : GroupName) (key : String) : Stable J (Store.get g key) := by
  refine Stable.book fun b => ?_
  cases b.value? g key with
  | some value => exact Preserves.pure value
  | none => exact Preserves.throw _

theorem stable_backendGet (backend : Backend) (g : GroupName) (key : String) :
    Stable J (backend.get g key) := by
  cases backend with
  | inline => exact stable_storeGet g key
  | keyring ring => exact Stable.of_atomic (atomic_get ring g key) fun s r p hJ hT => hT ▸ hJ

theorem stable_read (g : GroupName) (key : String) : Stable J (r.read g key) := by
  refine (stable_ensureLive g).bind fun _ => ?_
  split
  · exact stable_backendGet r.backend g key
  · exact stable_storeGet g key

theorem stable_account (g : GroupName) : Stable J (r.account g) := by
  refine (stable_ensureLive g).bind fun _ => Preserves.bind ?_ fun _ => Preserves.pure _
  refine Stable.book fun b => ?_
  cases b.get? g with
  | some a => exact Preserves.pure a
  | none => exact Preserves.throw _

theorem stable_action {op : Operation} (h : op.isRead = true) : Stable J (op.action r) := by
  cases op with
  | read g key => exact (stable_read g key).map
  | getParam g name kind =>
      exact ((stable_read g (paramKey name)).bind fun _ => Preserves.ofExcept _).map
  | getSecret g key =>
      exact ((stable_ensureLive g).bind fun _ => stable_backendGet r.backend g key).map
  | list => exact (Stable.book fun b => Preserves.pure b.liveGroups).map
  | account g => exact (stable_account g).map
  | dump => exact (Stable.book fun b => Preserves.pure (b.visible r.secrets)).map
  | create manager protocol params => contradiction
  | setProperty g key value => contradiction
  | setEnabled g enabled => contradiction
  | remove g => contradiction
  | check => contradiction

end Registry
end Accounts
