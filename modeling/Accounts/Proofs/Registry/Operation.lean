import Mathlib.Logic.Relation
import Accounts.Proofs.Process
import Accounts.Registry.Check
import Accounts.Registry.Open

/-! The operations of a registry, and the storage that processes leave when they use one and are
cut off at any point. -/
namespace Accounts

inductive Operation where
  | create (manager protocol : String) (params : SortedMap String Value)
  | setProperty (g : GroupName) (key : String) (value : Value)
  | setEnabled (g : GroupName) (enabled : Bool)
  | read (g : GroupName) (key : String)
  | getParam (g : GroupName) (name : String) (kind : Value.Kind)
  | getSecret (g : GroupName) (key : String)
  | remove (g : GroupName)
  | list
  | account (g : GroupName)
  | dump
  | check
  deriving DecidableEq

/-- What an operation answers when it does not fail. -/
inductive Reply where
  | done
  | group (g : GroupName)
  | groups (gs : List GroupName)
  | text (text : String)
  | value (value : Value)
  | account (account : Account)
  | book (book : Book)
  deriving DecidableEq

namespace Operation

/-- What the registry does for an operation. -/
def action (r : Registry) : Operation → Action Reply
  | .create manager protocol params => .group <$> r.create manager protocol params
  | .setProperty g key value => (fun _ => .done) <$> r.setProperty g key value
  | .setEnabled g enabled => (fun _ => .done) <$> r.setEnabled g enabled
  | .read g key => .text <$> r.read g key
  | .getParam g name kind => .value <$> r.getParam g name kind
  | .getSecret g key => .text <$> r.getSecret g key
  | .remove g => (fun _ => .done) <$> r.remove g
  | .list => .groups <$> Registry.list
  | .account g => .account <$> r.account g
  | .dump => .book <$> r.dump
  | .check => (fun _ => .done) <$> r.check

/-- Whether an operation is one of those that change an account. -/
def isMutation : Operation → Bool
  | .create .. | .setProperty .. | .setEnabled .. | .remove .. => true
  | _ => false

/-- There are four operations that change an account. -/
@[elab_as_elim]
theorem mutation_cases {motive : (op : Operation) → op.isMutation = true → Prop}
    (create : ∀ manager protocol params, motive (.create manager protocol params) rfl)
    (setProperty : ∀ g key value, motive (.setProperty g key value) rfl)
    (setEnabled : ∀ g enabled, motive (.setEnabled g enabled) rfl)
    (remove : ∀ g, motive (.remove g) rfl) (op : Operation) (h : op.isMutation = true) :
    motive op h := by
  cases op with
  | create manager protocol params => exact create manager protocol params
  | setProperty g key value => exact setProperty g key value
  | setEnabled g enabled => exact setEnabled g enabled
  | remove g => exact remove g
  | read g key => contradiction
  | getParam g name kind => contradiction
  | getSecret g key => contradiction
  | list => contradiction
  | account g => contradiction
  | dump => contradiction
  | check => contradiction

end Operation

namespace Registry

/-- Operations in turn, whether they fail or not. -/
def work (r : Registry) (ops : List Operation) : Action Unit :=
  ops.forM fun op => do let _ ← Action.attempt (op.action r)

/-- Everything that a process does with a registry. It ends at once if the registry cannot be
opened. -/
def session (r : Registry) (ops : List Operation) : Action Unit := do
  r.openUp
  r.work ops

end Registry

/-- A process that opened the registry was cut off somewhere and left `d'` of `d`. -/
def Storage.Leaves (r : Registry) (d d' : Storage) : Prop :=
  ∃ p ops faults s, d.start = .ok p ∧
    s ∈ (r.session ops).run.cuts Process.host (p, faults) ∧ s.1.toStorage = d'

/-- The like for a process that used only some of the operations. -/
def Storage.LeavesUsing (r : Registry) (allowed : Operation → Prop) (d d' : Storage) : Prop :=
  ∃ p ops faults s, (∀ op ∈ ops, allowed op) ∧ d.start = .ok p ∧
    s ∈ (r.session ops).run.cuts Process.host (p, faults) ∧ s.1.toStorage = d'

end Accounts
