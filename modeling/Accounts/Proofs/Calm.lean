import Accounts.Proofs.Atomic
import Accounts.Proofs.Registry.Entries

/-! What actions come to when nothing fails. Results and processes are then functions of the process
at the start, with one equation for each operation. -/
namespace Accounts

namespace Process

/-- Where nothing goes wrong at first, nothing goes wrong later. -/
theorem run_calm {α : Type} (a : Program α) (p : Process) : (a.run host (p, .none)).2.2 = .none := by
  induction a generalizing p with
  | done x => rfl
  | book next ih => exact ih _ p
  | save b next ih => exact ih _ _
  | put e v next ih => exact ih _ _
  | get e next ih => exact ih _ _
  | delete e next ih => exact ih _ _
  | emit event next ih => exact ih _

end Process

namespace Action
open Process

variable {α β : Type} {p p' : Process}

/-- The result of an action for which nothing fails, and the process that it leaves. -/
def calm (a : Action α) (p : Process) : Except Error α × Process :=
  ((a.run.run host (p, .none)).1, (a.run.run host (p, .none)).2.1)

theorem run_eq_calm (a : Action α) (p : Process) :
    a.run.run host (p, .none) = ((a.calm p).1, (a.calm p).2, .none) :=
  Prod.ext rfl (Prod.ext rfl (run_calm a.run p))

theorem calm_of_stable {J : Process → Prop} {a : Action α} (h : Stable J a) (hJ : J p) :
    J (a.calm p).2 :=
  (h (p, .none) hJ).last

@[simp] theorem calm_book (f : Book → Action α) (p : Process) :
    (Store.book >>= f).calm p = (f p.book).calm p := rfl

theorem calm_bind (a : Action α) (f : α → Action β) (p : Process) :
    (a >>= f).calm p = match a.calm p with
      | (.ok x, p') => (f x).calm p'
      | (.error e, p') => (.error e, p') := by
  rw [calm, run_bind, run_eq_calm a p]
  cases a.calm p with
  | mk result p' =>
      cases result with
      | ok x => rfl
      | error e => rfl

theorem calm_bind_ok {a : Action α} {f : α → Action β} {x : α} (h : a.calm p = (.ok x, p')) :
    (a >>= f).calm p = (f x).calm p' := by
  rw [calm_bind, h]

theorem calm_bind_error {a : Action α} {f : α → Action β} {e : Error}
    (h : a.calm p = (.error e, p')) : (a >>= f).calm p = (.error e, p') := by
  rw [calm_bind, h]

theorem calm_map (f : α → β) (a : Action α) (p : Process) :
    (f <$> a).calm p = ((a.calm p).1.map f, (a.calm p).2) := by
  rw [← bind_pure_comp, calm_bind]
  cases a.calm p with
  | mk result p' =>
      cases result with
      | ok x => rfl
      | error e => rfl

theorem calm_tryCatch (a : Action α) (handle : Error → Action α) (p : Process) :
    (tryCatch a handle).calm p = match a.calm p with
      | (.ok x, p') => (.ok x, p')
      | (.error e, p') => (handle e).calm p' := by
  rw [calm, run_tryCatch, run_eq_calm a p]
  cases a.calm p with
  | mk result p' =>
      cases result with
      | ok x => rfl
      | error e => rfl

/-- A loop whose turns all go well passes through the processes that `f` makes. -/
theorem calm_forM {turn : β → Action Unit} {next : Process → β → Process} {xs : List β}
    (h : ∀ x ∈ xs, ∀ p, (turn x).calm p = (.ok (), next p x)) (p : Process) :
    (xs.forM turn).calm p = (.ok (), xs.foldl next p) := by
  induction xs generalizing p with
  | nil => rfl
  | cons x xs ih =>
      change (turn x >>= fun _ => xs.forM turn).calm p = _
      rw [calm_bind_ok (h x List.mem_cons_self p)]
      exact ih (fun y hy => h y (List.mem_cons_of_mem x hy)) _

end Action
end Accounts
