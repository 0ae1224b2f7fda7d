import Accounts.Proofs.Process
import Accounts.Proofs.Registry.Basic

/-! Runs in which no save and no call fails. A host may fail whenever it likes, so whether a run
succeeds is told from the answers that the program gets on its way and not from the host. -/
namespace Accounts

/-- The service did what it was asked to, or found no entry to do it with. -/
def IsServed {α : Type} (answer : Except CallFailure α) : Prop :=
  (∃ x, answer = .ok x) ∨ answer = .error (.refused .noEntry)

instance {α : Type} : DecidablePred (IsServed (α := α))
  | .ok x => .isTrue (Or.inl ⟨x, rfl⟩)
  | .error (.refused .noEntry) => .isTrue (Or.inr rfl)
  | .error (.refused (.unavailable _)) => .isFalse (by simp [IsServed])
  | .error .timedOut => .isFalse (by simp [IsServed])
  | .error .crashed => .isFalse (by simp [IsServed])

namespace Program

variable {σ α β : Type} {host : Host σ} {s : σ}

/-- Every save and every call in the run is answered with success. To find nothing to read or to
remove is a success too. -/
def Succeeds (host : Host σ) : Program α → σ → Prop
  | .done _, _ => True
  | .book next, s => (next (host.book s)).Succeeds host s
  | .save b next, s =>
    (host.save b s).1 = .ok () ∧ (next (host.save b s).1).Succeeds host (host.save b s).2
  | .put e v next, s =>
    (host.put e v s).1 = .ok () ∧ (next (host.put e v s).1).Succeeds host (host.put e v s).2
  | .get e next, s =>
    IsServed (host.get e s).1 ∧ (next (host.get e s).1).Succeeds host (host.get e s).2
  | .delete e next, s =>
    IsServed (host.delete e s).1 ∧ (next (host.delete e s).1).Succeeds host (host.delete e s).2
  | .emit event next, s => next.Succeeds host (host.emit event s)

instance decidableSucceeds (host : Host σ) :
    (p : Program α) → (s : σ) → Decidable (p.Succeeds host s)
  | .done _, _ => .isTrue trivial
  | .book next, s => decidableSucceeds host (next (host.book s)) s
  | .save b next, s =>
    have := decidableSucceeds host (next (host.save b s).1) (host.save b s).2
    instDecidableAnd
  | .put e v next, s =>
    have := decidableSucceeds host (next (host.put e v s).1) (host.put e v s).2
    instDecidableAnd
  | .get e next, s =>
    have := decidableSucceeds host (next (host.get e s).1) (host.get e s).2
    instDecidableAnd
  | .delete e next, s =>
    have := decidableSucceeds host (next (host.delete e s).1) (host.delete e s).2
    instDecidableAnd
  | .emit event next, s => decidableSucceeds host next (host.emit event s)

/-- One program after the other succeeds if both do. -/
theorem succeeds_bind (p : Program α) (f : α → Program β) (s : σ) :
    (p >>= f).Succeeds host s ↔
      p.Succeeds host s ∧ (f (p.run host s).1).Succeeds host (p.run host s).2 := by
  change (p.bind f).Succeeds host s ↔ _
  induction p generalizing s with
  | done a => simp only [run, Succeeds, true_and]; rfl
  | book next ih => exact ih _ _
  | save b next ih => exact (and_congr_right fun _ => ih _ _).trans and_assoc.symm
  | put e v next ih => exact (and_congr_right fun _ => ih _ _).trans and_assoc.symm
  | get e next ih => exact (and_congr_right fun _ => ih _ _).trans and_assoc.symm
  | delete e next ih => exact (and_congr_right fun _ => ih _ _).trans and_assoc.symm
  | emit event next ih => exact ih _

/-- Where nothing goes wrong, every run succeeds. -/
theorem succeeds_calm (a : Program α) (p : Process) : a.Succeeds Process.host (p, .none) := by
  induction a generalizing p with
  | done x => trivial
  | book next ih => exact ih _ p
  | save b next ih => exact ⟨rfl, ih _ _⟩
  | put e v next ih => exact ⟨rfl, ih _ _⟩
  | get e next ih =>
      refine ⟨?_, ih _ _⟩
      change IsServed ((p.vault.read e).mapError CallFailure.refused)
      unfold Vault.read
      cases SortedMap.get? p.vault e with
      | some value => exact Or.inl ⟨value, rfl⟩
      | none => exact Or.inr rfl
  | delete e next ih =>
      refine ⟨?_, ih _ _⟩
      simp only [Process.host, Process.call, Vault.serve_delete]
      cases p.vault.contains e with
      | true => exact Or.inl ⟨(), rfl⟩
      | false => exact Or.inr rfl
  | emit event next ih => exact ih _

end Program

namespace Action

variable {σ α β : Type} {host : Host σ}

theorem succeeds_bind {a : Action α} {f : α → Action β} {s : σ} :
    (a >>= f).run.Succeeds host s ↔ a.run.Succeeds host s ∧
      ∀ x s', a.run.run host s = (.ok x, s') → (f x).run.Succeeds host s' := by
  rw [ExceptT.run_bind, Program.succeeds_bind]
  refine and_congr_right fun _ => ?_
  cases a.run.run host s with
  | mk r s' =>
      cases r with
      | ok x => simp
      | error e => simp [Program.Succeeds, pure]

theorem succeeds_tryCatch {a : Action α} {handle : Error → Action α} {s : σ} :
    (tryCatch a handle).run.Succeeds host s ↔ a.run.Succeeds host s ∧
      ∀ e s', a.run.run host s = (.error e, s') → (handle e).run.Succeeds host s' := by
  rw [ExceptT.run_tryCatch, Program.succeeds_bind]
  refine and_congr_right fun _ => ?_
  cases a.run.run host s with
  | mk r s' =>
      cases r with
      | ok x => simp [Program.Succeeds, pure]
      | error e => simp

/-- An action that ends well in every run that succeeds. -/
def Sure (host : Host σ) (a : Action α) : Prop :=
  ∀ s, a.run.Succeeds host s → ∃ x, (a.run.run host s).1 = .ok x

namespace Sure

variable {a : Action α}

theorem pure (x : α) : Sure host (pure x : Action α) := fun _ _ => ⟨x, rfl⟩

theorem bind {f : α → Action β} (hFirst : Sure host a) (hSecond : ∀ x, Sure host (f x)) :
    Sure host (a >>= f) := by
  intro s hRun
  obtain ⟨hHead, hRest⟩ := succeeds_bind.mp hRun
  obtain ⟨x, hOk⟩ := hFirst s hHead
  have hEnd : a.run.run host s = (.ok x, (a.run.run host s).2) := Prod.ext hOk rfl
  rw [run_bind, hEnd]
  exact hSecond x _ (hRest x _ hEnd)

/-- What handles errors has nothing to do. -/
theorem tryCatch {handle : Error → Action α} (hBody : Sure host a) :
    Sure host (tryCatch a handle) := by
  intro s hRun
  obtain ⟨x, hOk⟩ := hBody s (succeeds_tryCatch.mp hRun).1
  have hEnd : a.run.run host s = (.ok x, (a.run.run host s).2) := Prod.ext hOk rfl
  rw [run_tryCatch, hEnd]
  exact ⟨x, rfl⟩

theorem forM {f : β → Action Unit} {xs : List β} (hTurn : ∀ x ∈ xs, Sure host (f x)) :
    Sure host (xs.forM f) := by
  induction xs with
  | nil => exact pure ()
  | cons x rest ih =>
      rw [List.forall_mem_cons] at hTurn
      exact bind hTurn.1 fun _ => ih hTurn.2

end Sure
end Action

variable {σ : Type} {host : Host σ}

namespace Store
open Accounts.Action

theorem sure_book : Sure host book := fun s _ => ⟨host.book s, rfl⟩

theorem sure_commit (b : Book) : Sure host (commit b) := by
  intro s hRun
  have hSaved : (host.save b s).1 = .ok () := hRun.1
  simp [commit, Program.run, hSaved]

theorem sure_delete (g : GroupName) (key : String) : Sure host (delete g key) := by
  apply sure_book.bind
  intro b
  cases (b.value? g key).isSome with
  | true => exact sure_commit _
  | false => exact Sure.pure ()

theorem sure_deleteGroup (g : GroupName) : Sure host (deleteGroup g) := by
  apply sure_book.bind
  intro b
  cases b.contains g with
  | true => exact (sure_commit _).bind fun _ => Sure.pure true
  | false => exact Sure.pure false

end Store

namespace Keyring
open Accounts.Action

theorem sure_set (ring : Keyring) (g : GroupName) (key value : String) :
    Sure host (ring.set g key value) := by
  intro s hRun
  have hPut : (host.put (ring.entry g key) value s).1 = .ok () := hRun.1
  simp [set, Program.run, hPut]

theorem sure_delete (ring : Keyring) (g : GroupName) (key : String) :
    Sure host (ring.delete g key) := by
  intro s hRun
  have hServed : IsServed (host.delete (ring.entry g key) s).1 := hRun.1
  rcases hServed with ⟨_, hOk⟩ | hNone
  · simp [delete, Program.run, hOk]
  · simp [delete, Program.run, hNone]

end Keyring

namespace Registry
open Accounts.Action

theorem sure_backendDelete (backend : Backend) (g : GroupName) (key : String) :
    Sure host (backend.delete g key) := by
  cases backend with
  | inline => exact Store.sure_delete g key
  | keyring ring => exact ring.sure_delete g key

theorem sure_finishRemoval (r : Registry) (g : GroupName) : Sure host (r.finishRemoval g) := by
  rw [finishRemoval_eq]
  apply Sure.tryCatch
  apply (Sure.forM fun key _ => sure_backendDelete r.backend g key).bind
  intro _
  exact (Store.sure_deleteGroup g).bind fun _ => Sure.pure ()

/-- A migration fails only if a save or a call does. -/
theorem sure_migrate (r : Registry) : Sure host r.migrate := by
  cases hBackend : r.backend with
  | inline =>
      rw [migrate_inline (by rw [hBackend]; rfl)]
      exact Sure.pure ()
  | keyring ring =>
      rw [migrate_eq (by rw [hBackend]; rfl)]
      apply Store.sure_book.bind
      intro b
      apply Sure.forM
      intro e _
      rw [moveSecret, hBackend]
      exact (ring.sure_set e.1 e.2.1 e.2.2).bind fun _ => Store.sure_delete e.1 e.2.1

end Registry
end Accounts
