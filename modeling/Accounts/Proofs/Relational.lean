import Mathlib.Data.List.Forall2
import Accounts.Proofs.Program

/-! Two runs side by side. Actions that are started in related states, and that do the same as far
as the relation goes, end in related states with the same answer. -/
namespace Accounts.Action

variable {σ α β γ : Type} {host : Host σ} {I : σ → σ → Prop} {s s' : σ}

theorem run_attempt (a : Action α) (s : σ) :
    a.attempt.run.run host s = (.ok (a.run.run host s).1, (a.run.run host s).2) := by
  change (a.run >>= fun outcome => Pure.pure (Except.ok outcome) :
    Program (Except Error (Except Error α))).run host s = _
  rw [Program.run_bind, Program.run_pure]

theorem run_map (f : α → β) (a : Action α) (s : σ) :
    (f <$> a).run.run host s = ((a.run.run host s).1.map f, (a.run.run host s).2) := by
  rw [← bind_pure_comp, run_bind]
  cases a.run.run host s with
  | mk answer t =>
      cases answer with
      | ok x => rfl
      | error e => rfl

/-- From these two states the actions end with one answer, in related states. -/
def MatchesAt (host : Host σ) (I : σ → σ → Prop) (a a' : Action α) (s s' : σ) : Prop :=
  (a.run.run host s).1 = (a'.run.run host s').1 ∧ I (a.run.run host s).2 (a'.run.run host s').2

/-- The like from any related states. -/
def Matches (host : Host σ) (I : σ → σ → Prop) (a a' : Action α) : Prop :=
  ∀ s s', I s s' → MatchesAt host I a a' s s'

/-- The actions end in related states, with answers that may differ. -/
def Parallel (host : Host σ) (I : σ → σ → Prop) (a a' : Action α) : Prop :=
  ∀ s s', I s s' → I (a.run.run host s).2 (a'.run.run host s').2

namespace MatchesAt

variable {a a' : Action α}

/-- How the two runs end. -/
theorem ends (h : MatchesAt host I a a' s s') :
    ∃ answer t t', a.run.run host s = (answer, t) ∧ a'.run.run host s' = (answer, t') ∧ I t t' :=
  ⟨_, _, (a'.run.run host s').2, rfl, Prod.ext h.1.symm rfl, h.2⟩

theorem bind {f f' : α → Action β} (hFirst : MatchesAt host I a a' s s')
    (hSecond : ∀ x, Matches host I (f x) (f' x)) :
    MatchesAt host I (a >>= f) (a' >>= f') s s' := by
  obtain ⟨answer, t, t', hRun, hRun', hState⟩ := hFirst.ends
  rw [MatchesAt, run_bind, run_bind, hRun, hRun']
  cases answer with
  | ok x => exact hSecond x t t' hState
  | error e => exact ⟨rfl, hState⟩

end MatchesAt

namespace Matches

variable {a a' : Action α}

theorem pure (x : α) : Matches host I (pure x) (pure x) := fun _ _ hI => ⟨rfl, hI⟩

theorem throw (e : Error) : Matches host I (throw e : Action α) (throw e) := fun _ _ hI => ⟨rfl, hI⟩

theorem ofExcept (x : Except Error α) : Matches host I (Action.ofExcept x) (Action.ofExcept x) :=
  fun _ _ hI => ⟨rfl, hI⟩

theorem bind {f f' : α → Action β} (hFirst : Matches host I a a')
    (hSecond : ∀ x, Matches host I (f x) (f' x)) : Matches host I (a >>= f) (a' >>= f') :=
  fun s s' hI => (hFirst s s' hI).bind hSecond

theorem map {f : α → β} (h : Matches host I a a') : Matches host I (f <$> a) (f <$> a') := by
  rw [← bind_pure_comp, ← bind_pure_comp]
  exact h.bind fun x => pure (f x)

theorem tryCatch {handle handle' : Error → Action α} (hBody : Matches host I a a')
    (hHandle : ∀ e, Matches host I (handle e) (handle' e)) :
    Matches host I (tryCatch a handle) (tryCatch a' handle') := by
  intro s s' hI
  obtain ⟨answer, t, t', hRun, hRun', hState⟩ := (hBody s s' hI).ends
  rw [MatchesAt, run_tryCatch, run_tryCatch, hRun, hRun']
  cases answer with
  | ok x => exact ⟨rfl, hState⟩
  | error e => exact hHandle e t t' hState

theorem attempt (h : Matches host I a a') : Matches host I a.attempt a'.attempt := by
  intro s s' hI
  obtain ⟨answer, t, t', hRun, hRun', hState⟩ := (h s s' hI).ends
  rw [MatchesAt, run_attempt, run_attempt, hRun, hRun']
  exact ⟨rfl, hState⟩

/-- Loops over lists that go together element by element. -/
theorem forM {R : β → γ → Prop} {f : β → Action Unit} {f' : γ → Action Unit} {xs : List β}
    {ys : List γ} (hLists : List.Forall₂ R xs ys)
    (hTurn : ∀ x y, R x y → Matches host I (f x) (f' y)) :
    Matches host I (xs.forM f) (ys.forM f') := by
  induction hLists with
  | nil => exact pure ()
  | cons hHead _ ih => exact (hTurn _ _ hHead).bind fun _ => ih

theorem forM_same {f : β → Action Unit} (hTurn : ∀ x, Matches host I (f x) (f x)) (xs : List β) :
    Matches host I (xs.forM f) (xs.forM f) :=
  forM (List.forall₂_same.mpr fun _ _ => rfl) fun x _ hEq => hEq ▸ hTurn x

/-- What is made of an answer does not show in the states. -/
theorem parallel_of_map {f : α → β} (h : Matches host I (f <$> a) (f <$> a')) :
    Parallel host I a a' := by
  intro s s' hI
  have hState := (h s s' hI).2
  rwa [run_map, run_map] at hState

end Matches

namespace Parallel

variable {a a' : Action α}

/-- What follows the answers has no effect. -/
theorem bind_ofExcept {f f' : α → Except Error β} (h : Parallel host I a a') :
    Parallel host I (a >>= fun x => Action.ofExcept (f x))
      (a' >>= fun x => Action.ofExcept (f' x)) := by
  have hEnd : ∀ (b : Action α) (g : α → Except Error β) s,
      ((b >>= fun x => Action.ofExcept (g x)).run.run host s).2 = (b.run.run host s).2 := by
    intro b g s
    rw [run_bind]
    cases b.run.run host s with
    | mk answer t =>
        cases answer with
        | ok x => rfl
        | error e => rfl
  intro s s' hI
  rw [hEnd, hEnd]
  exact h s s' hI

theorem map {f f' : α → β} (h : Parallel host I a a') : Parallel host I (f <$> a) (f' <$> a') := by
  intro s s' hI
  rw [run_map, run_map]
  exact h s s' hI

end Parallel
end Accounts.Action
