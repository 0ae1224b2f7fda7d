import Accounts.Proofs.Process
import Accounts.Registry.Basic

/-! Actions with one effect at most. Cut off or not, they leave the old process or the new one. -/
namespace Accounts.Process

variable {α β : Type} {s : Process × Faults} {J : Process → Prop}

/-! ## Looking at the book -/

theorem run_book (f : Book → Action α) (s : Process × Faults) :
    (Store.book >>= f).run.run host s = (f s.1.book).run.run host s := rfl

theorem cuts_book (f : Book → Action α) (s : Process × Faults) :
    (Store.book >>= f).run.cuts host s = (f s.1.book).run.cuts host s := rfl

/-- An action that looks at the book goes on with the book of the process. -/
theorem keeps_book {I : Process × Faults → Prop} {f : Book → Action α}
    {Q : Except Error α → Process × Faults → Prop} (h : Action.Keeps host I (f s.1.book) s Q) :
    Action.Keeps host I (Store.book >>= f) s Q := h

/-! ## One effect at most -/

/-- Wherever it is cut off, the action leaves the process as it was or as a full run leaves it. A
full run ends with a result and a process in `T`. -/
def Atomic (a : Action α) (s : Process × Faults) (T : Except Error α → Process → Prop) : Prop :=
  Action.Keeps host (fun s' => s'.1 = s.1 ∨ s'.1 = (a.run.run host s).2.1) a s fun r s' => T r s'.1

namespace Atomic

variable {a : Action α} {T T' : Except Error α → Process → Prop}

theorem intro (hCuts : ∀ s' ∈ a.run.cuts host s, s' = s ∨ s' = (a.run.run host s).2)
    (hEnd : T (a.run.run host s).1 (a.run.run host s).2.1) : Atomic a s T :=
  ⟨fun s' hCut => (hCuts s' hCut).imp (congrArg Prod.fst) (congrArg Prod.fst), hEnd⟩

theorem pure {x : α} (h : T (.ok x) s.1) : Atomic (pure x) s T :=
  Action.Keeps.pure (Or.inl rfl) h

theorem throw {e : Error} (h : T (.error e) s.1) : Atomic (throw e) s T :=
  Action.Keeps.throw (Or.inl rfl) h

theorem mono (h : Atomic a s T) (hImp : ∀ r p, T r p → T' r p) : Atomic a s T' :=
  Action.Keeps.mono h fun r s' _ hT => hImp r s'.1 hT

/-- Looking at the book is no effect, so an action that begins with it is as atomic as the rest. -/
theorem book {f : Book → Action α} (h : Atomic (f s.1.book) s T) :
    Atomic (Store.book >>= f) s T := h

/-- What is made of the result afterwards has no effect. -/
theorem bind_pure {f : α → Except Error β} {T : Except Error β → Process → Prop}
    (h : Atomic a s fun r p => T (r.bind f) p) :
    Atomic (a >>= fun x => Action.ofExcept (f x)) s T := by
  have hRun : (a >>= fun x => Action.ofExcept (f x)).run.run host s =
      ((a.run.run host s).1.bind f, (a.run.run host s).2) := by
    rw [ExceptT.run_bind, Program.run_bind]
    cases hResult : (a.run.run host s).1 with
    | ok x => rfl
    | error e => rfl
  refine ⟨?_, ?_⟩
  · intro s' hCut
    rw [hRun]
    rw [ExceptT.run_bind] at hCut
    rcases Program.mem_cuts_bind hCut with hCut | hCut
    · exact h.1 s' hCut
    · right
      cases hResult : (a.run.run host s).1 with
      | ok x =>
          rw [hResult] at hCut
          rw [List.mem_singleton.mp hCut]
      | error e =>
          rw [hResult] at hCut
          rw [List.mem_singleton.mp hCut]
  · rw [hRun]
    exact h.2

/-- What holds before the action and of every process it may end with holds throughout. -/
theorem keeps (h : Atomic a s T) (hStart : J s.1) (hEnd : ∀ r p, T r p → J p) :
    Action.Keeps host (fun s' => J s'.1) a s fun r s' => T r s'.1 := by
  refine ⟨fun s' hCut => ?_, h.2⟩
  rcases h.1 s' hCut with hOld | hNew
  · rw [hOld]
    exact hStart
  · rw [hNew]
    exact hEnd _ _ h.2

/-- Where the action may be cut off does not matter to how it ends. -/
theorem ends (h : Atomic a s T) : Action.Keeps host (fun _ => True) a s fun r s' => T r s'.1 :=
  ⟨fun _ _ => trivial, h.2⟩

theorem within {I : Process × Faults → Prop} (h : Atomic a s T) (hKeep : Action.Preserves host I a)
    (hStart : I s) : Action.Keeps host I a s fun r s' => T r s'.1 :=
  ⟨(hKeep s hStart).1, h.2⟩

end Atomic

/-- Whatever fails and wherever it is cut off, the action keeps what holds of the process. -/
abbrev Stable (J : Process → Prop) (a : Action α) : Prop :=
  Action.Preserves host (fun s => J s.1) a

namespace Stable

theorem of_atomic {a : Action α} {T : Process × Faults → Except Error α → Process → Prop}
    (h : ∀ s, Atomic a s (T s)) (hEnd : ∀ s r p, J s.1 → T s r p → J p) : Stable J a :=
  fun s hJ => ((h s).keeps hJ fun r p hT => hEnd s r p hJ hT).mono fun _ _ _ _ => trivial

theorem book {f : Book → Action α} (h : ∀ b, Stable J (f b)) : Stable J (Store.book >>= f) :=
  fun s hJ => h s.1.book s hJ

end Stable

/-! ## The store -/

/-- A commit saves the book, or fails and changes nothing. -/
theorem atomic_commit (b : Book) (s : Process × Faults) :
    Atomic (Store.commit b) s fun r p =>
      (r = .ok () ∧ p = s.1.save b) ∨ ((∃ reason, r = .error (.storage reason)) ∧ p = s.1) := by
  rcases host_save b s with ⟨hAnswer, hSaved⟩ | ⟨⟨reason, hAnswer⟩, hSame⟩
  · refine Atomic.intro ?_ (Or.inl ?_)
    · simp [Store.commit, Program.cuts, Program.run, hAnswer]
    · simp [Store.commit, Program.run, hAnswer, hSaved]
  · refine Atomic.intro ?_ (Or.inr ?_)
    · simp [Store.commit, Program.cuts, Program.run, hAnswer]
    · simp [Store.commit, Program.run, hAnswer, hSame]

/-- Entries whose keys can all stand in a file fail to be written only if they cannot be saved. -/
theorem atomic_setMany_of_isKey (g : GroupName) {entries : List (String × String)}
    (hKeys : ∀ e ∈ entries, KeyFile.isKey e.1 = true) (s : Process × Faults) :
    Atomic (Store.setMany g entries) s fun r p =>
      (r = .ok () ∧ p = s.1.save (s.1.book.write g entries)) ∨
      ((∃ reason, r = .error (.storage reason)) ∧ p = s.1) := by
  have hFind : entries.find? (fun e => !KeyFile.isKey e.1) = none := by
    simpa using hKeys
  rw [Store.setMany, hFind]
  exact Atomic.book (atomic_commit _ s)

theorem setMany_of_find {g : GroupName} {entries : List (String × String)} {e : String × String}
    (h : entries.find? (fun e => !KeyFile.isKey e.1) = some e) :
    Store.setMany g entries = throw (.invalidValue "attribute key" e.1) := by
  rw [Store.setMany, h]

theorem atomic_setMany (g : GroupName) (entries : List (String × String))
    (s : Process × Faults) :
    Atomic (Store.setMany g entries) s fun r p =>
      ((r = .ok () ∧ p = s.1.save (s.1.book.write g entries)) ∧
        ∀ e ∈ entries, KeyFile.isKey e.1 = true) ∨
      ((∃ e, r = .error e) ∧ p = s.1) := by
  cases hFind : entries.find? fun e => !KeyFile.isKey e.1 with
  | some e =>
      rw [setMany_of_find hFind]
      exact Atomic.throw (Or.inr ⟨⟨_, rfl⟩, rfl⟩)
  | none =>
      have hKeys : ∀ e ∈ entries, KeyFile.isKey e.1 = true := by
        simpa using List.find?_eq_none.mp hFind
      refine (atomic_setMany_of_isKey g hKeys s).mono fun r p h => ?_
      exact h.imp (fun hOk => ⟨hOk, hKeys⟩) fun ⟨⟨_, hError⟩, hSame⟩ => ⟨⟨_, hError⟩, hSame⟩

theorem atomic_delete (g : GroupName) (key : String) (s : Process × Faults) :
    Atomic (Store.delete g key) s fun r p =>
      (r = .ok () ∧ p = if (s.1.book.value? g key).isSome then s.1.save (s.1.book.eraseKey g key)
        else s.1) ∨
      ((∃ e, r = .error e) ∧ p = s.1) := by
  refine Atomic.book ?_
  by_cases hThere : (s.1.book.value? g key).isSome = true
  · simp only [hThere, if_true]
    exact (atomic_commit _ s).mono fun r p h => h.imp_right fun ⟨⟨_, hError⟩, hSame⟩ =>
      ⟨⟨_, hError⟩, hSame⟩
  · simp only [hThere]
    exact Atomic.pure (Or.inl ⟨rfl, rfl⟩)

theorem atomic_deleteGroup (g : GroupName) (s : Process × Faults) :
    Atomic (Store.deleteGroup g) s fun r p =>
      (r = .ok (s.1.book.contains g) ∧
        p = if s.1.book.contains g then s.1.save (s.1.book.erase g) else s.1) ∨
      ((∃ e, r = .error e) ∧ p = s.1) := by
  refine Atomic.book ?_
  cases hThere : s.1.book.contains g with
  | false => exact Atomic.pure (Or.inl ⟨rfl, rfl⟩)
  | true =>
      refine Atomic.bind_pure (f := fun _ => .ok true) ((atomic_commit _ s).mono fun r p h => ?_)
      rcases h with ⟨rfl, hSaved⟩ | ⟨⟨reason, rfl⟩, hSame⟩
      · exact Or.inl ⟨rfl, hSaved⟩
      · exact Or.inr ⟨⟨_, rfl⟩, hSame⟩

/-- A group that is there is marked, unless the mark cannot be saved. -/
theorem atomic_markPending_of_contains {g : GroupName} (hThere : s.1.book.contains g = true) :
    Atomic (Store.markPending g) s fun r p =>
      (r = .ok () ∧ p = if s.1.book.isPending g then s.1
        else s.1.save (s.1.book.write g [(pendingKey, "true")])) ∨
      ((∃ reason, r = .error (.storage reason)) ∧ p = s.1) := by
  have hKeys : ∀ e ∈ [(pendingKey, "true")], KeyFile.isKey e.1 = true := by decide
  refine Atomic.book ?_
  rw [hThere]
  cases hPending : s.1.book.isPending g with
  | true => exact Atomic.pure (Or.inl ⟨rfl, rfl⟩)
  | false => exact atomic_setMany_of_isKey g hKeys s

theorem atomic_markPending (g : GroupName) (s : Process × Faults) :
    Atomic (Store.markPending g) s fun r p =>
      (r = .ok () ∧ s.1.book.contains g = true ∧ p = if s.1.book.isPending g then s.1
        else s.1.save (s.1.book.write g [(pendingKey, "true")])) ∨
      ((∃ e, r = .error e) ∧ p = s.1) := by
  cases hThere : s.1.book.contains g with
  | false =>
      refine Atomic.book ?_
      rw [hThere]
      exact Atomic.throw (Or.inr ⟨⟨_, rfl⟩, rfl⟩)
  | true =>
      refine (atomic_markPending_of_contains hThere).mono fun r p h => ?_
      exact h.imp (fun ⟨hOk, hMarked⟩ => ⟨hOk, rfl, hMarked⟩)
        fun ⟨⟨_, hError⟩, hSame⟩ => ⟨⟨_, hError⟩, hSame⟩

/-! ## The secret service -/

theorem atomic_put (ring : Keyring) (g : GroupName) (key value : String)
    (s : Process × Faults) :
    Atomic (ring.set g key value) s fun r p =>
      (r = .ok () ∧ p = s.1.withVault (s.1.vault.put (ring.entry g key) value)) ∨
      ((∃ e, r = .error e) ∧
        (p = s.1 ∨ p = s.1.withVault (s.1.vault.put (ring.entry g key) value))) := by
  rcases host_put (ring.entry g key) value s with ⟨hAnswer, hPut⟩ | ⟨⟨cause, hAnswer⟩, hAfter⟩
  · refine Atomic.intro ?_ (Or.inl ?_)
    · simp [Keyring.set, Program.cuts, Program.run, hAnswer]
    · simp [Keyring.set, Program.run, hAnswer, hPut]
  · refine Atomic.intro ?_ (Or.inr ?_)
    · simp [Keyring.set, Program.cuts, Program.run, hAnswer]
    · simpa [Keyring.set, Program.run, hAnswer] using hAfter

theorem atomic_get (ring : Keyring) (g : GroupName) (key : String) (s : Process × Faults) :
    Atomic (ring.get g key) s fun _ p => p = s.1 := by
  have hSame := host_get (ring.entry g key) s
  refine Atomic.intro ?_ ?_
  · simp only [Keyring.get, ExceptT.run_mk, Program.cuts, Program.run]
    split
    · simp [Program.cuts, Program.run]
    · simp [Program.cuts, Program.run]
    · simp [Program.cuts, Program.run]
  · simp only [Keyring.get, ExceptT.run_mk, Program.run]
    split
    · exact hSame
    · exact hSame
    · exact hSame

theorem atomic_remove (ring : Keyring) (g : GroupName) (key : String) (s : Process × Faults) :
    Atomic (ring.delete g key) s fun r p =>
      (r = .ok () ∧ p = s.1.withVault (s.1.vault.erase (ring.entry g key))) ∨
      ((∃ e, r = .error e) ∧
        (p = s.1 ∨ p = s.1.withVault (s.1.vault.erase (ring.entry g key)))) := by
  rcases host_delete (ring.entry g key) s with ⟨hAnswer | hAnswer, hGone⟩ |
    ⟨⟨cause, hCause, hAnswer⟩, hAfter⟩
  · refine Atomic.intro ?_ (Or.inl ?_)
    · simp [Keyring.delete, Program.cuts, Program.run, hAnswer]
    · simp [Keyring.delete, Program.run, hAnswer, hGone]
  · refine Atomic.intro ?_ (Or.inl ?_)
    · simp [Keyring.delete, Program.cuts, Program.run, hAnswer]
    · simp [Keyring.delete, Program.run, hAnswer, hGone]
  · refine Atomic.intro ?_ (Or.inr ?_)
    · simp [Keyring.delete, Program.cuts, Program.run, hAnswer]
    · simpa [Keyring.delete, Program.run, hAnswer] using hAfter

end Accounts.Process
