import Accounts.Proofs.AccountFile
import Accounts.Proofs.Atomic
import Accounts.Registry.Check

/-! A store and its file. The book that a store holds in memory is what its file says, whatever is
done to the store and whichever saves fail. -/
namespace Accounts

/-- What may be done to a store. -/
inductive StoreOperation where
  | set (g : GroupName) (key value : String)
  | setMany (g : GroupName) (entries : List (String × String))
  | delete (g : GroupName) (key : String)
  | deleteGroup (g : GroupName)
  | markPending (g : GroupName)
  | clearPending (g : GroupName)
  /-- Read the file anew. -/
  | reload
  deriving DecidableEq

/-- What a store answers when it does not fail. -/
inductive StoreReply where
  | done
  /-- Whether there was something to remove. -/
  | removed (there : Bool)
  deriving DecidableEq

namespace Process

/-- The process with the book that is in its file. It stays as it is if the file cannot be read. -/
def reload (p : Process) : Except Error Unit × Process :=
  match AccountFile.load p.file with
  | .ok book => (.ok (), { p with book })
  | .error e => (.error e, p)

theorem Intact.reload {P : String → Prop} {p : Process} (h : p.Intact P) :
    p.reload = (.ok (), p) := by
  rw [Process.reload, h.load_file]

end Process

namespace StoreOperation
open Process Registry

variable {α : Type} {s : Process × Faults} {op : StoreOperation}

/-- Run an action of the store, and make a reply of its result. -/
def carryOut (reply : α → StoreReply) (a : Action α) (s : Process × Faults) :
    Except Error StoreReply × Process × Faults :=
  ((a.run.run host s).1.map reply, (a.run.run host s).2)

/-- What comes of an operation. -/
def run : StoreOperation → Process × Faults → Except Error StoreReply × Process × Faults
  | .set g key value, s => carryOut (fun _ => .done) (Store.set g key value) s
  | .setMany g entries, s => carryOut (fun _ => .done) (Store.setMany g entries) s
  | .delete g key, s => carryOut (fun _ => .done) (Store.delete g key) s
  | .deleteGroup g, s => carryOut .removed (Store.deleteGroup g) s
  | .markPending g, s => carryOut (fun _ => .done) (Store.markPending g) s
  | .clearPending g, s => carryOut (fun _ => .done) (Store.clearPending g) s
  | .reload, s => (s.1.reload.1.map fun _ => .done, s.1.reload.2, s.2)

/-- Operations in turn, whether they fail or not. -/
def runAll (ops : List StoreOperation) (s : Process × Faults) : Process × Faults :=
  ops.foldl (fun s op => (op.run s).2) s

/-! ## One operation -/

/-- An operation did something and succeeded, or did nothing and failed. The book is the one in the
file either way. -/
inductive Outcome (s : Process × Faults) : Except Error StoreReply × Process × Faults → Prop
  | success (reply : StoreReply) {s' : Process × Faults}
      (hIntact : s'.1.Intact KeyFile.IsWritable) : Outcome s (.ok reply, s')
  | failure (e : Error) (faults : Faults) : Outcome s (.error e, s.1, faults)

theorem Outcome.intact {answer : Except Error StoreReply} {s' : Process × Faults}
    (h : Outcome s (answer, s')) (hIntact : s.1.Intact KeyFile.IsWritable) :
    s'.1.Intact KeyFile.IsWritable := by
  cases h with
  | success _ hIntact' => exact hIntact'
  | failure e faults => exact hIntact

theorem Outcome.of_atomic {reply : α → StoreReply} {a : Action α}
    {T : Except Error α → Process → Prop} (h : Atomic a s T)
    (hEnd : ∀ answer p, T answer p →
      (∃ x, answer = .ok x ∧ p.Intact KeyFile.IsWritable) ∨ (∃ e, answer = .error e) ∧ p = s.1) :
    Outcome s (carryOut reply a s) := by
  have hLast := hEnd _ _ h.2
  unfold carryOut
  cases hRun : a.run.run host s with
  | mk answer s' =>
      rw [hRun] at hLast
      rcases hLast with ⟨x, hOk, hIntact⟩ | ⟨⟨e, hError⟩, hSame⟩
      · dsimp only at hOk
        rw [hOk]
        exact .success _ hIntact
      · obtain ⟨p, faults⟩ := s'
        dsimp only at hError hSame
        rw [hError, hSame]
        exact .failure e faults

theorem outcome_setMany (hIntact : s.1.Intact KeyFile.IsWritable) (g : GroupName)
    (entries : List (String × String)) :
    Outcome s (carryOut (fun _ => .done) (Store.setMany g entries) s) := by
  refine Outcome.of_atomic (atomic_setMany g entries s) fun answer p hT => ?_
  rcases hT with ⟨⟨hOk, rfl⟩, hKeys⟩ | hFailed
  · exact Or.inl ⟨(), hOk, hIntact.write g hKeys⟩
  · exact Or.inr hFailed

theorem outcome_delete (hIntact : s.1.Intact KeyFile.IsWritable) (g : GroupName) (key : String) :
    Outcome s (carryOut (fun _ => .done) (Store.delete g key) s) := by
  refine Outcome.of_atomic (atomic_delete g key s) fun answer p hT => ?_
  rcases hT with ⟨hOk, rfl⟩ | hFailed
  · refine Or.inl ⟨(), hOk, ?_⟩
    split_ifs
    · exact Intact.save (fun _ h => h) s.1 (hIntact.allKeys.eraseKey g key)
    · exact hIntact
  · exact Or.inr hFailed

/-- The book that an operation saves can be read back. -/
theorem outcome_run (op : StoreOperation) (hIntact : s.1.Intact KeyFile.IsWritable) :
    Outcome s (op.run s) := by
  cases op with
  | set g key value => exact outcome_setMany hIntact g [(key, value)]
  | setMany g entries => exact outcome_setMany hIntact g entries
  | delete g key => exact outcome_delete hIntact g key
  | deleteGroup g =>
      refine Outcome.of_atomic (atomic_deleteGroup g s) fun answer p hT => ?_
      rcases hT with ⟨hOk, rfl⟩ | hFailed
      · refine Or.inl ⟨_, hOk, ?_⟩
        split_ifs
        · exact Intact.save (fun _ h => h) s.1 (hIntact.allKeys.erase g)
        · exact hIntact
      · exact Or.inr hFailed
  | markPending g =>
      have hKeys : ∀ e ∈ [(pendingKey, "true")], KeyFile.isKey e.1 = true := by decide
      refine Outcome.of_atomic (atomic_markPending g s) fun answer p hT => ?_
      rcases hT with ⟨hOk, _, rfl⟩ | hFailed
      · refine Or.inl ⟨(), hOk, ?_⟩
        split_ifs
        · exact hIntact
        · exact hIntact.write g hKeys
      · exact Or.inr hFailed
  | clearPending g => exact outcome_delete hIntact g pendingKey
  | reload =>
      rw [run, hIntact.reload]
      exact .success .done hIntact

/-- Entries are refused for their keys, and for nothing else. -/
theorem setMany_refused_iff (g : GroupName) (entries : List (String × String))
    (s : Process × Faults) :
    (∃ kind input, ((setMany g entries).run s).1 = .error (.invalidValue kind input)) ↔
      ∃ e ∈ entries, KeyFile.isKey e.1 = false := by
  constructor
  · rintro ⟨kind, input, hRefused⟩
    by_contra hNone
    have hKeys : ∀ e ∈ entries, KeyFile.isKey e.1 = true := by
      intro e he
      cases hKey : KeyFile.isKey e.1 with
      | true => rfl
      | false => exact absurd ⟨e, he, hKey⟩ hNone
    rcases (atomic_setMany_of_isKey g hKeys s).2 with ⟨hOk, _⟩ | ⟨⟨reason, hError⟩, _⟩
    · simp [run, carryOut, hOk, Except.map] at hRefused
    · simp [run, carryOut, hError, Except.map] at hRefused
  · rintro ⟨e, he, hKey⟩
    cases hFind : entries.find? fun e => !KeyFile.isKey e.1 with
    | none =>
        have hContra := List.find?_eq_none.mp hFind e he
        simp [hKey] at hContra
    | some first =>
        refine ⟨"attribute key", first.1, ?_⟩
        rw [run, setMany_of_find hFind]
        rfl

/-- Entries that are not refused, and whose save does not fail, are all written. -/
theorem setMany_of_ok {g : GroupName} {entries : List (String × String)} {reply : StoreReply}
    (h : ((setMany g entries).run s).1 = .ok reply) :
    ((setMany g entries).run s).2.1 = s.1.save (s.1.book.write g entries) := by
  rcases (atomic_setMany g entries s).2 with ⟨⟨_, hWritten⟩, _⟩ | ⟨⟨e, hError⟩, _⟩
  · exact hWritten
  · simp [run, carryOut, hError, Except.map] at h

/-! ## Many operations -/

theorem intact_runAll (ops : List StoreOperation) (hIntact : s.1.Intact KeyFile.IsWritable) :
    (runAll ops s).1.Intact KeyFile.IsWritable := by
  induction ops generalizing s with
  | nil => exact hIntact
  | cons op ops ih => exact ih ((outcome_run op hIntact).intact hIntact)

/-- A store that was opened on a file keeps in step with it. After any operations, whichever saves
failed, the file reads as the book that the store holds. An operation that fails changes neither,
and entries are all written or else, exactly if one of their keys cannot stand in a file, all
refused. -/
theorem store_follows_file {d : Storage} {book : Book}
    (hFile : AccountFile.load d.file = .ok book) :
    ∃ p, d.start = .ok p ∧ p.book = book ∧ ∀ ops faults s, runAll ops (p, faults) = s →
      AccountFile.load s.1.file = .ok s.1.book ∧
      (∀ (op : StoreOperation) e, (op.run s).1 = .error e → (op.run s).2.1 = s.1) ∧
      ∀ g entries,
        ((∃ kind input, ((setMany g entries).run s).1 = .error (.invalidValue kind input)) ↔
          ∃ e ∈ entries, KeyFile.isKey e.1 = false) ∧
        ∀ reply, ((setMany g entries).run s).1 = .ok reply →
          ((setMany g entries).run s).2.1 = s.1.save (s.1.book.write g entries) := by
  have hStart := start_of_load hFile
  refine ⟨_, hStart, rfl, fun ops faults s hRun => ?_⟩
  have hIntact : s.1.Intact KeyFile.IsWritable :=
    hRun ▸ intact_runAll ops (s := (_, faults)) (intact_of_start hStart)
  refine ⟨hIntact.load_file, fun op e hError => ?_, fun g entries => ⟨?_, fun reply hOk => ?_⟩⟩
  · have hOutcome := outcome_run op hIntact
    cases hAfter : op.run s with
    | mk answer s' =>
        rw [hAfter] at hOutcome hError
        cases hOutcome with
        | success reply _ => contradiction
        | failure e faults => rfl
  · exact setMany_refused_iff g entries s
  · exact setMany_of_ok hOk

/-- A file that was written by hand, with a key that the store itself refuses. -/
def foundStorage : Storage := ⟨some (.text "[keeper/health/check0]\na\rb=1\n"), ∅⟩

/-- A write fails, and the next one saves the key of the file with its own. -/
theorem store_follows_found_file :
    ∃ p s, foundStorage.start = .ok p ∧
      runAll [.set checkGroup "c" "2", .set checkGroup "c" "3"] (p, ⟨[some "disk full"], []⟩) = s ∧
      s.1.book = Book.write ∅ checkGroup [("a\rb", "1"), ("c", "3")] ∧
      AccountFile.load s.1.file = .ok s.1.book ∧
      ∃ kind input,
        ((setMany checkGroup [("a\rb", "2")]).run s).1 = .error (.invalidValue kind input) := by
  have hFile : AccountFile.load foundStorage.file =
      .ok (Book.write ∅ checkGroup [("a\rb", "1")]) := by decide +kernel
  obtain ⟨p, hStart, hBook, hAll⟩ := store_follows_file hFile
  obtain ⟨hLoad, _, hSetMany⟩ :=
    hAll [.set checkGroup "c" "2", .set checkGroup "c" "3"] ⟨[some "disk full"], []⟩ _ rfl
  refine ⟨p, _, hStart, rfl, ?_, hLoad, ?_⟩
  · obtain rfl := Except.ok.inj (hStart.symm.trans (start_of_load hFile))
    decide +kernel
  · apply (hSetMany checkGroup [("a\rb", "2")]).1.mpr
    exact ⟨_, List.mem_singleton_self _, by decide⟩

end StoreOperation
end Accounts
