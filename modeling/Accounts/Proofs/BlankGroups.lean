import Accounts.Proofs.Since
import Accounts.Proofs.Store

/-! Groups without attributes. In a store that was opened without a file one operation alone makes
them, and it is a write: writing no attributes to a group that is not there brings it into being. It
has none until one is written to it, or until it is removed. -/
namespace Accounts

/-- Whether an operation that succeeds leaves the group with an attribute, or removes it. -/
def StoreOperation.Settles (g : GroupName) : StoreOperation → Prop
  | .set h _ _ | .markPending h | .deleteGroup h => h = g
  | .setMany h entries => h = g ∧ entries ≠ []
  | .delete .. | .clearPending _ | .reload => False

/-- An operation that was carried out on a store. -/
structure Deed where
  /-- The book that the operation found. -/
  found : Book
  operation : StoreOperation
  succeeded : Bool

namespace Deed

/-- The deed brought the group into being, and wrote no attributes to it. -/
def Blanks (g : GroupName) (d : Deed) : Prop :=
  d.operation = .setMany g [] ∧ d.found.contains g = false ∧ d.succeeded = true

/-- The deed left the group with an attribute, or removed it. -/
def Settles (g : GroupName) (d : Deed) : Prop :=
  d.operation.Settles g ∧ d.succeeded = true

end Deed

namespace StoreOperation
open Process Registry

variable {α : Type} {s : Process × Faults}

/-- What an operation that succeeds makes of a book. -/
def effect (b : Book) : StoreOperation → Book
  | .set g key value => b.write g [(key, value)]
  | .setMany g entries => b.write g entries
  | .delete g key => if (b.value? g key).isSome then b.eraseKey g key else b
  | .deleteGroup g => if b.contains g then b.erase g else b
  | .markPending g => if b.isPending g then b else b.write g [(pendingKey, "true")]
  | .clearPending g => if (b.value? g pendingKey).isSome then b.eraseKey g pendingKey else b
  | .reload => b

/-- The operation as it was carried out. -/
def deed (op : StoreOperation) (s : Process × Faults) : Deed :=
  ⟨s.1.book, op, (op.run s).1.isOk⟩

/-- Operations in turn, as they were carried out. -/
def deeds : List StoreOperation → Process × Faults → List Deed
  | [], _ => []
  | op :: ops, s => op.deed s :: deeds ops (op.run s).2

/-! ## One operation -/

theorem book_of_atomic {reply : α → StoreReply} {a : Action α}
    {T : Except Error α → Process → Prop} {b : Book} (h : Atomic a s T)
    (hEnd : ∀ answer p, T answer p →
      (∃ x, answer = .ok x) ∧ p.book = b ∨ (∃ e, answer = .error e) ∧ p = s.1) :
    (carryOut reply a s).2.1.book = if (carryOut reply a s).1.isOk then b else s.1.book := by
  have hLast := hEnd _ _ h.2
  unfold carryOut
  rcases hLast with ⟨⟨x, hOk⟩, hBook⟩ | ⟨⟨e, hError⟩, hSame⟩
  · rw [hOk]
    exact hBook
  · rw [hError, hSame]
    rfl

theorem book_delete (g : GroupName) (key : String) (s : Process × Faults) :
    (carryOut (fun _ => .done) (Store.delete g key) s).2.1.book =
      if (carryOut (fun _ => .done) (Store.delete g key) s).1.isOk
      then effect s.1.book (.delete g key) else s.1.book := by
  refine book_of_atomic (atomic_delete g key s) fun answer p hT => ?_
  refine hT.imp_left fun ⟨hOk, hAfter⟩ => ⟨⟨_, hOk⟩, ?_⟩
  rw [hAfter, effect]
  split_ifs
  · rfl
  · rfl

theorem book_setMany (g : GroupName) (entries : List (String × String)) (s : Process × Faults) :
    (carryOut (fun _ => .done) (Store.setMany g entries) s).2.1.book =
      if (carryOut (fun _ => .done) (Store.setMany g entries) s).1.isOk
      then effect s.1.book (.setMany g entries) else s.1.book := by
  refine book_of_atomic (atomic_setMany g entries s) fun answer p hT => ?_
  refine hT.imp_left fun ⟨⟨hOk, hAfter⟩, _⟩ => ⟨⟨_, hOk⟩, ?_⟩
  rw [hAfter]
  rfl

/-- An operation has its effect on the book if it succeeds, and none if it fails. -/
theorem book_run (op : StoreOperation) (hIntact : s.1.Intact KeyFile.IsWritable) :
    (op.run s).2.1.book = if (op.run s).1.isOk then op.effect s.1.book else s.1.book := by
  cases op with
  | set g key value => exact book_setMany g [(key, value)] s
  | setMany g entries => exact book_setMany g entries s
  | delete g key => exact book_delete g key s
  | deleteGroup g =>
      refine book_of_atomic (atomic_deleteGroup g s) fun answer p hT => ?_
      refine hT.imp_left fun ⟨hOk, hAfter⟩ => ⟨⟨_, hOk⟩, ?_⟩
      rw [hAfter, effect]
      split_ifs
      · rfl
      · rfl
  | markPending g =>
      refine book_of_atomic (atomic_markPending g s) fun answer p hT => ?_
      refine hT.imp_left fun ⟨hOk, _, hAfter⟩ => ⟨⟨_, hOk⟩, ?_⟩
      rw [hAfter, effect]
      split_ifs
      · rfl
      · rfl
  | clearPending g => exact book_delete g pendingKey s
  | reload =>
      rw [run, hIntact.reload]
      rfl

/-! ## Which groups an operation leaves without attributes -/

theorem isBlank_effect_delete (b : Book) (g g' : GroupName) (key : String) :
    Book.IsBlank (effect b (.delete g key)) g' ↔ b.IsBlank g' := by
  rw [effect]
  split_ifs with hThere
  · obtain ⟨value, hValue⟩ := Option.isSome_iff_exists.mp hThere
    exact Book.isBlank_eraseKey hValue g'
  · rfl

theorem isBlank_effect_setMany (b : Book) (g g' : GroupName) (entries : List (String × String)) :
    Book.IsBlank (effect b (.setMany g entries)) g' ↔
      ((setMany g entries = .setMany g' [] ∧ b.contains g' = false) ∨
        b.IsBlank g' ∧ ¬(setMany g entries).Settles g') := by
  rw [effect, Book.isBlank_write, setMany.injEq, Settles]
  split_ifs with hGroup
  · subst hGroup
    by_cases hEntries : entries = []
    · simp [hEntries]
    · simp [hEntries]
  · simp [hGroup]

/-- A group without attributes is there after an operation if the operation made it so, or if it was
there before and the operation had nothing to do with it. -/
theorem isBlank_effect_iff (op : StoreOperation) (b : Book) (g : GroupName) :
    Book.IsBlank (op.effect b) g ↔
      (op = .setMany g [] ∧ b.contains g = false) ∨ b.IsBlank g ∧ ¬op.Settles g := by
  cases op with
  | set h key value =>
      refine (isBlank_effect_setMany b h g [(key, value)]).trans ?_
      simp [Settles]
  | setMany h entries => exact isBlank_effect_setMany b h g entries
  | delete h key => exact (isBlank_effect_delete b h g key).trans (by simp [Settles])
  | deleteGroup h =>
      rw [effect]
      split_ifs with hThere
      · simp [Book.isBlank_erase, Settles, and_comm]
      · have hOther : b.IsBlank g → h ≠ g := by
          rintro hBlank rfl
          exact hThere (Book.contains_iff.mpr (Or.inl hBlank))
        simpa [Settles] using hOther
  | markPending h =>
      rw [effect]
      split_ifs with hMarked
      · have hOther : b.IsBlank g → h ≠ g := by
          rintro hBlank rfl
          rw [Book.isPending_eq_isSome] at hMarked
          obtain ⟨mark, hMark⟩ := Option.isSome_iff_exists.mp hMarked
          exact Book.not_isBlank_of_value? hMark hBlank
        simpa [Settles] using hOther
      · refine (isBlank_effect_setMany b h g [(pendingKey, "true")]).trans ?_
        simp [Settles]
  | clearPending h => exact (isBlank_effect_delete b h g pendingKey).trans (by simp [Settles])
  | reload => simp [effect, Settles]

theorem isBlank_run_iff (op : StoreOperation) (hIntact : s.1.Intact KeyFile.IsWritable)
    (g : GroupName) : (op.run s).2.1.book.IsBlank g ↔
      (op.deed s).Blanks g ∨ s.1.book.IsBlank g ∧ ¬(op.deed s).Settles g := by
  rw [book_run op hIntact]
  split_ifs with hOk
  · simp [isBlank_effect_iff, Deed.Blanks, Deed.Settles, deed, hOk]
  · simp [Deed.Blanks, Deed.Settles, deed, hOk]

/-! ## Many operations -/

theorem runAll_append (first second : List StoreOperation) (s : Process × Faults) :
    runAll (first ++ second) s = runAll second (runAll first s) :=
  List.foldl_append

theorem deeds_append (first second : List StoreOperation) (s : Process × Faults) :
    deeds (first ++ second) s = deeds first s ++ deeds second (runAll first s) := by
  induction first generalizing s with
  | nil => rfl
  | cons op first ih => exact congrArg _ (ih (op.run s).2)

/-- Of the groups that a book without blank ones comes to hold, those are blank that were written
without attributes and left alone since. -/
theorem isBlank_runAll_iff (hIntact : s.1.Intact KeyFile.IsWritable)
    (hNone : ∀ g, ¬s.1.book.IsBlank g) (ops : List StoreOperation) (g : GroupName) :
    (runAll ops s).1.book.IsBlank g ↔ Since (Deed.Blanks g) (Deed.Settles g) (deeds ops s) := by
  induction ops using List.reverseRecOn with
  | nil => exact iff_of_false (hNone g) since_nil
  | append_singleton ops op ih =>
      rw [runAll_append, deeds_append]
      refine (isBlank_run_iff op (intact_runAll ops hIntact) g).trans ?_
      rw [ih]
      exact since_snoc.symm

/-- The deeds are those of the operations, each on what the ones before it left. -/
theorem mem_deeds_iff {ops : List StoreOperation} {d : Deed} :
    d ∈ deeds ops s ↔ ∃ before op after, ops = before ++ op :: after ∧ d = op.deed (runAll before s) := by
  constructor
  · intro hMem
    induction ops generalizing s with
    | nil => cases hMem
    | cons op ops ih =>
        rcases List.mem_cons.mp hMem with rfl | hRest
        · exact ⟨[], op, ops, rfl, rfl⟩
        · obtain ⟨before, op', after, rfl, hDeed⟩ := ih hRest
          exact ⟨op :: before, op', after, rfl, hDeed⟩
  · rintro ⟨before, op, after, rfl, rfl⟩
    rw [deeds_append]
    exact List.mem_append_right _ List.mem_cons_self

/-- Some group is blank after one of the operations exactly if one of them made a blank group. -/
theorem exists_isBlank_iff (hIntact : s.1.Intact KeyFile.IsWritable)
    (hNone : ∀ g, ¬s.1.book.IsBlank g) (ops : List StoreOperation) :
    (∃ before after g, ops = before ++ after ∧ (runAll before s).1.book.IsBlank g) ↔
      ∃ d ∈ deeds ops s, ∃ g, d.Blanks g := by
  constructor
  · rintro ⟨before, after, g, rfl, hBlank⟩
    obtain ⟨earlier, d, later, hSplit, hBlanks, _⟩ :=
      (isBlank_runAll_iff hIntact hNone before g).mp hBlank
    refine ⟨d, ?_, g, hBlanks⟩
    rw [deeds_append, hSplit]
    simp
  · rintro ⟨d, hMem, g, hBlanks⟩
    obtain ⟨before, op, after, rfl, rfl⟩ := mem_deeds_iff.mp hMem
    refine ⟨before ++ [op], after, g, by simp, ?_⟩
    rw [runAll_append]
    exact (isBlank_run_iff op (intact_runAll before hIntact) g).mpr (Or.inl hBlanks)

/-- A store that was opened without a file holds a group as long as the group has an attribute, and
beyond that as long as the group is left the way an empty write made it. So every group has an
attribute after each operation, unless one of the operations is an empty write to a group that is
not there. -/
theorem group_there_iff (vault : Vault) :
    ∃ p, Storage.start ⟨none, vault⟩ = .ok p ∧ ∀ ops faults,
      (∀ g, ((runAll ops (p, faults)).1.book.IsBlank g ↔
          Since (Deed.Blanks g) (Deed.Settles g) (deeds ops (p, faults))) ∧
        ((runAll ops (p, faults)).1.book.contains g = true ↔
          Since (Deed.Blanks g) (Deed.Settles g) (deeds ops (p, faults)) ∨
            ∃ key value, (runAll ops (p, faults)).1.book.value? g key = some value)) ∧
      ((∃ before after g, ops = before ++ after ∧ (runAll before (p, faults)).1.book.IsBlank g) ↔
        ∃ d ∈ deeds ops (p, faults), ∃ g, d.Blanks g) := by
  have hLoad : AccountFile.load none = .ok ∅ := rfl
  have hStart := start_of_load (d := ⟨none, vault⟩) hLoad
  have hNone : ∀ g, ¬Book.IsBlank ∅ g := fun g => by simp [Book.IsBlank]
  refine ⟨_, hStart, fun ops faults => ⟨fun g => ?_, ?_⟩⟩
  · have hBlank := isBlank_runAll_iff (s := (_, faults)) (intact_of_start hStart) hNone ops g
    exact ⟨hBlank, by rw [Book.contains_iff, hBlank]⟩
  · exact exists_isBlank_iff (s := (_, faults)) (intact_of_start hStart) hNone ops

/-- An empty write on unused storage makes a group that is listed and has no attributes. It is gone
once it was marked and shown again. -/
theorem group_without_attributes :
    ∃ p, Storage.unused.start = .ok p ∧
      (runAll [.setMany checkGroup []] (p, .none)).1.book.liveGroups = [checkGroup] ∧
      (runAll [.setMany checkGroup []] (p, .none)).1.book.IsBlank checkGroup ∧
      (runAll [.setMany checkGroup [], .markPending checkGroup, .clearPending checkGroup]
        (p, .none)).1.book.contains checkGroup = false := by
  refine ⟨{ Storage.unused with book := ∅, events := [] }, rfl, ?_, ?_, ?_⟩
  · decide +kernel
  · unfold Book.IsBlank
    decide +kernel
  · decide +kernel

end StoreOperation
end Accounts
