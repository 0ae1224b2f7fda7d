import Accounts.Proofs.Atomic
import Accounts.Proofs.Book
import Accounts.Proofs.Registry.Entries
import Accounts.Proofs.Registry.Operation

/-! What opening a registry makes of the book and the secrets: all pending groups go, with the
secrets under them. Whatever an operation does within a group that does not show is undone by that,
so this value stays the same until the operation shows or hides its group. -/
namespace Accounts
namespace Process

variable {r : Registry} {g : GroupName} {p q : Process}

/-- Every entry for a secret belongs to a group in the book. -/
def Owned (r : Registry) (p : Process) : Prop :=
  ∀ g, p.book.get? g = none → ∀ e ∈ r.entries g, SortedMap.get? p.vault e = none

/-- The entries for secrets of pending groups. -/
def pendingEntries (r : Registry) (p : Process) : List Entry :=
  p.book.pendingGroups.flatMap r.entries

theorem mem_pendingEntries {e : Entry} :
    e ∈ p.pendingEntries r ↔ ∃ g, p.book.isPending g = true ∧ e ∈ r.entries g := by
  simp [pendingEntries, Book.mem_pendingGroups]

/-- The book and the vault without the pending groups and their secrets. -/
def settled (r : Registry) (p : Process) : Book × Vault :=
  (SortedMap.filter p.book fun _ a => !a.isPending,
    p.vault.without (p.pendingEntries r))

theorem get?_settled_fst (g : GroupName) :
    (p.settled r).1.get? g = (p.book.get? g).filter fun a => !a.isPending :=
  SortedMap.get?_filter ..

theorem get?_settled_snd (e : Entry) :
    SortedMap.get? (p.settled r).2 e =
      if e ∈ p.pendingEntries r then none else SortedMap.get? p.vault e :=
  Vault.get?_without ..

/-- Where no group is pending there is nothing to remove. -/
theorem settled_of_no_pending (h : p.book.pendingGroups = []) :
    p.settled r = (p.book, p.vault) := by
  refine Prod.ext ?_ ?_
  · apply SortedMap.ext_get?
    intro g
    rw [get?_settled_fst]
    cases hGet : p.book.get? g with
    | none => rfl
    | some a =>
        have hLive := Book.pendingGroups_eq_nil_iff.mp h g
        simp only [Book.isPending, hGet, Option.any_some] at hLive
        simp [Option.filter, hLive]
  · simp [settled, pendingEntries, h]

theorem isLive_eq_of_settled_eq (h : q.settled r = p.settled r) (g : GroupName) :
    q.book.isLive g = p.book.isLive g := by
  have hLive : ∀ x : Process, x.book.isLive g = ((x.settled r).1.get? g).isSome := by
    intro x
    rw [get?_settled_fst, Book.isLive]
    cases x.book.get? g with
    | none => rfl
    | some a => cases hPending : a.isPending <;> simp [Option.filter, hPending]
  rw [hLive q, hLive p, h]

/-! ## Processes that differ in one group only -/

/-- The processes have the same attributes and secrets in every other group. -/
structure SameOff (r : Registry) (g : GroupName) (p q : Process) : Prop where
  book : ∀ h, h ≠ g → q.book.get? h = p.book.get? h
  vault : ∀ e, e ∉ r.entries g → SortedMap.get? q.vault e = SortedMap.get? p.vault e

theorem SameOff.refl : SameOff r g p p := ⟨fun _ _ => rfl, fun _ _ => rfl⟩

theorem SameOff.trans {x : Process} (hFirst : SameOff r g p q) (hSecond : SameOff r g q x) :
    SameOff r g p x :=
  ⟨fun h hNe => (hSecond.book h hNe).trans (hFirst.book h hNe),
    fun e he => (hSecond.vault e he).trans (hFirst.vault e he)⟩

theorem SameOff.notify (h : SameOff r g p q) (event : Event) : SameOff r g p (q.notify event) :=
  ⟨h.book, h.vault⟩

/-- The group has the same attributes and the same secrets. -/
structure Untouched (r : Registry) (g : GroupName) (p q : Process) : Prop where
  book : q.book.get? g = p.book.get? g
  vault : ∀ e ∈ r.entries g, SortedMap.get? q.vault e = SortedMap.get? p.vault e

theorem Untouched.refl : Untouched r g p p := ⟨rfl, fun _ _ => rfl⟩

theorem Untouched.trans {x : Process} (hFirst : Untouched r g p q) (hSecond : Untouched r g q x) :
    Untouched r g p x :=
  ⟨hSecond.book.trans hFirst.book, fun e he => (hSecond.vault e he).trans (hFirst.vault e he)⟩

/-- No entry belongs to two groups. -/
theorem SameOff.untouched {h : GroupName} (hSame : SameOff r h p q) (hNe : h ≠ g) :
    Untouched r g p q :=
  ⟨hSame.book g hNe.symm, fun e he =>
    hSame.vault e fun he' => hNe (Registry.eq_of_mem_entries he' he)⟩

/-- What is outside the group comes to the same. -/
theorem SameOff.erase_book (h : SameOff r g p q) :
    SortedMap.erase q.book g = SortedMap.erase p.book g := by
  apply SortedMap.ext_get?
  intro g'
  rw [SortedMap.get?_erase, SortedMap.get?_erase]
  split_ifs with hEq
  · rfl
  · exact h.book g' (Ne.symm hEq)

theorem SameOff.vault_without (h : SameOff r g p q) :
    q.vault.without (r.entries g) = p.vault.without (r.entries g) := by
  apply SortedMap.ext_get?
  intro e
  rw [Vault.get?_without, Vault.get?_without]
  split_ifs with he
  · rfl
  · exact h.vault e he

theorem sameOff_write (p : Process) (g : GroupName) (entries : List (String × String)) :
    SameOff r g p (p.save (p.book.write g entries)) := by
  refine ⟨fun h hNe => ?_, fun _ _ => rfl⟩
  rw [save_book, Book.get?_write, if_neg (Ne.symm hNe)]

theorem sameOff_eraseKey (p : Process) (g : GroupName) (key : String) :
    SameOff r g p (p.save (p.book.eraseKey g key)) := by
  refine ⟨fun h hNe => ?_, fun _ _ => rfl⟩
  rw [save_book, Book.get?_eraseKey, if_neg (Ne.symm hNe)]

theorem sameOff_erase (p : Process) (g : GroupName) :
    SameOff r g p (p.save (p.book.erase g)) := by
  refine ⟨fun h hNe => ?_, fun _ _ => rfl⟩
  rw [save_book, SortedMap.get?_erase, if_neg (Ne.symm hNe)]

theorem sameOff_put {e : Entry} (he : e ∈ r.entries g) (p : Process) (value : String) :
    SameOff r g p (p.withVault (p.vault.put e value)) := by
  refine ⟨fun _ _ => rfl, fun e' he' => ?_⟩
  have hNe : e ≠ e' := fun hEq => he' (hEq ▸ he)
  simp [Vault.put, hNe]

theorem sameOff_remove {e : Entry} (he : e ∈ r.entries g) (p : Process) :
    SameOff r g p (p.withVault (p.vault.erase e)) := by
  refine ⟨fun _ _ => rfl, fun e' he' => ?_⟩
  have hNe : e ≠ e' := fun hEq => he' (hEq ▸ he)
  simp [hNe]

/-- Secrets stay owned if those of the group that changed are. -/
theorem Owned.of_sameOff (hOwned : p.Owned r) (hSame : SameOff r g p q)
    (hGroup : q.book.get? g = none → ∀ e ∈ r.entries g, SortedMap.get? q.vault e = none) :
    q.Owned r := by
  intro h hGone e he
  by_cases hEq : h = g
  · subst hEq
    exact hGroup hGone e he
  · have hOther := hSame.untouched (Ne.symm hEq)
    rw [hOther.vault e he]
    exact hOwned h (hOther.book ▸ hGone) e he

/-- A group that does not show before or after makes no difference to what is settled. -/
theorem settled_eq_of_sameOff (hSame : SameOff r g p q) (hOwned : p.Owned r)
    (hOwned' : q.Owned r) (hHidden : p.book.isLive g = false) (hHidden' : q.book.isLive g = false) :
    q.settled r = p.settled r := by
  have hNoAttributes : ∀ x : Process, x.book.isLive g = false →
      (x.book.get? g).filter (fun a => !a.isPending) = none := by
    intro x hx
    cases hGet : x.book.get? g with
    | none => rfl
    | some a =>
        simp only [Book.isLive, hGet, Option.any_some] at hx
        simp [Option.filter, hx]
  have hNoSecret : ∀ x : Process, x.book.isLive g = false → x.Owned r → ∀ e ∈ r.entries g,
      SortedMap.get? (x.settled r).2 e = none := by
    intro x hx hxOwned e he
    rw [get?_settled_snd]
    split_ifs with hPending
    · rfl
    · cases hGroup : x.book.isPending g with
      | true => exact absurd (mem_pendingEntries.mpr ⟨g, hGroup, he⟩) hPending
      | false => exact hxOwned g (Book.get?_eq_none_of_isLive hx hGroup) e he
  refine Prod.ext ?_ ?_
  · apply SortedMap.ext_get?
    intro h
    rw [get?_settled_fst, get?_settled_fst]
    by_cases hEq : h = g
    · rw [hEq, hNoAttributes p hHidden, hNoAttributes q hHidden']
    · rw [hSame.book h hEq]
  · apply SortedMap.ext_get?
    intro e
    by_cases he : e ∈ r.entries g
    · rw [hNoSecret p hHidden hOwned e he, hNoSecret q hHidden' hOwned' e he]
    · have hPending : e ∈ q.pendingEntries r ↔ e ∈ p.pendingEntries r := by
        rw [mem_pendingEntries, mem_pendingEntries]
        refine exists_congr fun h => and_congr_left fun he' => ?_
        have hEq : h ≠ g := fun hEq => he (hEq ▸ he')
        rw [Book.isPending, Book.isPending, hSame.book h hEq]
      rw [get?_settled_snd, get?_settled_snd, hSame.vault e he]
      simp only [hPending]

end Process
end Accounts
