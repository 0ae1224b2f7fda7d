import Mathlib.Data.List.Forall2
import Accounts.Proofs.Book

/-! Maps and books that differ only in values that are hidden. They hold the same keys, so nothing
that is made of keys and of other values tells them apart. -/
namespace Accounts

namespace SortedMap

variable {κ ν : Type} {hides : κ → Prop}

/-- Entries with one key, and with one value too unless that is hidden. -/
def Agree (hides : κ → Prop) (e e' : κ × ν) : Prop := e.1 = e'.1 ∧ (¬hides e.1 → e.2 = e'.2)

theorem agree_refl (e : κ × ν) : Agree hides e e := ⟨rfl, fun _ => rfl⟩

theorem forall₂_agree_refl (entries : List (κ × ν)) : List.Forall₂ (Agree hides) entries entries :=
  List.forall₂_same.mpr fun e _ => agree_refl e

theorem map_fst_eq_of_agree {entries entries' : List (κ × ν)}
    (h : List.Forall₂ (Agree hides) entries entries') :
    entries.map Prod.fst = entries'.map Prod.fst := by
  induction h with
  | nil => rfl
  | cons hHead _ ih => rw [List.map_cons, List.map_cons, hHead.1, ih]

variable [Ord κ]

/-- The maps hold the same keys, and the same values but for hidden ones. -/
structure Alike (hides : κ → Prop) (m m' : SortedMap κ ν) : Prop where
  contains_eq : ∀ k, m.contains k = m'.contains k
  get?_eq : ∀ k, ¬hides k → m.get? k = m'.get? k

namespace Alike

variable {m m' : SortedMap κ ν}

theorem refl (m : SortedMap κ ν) : Alike hides m m := ⟨fun _ => rfl, fun _ _ => rfl⟩

variable [Std.LawfulEqOrd κ] [DecidableEq κ]

theorem erase [Std.OrientedOrd κ] (h : Alike hides m m') (k : κ) :
    Alike hides (m.erase k) (m'.erase k) := by
  refine ⟨fun k' => ?_, fun k' hk => ?_⟩
  · rw [contains_eq_isSome, contains_eq_isSome, get?_erase, get?_erase]
    split_ifs
    · rfl
    · exact h.contains_eq k'
  · rw [get?_erase, get?_erase, h.get?_eq k' hk]

variable [Std.TransOrd κ]

theorem insert (h : Alike hides m m') (k : κ) (v v' : ν) (hv : ¬hides k → v = v') :
    Alike hides (m.insert k v) (m'.insert k v') := by
  refine ⟨fun k' => ?_, fun k' hk => ?_⟩
  · rw [contains_eq_isSome, contains_eq_isSome, get?_insert, get?_insert]
    split_ifs
    · rfl
    · exact h.contains_eq k'
  · rw [get?_insert, get?_insert]
    split_ifs with hEq
    · rw [hv (hEq ▸ hk)]
    · exact h.get?_eq k' hk

theorem insertMany (h : Alike hides m m') {entries entries' : List (κ × ν)}
    (hEntries : List.Forall₂ (Agree hides) entries entries') :
    Alike hides (m.insertMany entries) (m'.insertMany entries') := by
  induction hEntries generalizing m m' with
  | nil => exact h
  | @cons e e' _ _ hHead _ ih =>
      obtain ⟨hKey, hValue⟩ := hHead
      rw [insertMany_cons, insertMany_cons, ← hKey]
      exact ih (h.insert e.1 e.2 e'.2 hValue)

theorem ofList {entries entries' : List (κ × ν)}
    (hEntries : List.Forall₂ (Agree hides) entries entries') :
    Alike hides (ofList entries) (ofList entries') :=
  (refl _).insertMany hEntries

theorem keys_eq (h : Alike hides m m') : m.keys = m'.keys := keys_eq_of_contains_eq h.contains_eq

theorem isEmpty_eq (h : Alike hides m m') : m.isEmpty = m'.isEmpty := by
  have hEmpty : ∀ n : SortedMap κ ν, n.isEmpty = n.keys.isEmpty := fun n => by
    rw [isEmpty, keys, List.isEmpty_map]
  rw [hEmpty, hEmpty, h.keys_eq]

/-- Without what is hidden the maps are the same. -/
theorem filter_eq (h : Alike hides m m') (shown : κ → Bool)
    (hShown : ∀ k, shown k = true → ¬hides k) :
    (m.filter fun k _ => shown k) = m'.filter fun k _ => shown k := by
  apply ext_get?
  intro k
  rw [get?_filter, get?_filter]
  cases hk : shown k with
  | true => rw [h.get?_eq k (hShown k hk)]
  | false => simp

theorem eq_of_forall_not (h : Alike hides m m') (hPlain : ∀ k, ¬hides k) : m = m' :=
  ext_get? fun k => h.get?_eq k (hPlain k)

/-- The keys of which one can tell whether they are chosen are the same. -/
theorem keys_filter_eq (h : Alike hides m m') (chosen : κ → Bool) :
    (m.filter fun k _ => chosen k).keys = (m'.filter fun k _ => chosen k).keys := by
  have hKeys : ∀ n : SortedMap κ ν, (n.filter fun k _ => chosen k).keys = n.keys.filter chosen :=
    fun n => (List.filter_map (f := Prod.fst) (p := chosen)).symm
  rw [hKeys, hKeys, h.keys_eq]

end Alike
end SortedMap

namespace Book

variable {hides : String → Prop} {b b' : Book}

/-- The books hold the same groups, with attributes that differ only in hidden values. -/
def Alike (hides : String → Prop) (b b' : Book) : Prop :=
  ∀ g, Option.Rel (SortedMap.Alike hides) (b.get? g) (b'.get? g)

namespace Alike

theorem refl (b : Book) : b.Alike hides b := by
  intro g
  cases b.get? g with
  | none => exact .none
  | some a => exact .some (.refl a)

/-- A group is in neither book, or in both. -/
theorem cases (h : b.Alike hides b') (g : GroupName) :
    (b.get? g = none ∧ b'.get? g = none) ∨
      ∃ a a', b.get? g = some a ∧ b'.get? g = some a' ∧ a.Alike hides a' := by
  have hGroup := h g
  generalize b.get? g = found at hGroup ⊢
  generalize b'.get? g = found' at hGroup ⊢
  cases hGroup with
  | none => exact .inl ⟨rfl, rfl⟩
  | some hAttributes => exact .inr ⟨_, _, rfl, rfl, hAttributes⟩

theorem contains_eq (h : b.Alike hides b') (g : GroupName) : b.contains g = b'.contains g := by
  rw [SortedMap.contains, SortedMap.contains]
  rcases h.cases g with ⟨hGet, hGet'⟩ | ⟨a, a', hGet, hGet', _⟩
  · rw [hGet, hGet']
  · rw [hGet, hGet']
    rfl

theorem attributes (h : b.Alike hides b') (g : GroupName) :
    (b.attributes g).Alike hides (b'.attributes g) := by
  rw [Book.attributes, Book.attributes]
  rcases h.cases g with ⟨hGet, hGet'⟩ | ⟨a, a', hGet, hGet', hAttributes⟩
  · rw [hGet, hGet']
    exact .refl ∅
  · rw [hGet, hGet']
    exact hAttributes

theorem eq_of_forall_not (h : b.Alike hides b') (hPlain : ∀ key, ¬hides key) : b = b' := by
  apply SortedMap.ext_get?
  intro g
  rcases h.cases g with ⟨hGet, hGet'⟩ | ⟨a, a', hGet, hGet', hAttributes⟩
  · rw [hGet, hGet']
  · rw [hGet, hGet', hAttributes.eq_of_forall_not hPlain]

/-! ## What changes keep -/

theorem write (h : b.Alike hides b') (g : GroupName) {entries entries' : List (String × String)}
    (hEntries : List.Forall₂ (SortedMap.Agree hides) entries entries') :
    (b.write g entries).Alike hides (b'.write g entries') := by
  intro g'
  rw [get?_write, get?_write]
  split_ifs
  · exact .some ((h.attributes g).insertMany hEntries)
  · exact h g'

theorem eraseKey (h : b.Alike hides b') (g : GroupName) (key : String) :
    (b.eraseKey g key).Alike hides (b'.eraseKey g key) := by
  intro g'
  rw [get?_eraseKey, get?_eraseKey]
  split_ifs
  · rcases h.cases g with ⟨hGet, hGet'⟩ | ⟨a, a', hGet, hGet', hAttributes⟩
    · rw [hGet, hGet']
      exact .none
    · rw [hGet, hGet', Option.bind_some, Option.bind_some, (hAttributes.erase key).isEmpty_eq]
      split_ifs
      · exact .none
      · exact .some (hAttributes.erase key)
  · exact h g'

theorem erase (h : b.Alike hides b') (g : GroupName) :
    Alike hides (SortedMap.erase b g) (SortedMap.erase b' g) := by
  intro g'
  rw [SortedMap.get?_erase, SortedMap.get?_erase]
  split_ifs
  · exact .none
  · exact h g'

/-! ## What cannot tell the books apart -/

theorem isSome_value?_eq (h : b.Alike hides b') (g : GroupName) (key : String) :
    (b.value? g key).isSome = (b'.value? g key).isSome := by
  rw [← get?_attributes, ← get?_attributes]
  exact (h.attributes g).contains_eq key

theorem value?_eq (h : b.Alike hides b') (g : GroupName) {key : String} (hKey : ¬hides key) :
    b.value? g key = b'.value? g key := by
  rw [← get?_attributes, ← get?_attributes]
  exact (h.attributes g).get?_eq key hKey

theorem isPending_eq (h : b.Alike hides b') (g : GroupName) : b.isPending g = b'.isPending g := by
  rw [isPending_eq_isSome, isPending_eq_isSome, h.isSome_value?_eq]

theorem isLive_eq (h : b.Alike hides b') (g : GroupName) : b.isLive g = b'.isLive g := by
  rw [isLive, isLive]
  rcases h.cases g with ⟨hGet, hGet'⟩ | ⟨a, a', hGet, hGet', hAttributes⟩
  · rw [hGet, hGet']
  · rw [hGet, hGet', Option.any_some, Option.any_some, Attributes.isPending, Attributes.isPending,
      hAttributes.contains_eq]

theorem keys_eq (h : b.Alike hides b') : b.keys = b'.keys :=
  SortedMap.keys_eq_of_contains_eq h.contains_eq

theorem liveGroups_eq (h : b.Alike hides b') : b.liveGroups = b'.liveGroups := by
  rw [Book.liveGroups_eq, Book.liveGroups_eq, h.keys_eq, funext h.isLive_eq]

theorem pendingGroups_eq (h : b.Alike hides b') : b.pendingGroups = b'.pendingGroups := by
  rw [Book.pendingGroups_eq, Book.pendingGroups_eq, h.keys_eq, funext h.isPending_eq]

end Alike
end Book
end Accounts
