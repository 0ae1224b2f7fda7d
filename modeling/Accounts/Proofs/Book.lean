import Mathlib.Tactic.SplitIfs
import Accounts.Book

/-! What the operations on books do to the values in them, and properties of keys that the
operations keep. -/
namespace Accounts.Book

variable {book : Book} {g : GroupName} {P : String → Prop}

@[simp] theorem attributes_write_self (book : Book) (g : GroupName)
    (entries : List (String × String)) :
    (book.write g entries).attributes g = (book.attributes g).insertMany entries := by
  simp [write, attributes]

theorem get?_write (book : Book) (g g' : GroupName) (entries : List (String × String)) :
    (book.write g entries).get? g' =
      if g = g' then some ((book.attributes g).insertMany entries) else book.get? g' :=
  SortedMap.get?_insert ..

@[simp] theorem get?_attributes (book : Book) (g : GroupName) (key : String) :
    (book.attributes g).get? key = book.value? g key := by
  unfold attributes value?
  cases book.get? g with
  | none => rfl
  | some a => rfl

theorem value?_write (book : Book) (g g' : GroupName) (entries : List (String × String))
    (key : String) :
    (book.write g entries).value? g' key =
      if g = g' then ((book.attributes g).insertMany entries).get? key else book.value? g' key := by
  rw [value?, get?_write]
  split_ifs
  · rfl
  · rfl

theorem contains_write (book : Book) (g g' : GroupName) (entries : List (String × String)) :
    (book.write g entries).contains g' = if g = g' then true else book.contains g' := by
  rw [SortedMap.contains, get?_write]
  split_ifs
  · rfl
  · rfl

theorem value?_erase (book : Book) (g g' : GroupName) (key : String) :
    value? (book.erase g) g' key = if g = g' then none else book.value? g' key := by
  rw [value?, SortedMap.get?_erase]
  split_ifs
  · rfl
  · rfl

/-- A group that is not there has no values. -/
theorem value?_eq_none_of_not_contains {book : Book} {g : GroupName} (h : book.contains g = false)
    (key : String) : book.value? g key = none := by
  have hNone : book.get? g = none := by simpa [SortedMap.contains] using h
  rw [value?, hNone]
  rfl

theorem write_nil {book : Book} {g : GroupName} (h : book.contains g = true) :
    book.write g [] = book := by
  obtain ⟨a, ha⟩ := Option.isSome_iff_exists.mp h
  apply SortedMap.ext_get?
  intro g'
  rw [get?_write, attributes, ha]
  split_ifs with hEq
  · rw [← hEq, ha]
    rfl
  · rfl

theorem erase_write (book : Book) (g : GroupName) (entries : List (String × String)) :
    SortedMap.erase (book.write g entries) g = SortedMap.erase book g := by
  apply SortedMap.ext_get?
  intro g'
  rw [SortedMap.get?_erase, SortedMap.get?_erase, get?_write]
  split_ifs
  · rfl
  · rfl

/-- Two writes to one group are one write of everything. -/
theorem write_write (book : Book) (g : GroupName) (first second : List (String × String)) :
    (book.write g first).write g second = book.write g (first ++ second) := by
  rw [write, attributes_write_self, ← SortedMap.insertMany_append]
  simp [write]

/-- Writing everything that a new group is to have puts the group into the book. -/
theorem write_toList (book : Book) {g : GroupName} (h : book.get? g = none) (a : Attributes) :
    book.write g a.toList = book.insert g a := by
  simp only [write, attributes, h, Option.getD_none]
  congr 1
  exact SortedMap.ofList_toList a

/-- More can be written to the new group at once. -/
theorem write_toList_write {book : Book} {g : GroupName} (h : book.get? g = none) (a : Attributes)
    (entries : List (String × String)) :
    (book.write g a.toList).write g entries = book.insert g (a.insertMany entries) := by
  rw [write_toList book h]
  simp [write, attributes]

@[simp] theorem value?_insert_self (book : Book) (g : GroupName) (a : Attributes) (key : String) :
    value? (book.insert g a) g key = a.get? key := by
  simp [value?]

theorem get?_eraseKey (book : Book) (g g' : GroupName) (key : String) :
    (book.eraseKey g key).get? g' =
      if g = g' then (book.get? g).bind fun a =>
        if (a.erase key).isEmpty then none else some (a.erase key)
      else book.get? g' := by
  unfold eraseKey
  cases hGet : book.get? g with
  | none =>
      by_cases hEq : g = g'
      · subst hEq
        simp [hGet]
      · simp [hEq]
  | some a =>
      by_cases hEmpty : (a.erase key).isEmpty = true
      · simp [hEmpty]
      · simp [hEmpty]

/-- A group that keeps another attribute keeps its place. -/
theorem get?_eraseKey_of_ne {book : Book} {g : GroupName} {a : Attributes} {key key' value : String}
    (hGroup : book.get? g = some a) (hOther : a.get? key' = some value) (hNe : key ≠ key') :
    (book.eraseKey g key).get? g = some (a.erase key) := by
  have hLeft : (a.erase key).get? key' = some value := by
    rw [SortedMap.get?_erase, if_neg hNe, hOther]
  have hNonempty : (a.erase key).isEmpty = false := by
    cases hEmpty : (a.erase key).isEmpty with
    | false => rfl
    | true =>
        rw [SortedMap.isEmpty, List.isEmpty_iff] at hEmpty
        rw [← SortedMap.mem_toList_iff, hEmpty] at hLeft
        contradiction
  rw [get?_eraseKey, if_pos rfl, hGroup, Option.bind_some, hNonempty]
  rfl

/-- What is left after an attribute went was there before, and was not that attribute. -/
theorem value?_of_eraseKey {book : Book} {g g' : GroupName} {key key' value : String}
    (h : (book.eraseKey g key).value? g' key' = some value) :
    book.value? g' key' = some value ∧ ¬(g' = g ∧ key' = key) := by
  unfold value? at h ⊢
  rw [get?_eraseKey] at h
  obtain ⟨rest, hRest, hValue⟩ := Option.bind_eq_some_iff.mp h
  split_ifs at hRest with hEq
  · subst hEq
    obtain ⟨a, ha, hErase⟩ := Option.bind_eq_some_iff.mp hRest
    split_ifs at hErase
    obtain rfl := Option.some.inj hErase
    rw [SortedMap.get?_erase] at hValue
    split_ifs at hValue with hKey
    exact ⟨by simpa [ha] using hValue, fun hBoth => hKey hBoth.2.symm⟩
  · exact ⟨by simpa [hRest] using hValue, fun hBoth => hEq hBoth.1.symm⟩

theorem value?_eraseKey (book : Book) (g g' : GroupName) (key key' : String) :
    (book.eraseKey g key).value? g' key' =
      if g = g' ∧ key = key' then none else book.value? g' key' := by
  rw [value?, get?_eraseKey]
  by_cases hGroup : g = g'
  · subst hGroup
    rw [if_pos rfl]
    cases hGet : book.get? g with
    | none => simp [value?, hGet]
    | some a =>
        have hErase : (if (a.erase key).isEmpty then none else some (a.erase key)).bind
            (·.get? key') = (a.erase key).get? key' := by
          split_ifs with hEmpty
          · rw [SortedMap.isEmpty, List.isEmpty_iff] at hEmpty
            rw [SortedMap.get?, hEmpty]
            rfl
          · rfl
        rw [Option.bind_some, hErase, SortedMap.get?_erase, value?, hGet]
        simp
  · simp [hGroup, value?]

/-- A group that keeps another attribute stays where it is. -/
theorem contains_eraseKey {book : Book} {g : GroupName} {key key' value : String}
    (hOther : book.value? g key' = some value) (hNe : key ≠ key') (g' : GroupName) :
    (book.eraseKey g key).contains g' = book.contains g' := by
  by_cases hGroup : g = g'
  · subst hGroup
    obtain ⟨a, ha, hGet⟩ := Option.bind_eq_some_iff.mp hOther
    rw [SortedMap.contains, get?_eraseKey_of_ne ha hGet hNe, SortedMap.contains, ha]
    rfl
  · rw [SortedMap.contains, get?_eraseKey, if_neg hGroup, SortedMap.contains]

/-! ## Live and pending groups -/

theorem isLive_eq_true_iff {book : Book} {g : GroupName} :
    book.isLive g = true ↔ ∃ a, book.get? g = some a ∧ a.isPending = false := by
  simp [isLive, Option.any_eq_true]

theorem isLive_eq (book : Book) (g : GroupName) :
    book.isLive g = (book.contains g && !book.isPending g) := by
  rw [isLive, isPending, SortedMap.contains]
  cases book.get? g with
  | none => rfl
  | some a => rfl

theorem isPending_eq_true_iff {book : Book} {g : GroupName} :
    book.isPending g = true ↔ ∃ a, book.get? g = some a ∧ a.isPending = true := by
  simp [isPending, Option.any_eq_true]

theorem isPending_eq_isSome (book : Book) (g : GroupName) :
    book.isPending g = (book.value? g pendingKey).isSome := by
  unfold isPending value?
  cases book.get? g with
  | none => rfl
  | some a => rfl

theorem isPending_eraseKey (book : Book) (g : GroupName) :
    (book.eraseKey g pendingKey).isPending g = false := by
  rw [isPending_eq_isSome]
  cases hMark : (book.eraseKey g pendingKey).value? g pendingKey with
  | none => rfl
  | some mark => exact absurd ⟨rfl, rfl⟩ (value?_of_eraseKey hMark).2

/-- Only writing the mark itself can make a group pending. -/
theorem isPending_write (book : Book) (g g' : GroupName) {key : String} (value : String)
    (h : key ≠ pendingKey) :
    (book.write g [(key, value)]).isPending g' = book.isPending g' := by
  rw [isPending_eq_isSome, isPending_eq_isSome, value?_write]
  split_ifs with hEq
  · subst hEq
    simp [h]
  · rfl

theorem isPending_write_pendingKey (book : Book) (g : GroupName) (value : String) :
    (book.write g [(pendingKey, value)]).isPending g = true := by
  rw [isPending_eq_isSome, value?_write, if_pos rfl]
  simp

/-- A write takes no mark away. -/
theorem isPending_write_of_isPending {book : Book} {g : GroupName} (h : book.isPending g = true)
    (g' : GroupName) (entries : List (String × String)) :
    (book.write g' entries).isPending g = true := by
  obtain ⟨a, ha, hMark⟩ := isPending_eq_true_iff.mp h
  rw [isPending_eq_true_iff]
  by_cases hGroup : g' = g
  · subst hGroup
    refine ⟨a.insertMany entries, by simp [get?_write, attributes, ha], ?_⟩
    rw [Attributes.isPending, SortedMap.contains_eq_isSome, Option.isSome_iff_exists,
      ← SortedMap.mem_keys_iff] at hMark ⊢
    exact SortedMap.mem_keys_insertMany.mpr (Or.inr hMark)
  · exact ⟨a, by rw [get?_write, if_neg hGroup, ha], hMark⟩

/-- Removing an attribute other than the mark neither hides nor shows a group. -/
theorem isPending_eraseKey_of_ne (book : Book) (g g' : GroupName) {key : String}
    (h : key ≠ pendingKey) : (book.eraseKey g key).isPending g' = book.isPending g' := by
  rw [isPending_eq_isSome, isPending_eq_isSome, value?_eraseKey, if_neg fun hBoth => h hBoth.2]

theorem mem_pendingGroups {book : Book} {g : GroupName} :
    g ∈ book.pendingGroups ↔ book.isPending g = true := by
  simp [pendingGroups, isPending_eq_true_iff, SortedMap.mem_toList_iff]

theorem mem_liveGroups {book : Book} {g : GroupName} :
    g ∈ book.liveGroups ↔ book.isLive g = true := by
  simp [liveGroups, isLive_eq_true_iff, SortedMap.mem_toList_iff]

theorem liveGroups_eq (book : Book) : book.liveGroups = book.keys.filter book.isLive := by
  rw [liveGroups, SortedMap.keys, List.filter_map]
  congr 1
  refine List.filter_congr fun e he => ?_
  rw [Function.comp_apply, isLive, SortedMap.mem_toList_iff.mp he, Option.any_some]

theorem pairwise_liveGroups (book : Book) :
    book.liveGroups.Pairwise fun g h => compare g h = .lt := by
  rw [liveGroups, List.pairwise_map]
  exact book.sorted.filter _

theorem pendingGroups_eq (book : Book) :
    book.pendingGroups = book.keys.filter book.isPending := by
  rw [pendingGroups, SortedMap.keys, List.filter_map]
  congr 1
  refine List.filter_congr fun e he => ?_
  rw [Function.comp_apply, isPending, SortedMap.mem_toList_iff.mp he, Option.any_some]

/-- Books with the same live groups list them alike. -/
theorem liveGroups_eq_of_isLive_eq {book other : Book}
    (h : ∀ g, book.isLive g = other.isLive g) : book.liveGroups = other.liveGroups := by
  have hThere : ∀ (b : Book) g,
      (SortedMap.filter b fun _ a => !a.isPending).contains g = b.isLive g := by
    intro b g
    rw [SortedMap.contains, SortedMap.get?_filter, Option.isSome_filter, isLive]
  change (SortedMap.filter book fun _ a => !a.isPending).keys =
    (SortedMap.filter other fun _ a => !a.isPending).keys
  apply SortedMap.keys_eq_of_contains_eq
  intro g
  rw [hThere, hThere, h]

/-- A group that is not live is pending or not there. -/
theorem get?_eq_none_of_isLive {book : Book} {g : GroupName} (hLive : book.isLive g = false)
    (hPending : book.isPending g = false) : book.get? g = none := by
  cases hGet : book.get? g with
  | none => rfl
  | some a =>
      simp only [isLive, isPending, hGet, Option.any_some] at hLive hPending
      simp [hPending] at hLive

theorem pendingGroups_eq_nil_iff {book : Book} :
    book.pendingGroups = [] ↔ ∀ g, book.isPending g = false := by
  simp [List.eq_nil_iff_forall_not_mem, mem_pendingGroups]

/-! ## Groups without attributes -/

/-- The group is there and has no attributes. -/
def IsBlank (book : Book) (g : GroupName) : Prop := book.get? g = some ∅

/-- A group that is there is blank, or it has some value. -/
theorem contains_iff :
    book.contains g = true ↔ book.IsBlank g ∨ ∃ key value, book.value? g key = some value := by
  constructor
  · intro hThere
    obtain ⟨a, ha⟩ := Option.isSome_iff_exists.mp hThere
    by_cases hNone : ∃ key value, a.get? key = some value
    · obtain ⟨key, value, hValue⟩ := hNone
      exact Or.inr ⟨key, value, by rw [value?, ha, Option.bind_some, hValue]⟩
    · left
      have hEmpty : a = ∅ := by
        apply SortedMap.ext_get?
        intro key
        cases hValue : a.get? key with
        | none => rfl
        | some value => exact absurd ⟨key, value, hValue⟩ hNone
      rw [IsBlank, ha, hEmpty]
  · rintro (hBlank | ⟨key, value, hValue⟩)
    · rw [SortedMap.contains, hBlank]
      rfl
    · obtain ⟨a, ha, _⟩ := Option.bind_eq_some_iff.mp hValue
      rw [SortedMap.contains, ha]
      rfl

/-- Books with the same values and the same blank groups are the same. -/
theorem ext_value? {other : Book} (hBlank : ∀ g, book.IsBlank g ↔ other.IsBlank g)
    (hValue : ∀ g key, book.value? g key = other.value? g key) : book = other := by
  have hThere : ∀ g, book.contains g = other.contains g := by
    intro g
    rw [Bool.eq_iff_iff, contains_iff, contains_iff, hBlank]
    simp only [hValue]
  apply SortedMap.ext_get?
  intro g
  have hSame := hThere g
  rw [SortedMap.contains, SortedMap.contains] at hSame
  cases ha : book.get? g with
  | none =>
      rw [ha] at hSame
      exact (Option.isNone_iff_eq_none.mp (by simpa using hSame.symm)).symm
  | some a =>
      rw [ha] at hSame
      obtain ⟨a', ha'⟩ := Option.isSome_iff_exists.mp hSame.symm
      rw [ha', Option.some.injEq]
      apply SortedMap.ext_get?
      intro key
      have hKey := hValue g key
      rwa [value?, value?, ha, ha'] at hKey

/-- Removing an attribute leaves no group without attributes that was not without them before. -/
theorem isBlank_eraseKey {key value : String} (hValue : book.value? g key = some value)
    (g' : GroupName) : (book.eraseKey g key).IsBlank g' ↔ book.IsBlank g' := by
  unfold IsBlank
  rw [get?_eraseKey]
  split_ifs with hGroup
  · subst hGroup
    obtain ⟨a, ha, hGet⟩ := Option.bind_eq_some_iff.mp hValue
    rw [ha, Option.bind_some]
    have hBefore : a ≠ ∅ := by
      rintro rfl
      contradiction
    split_ifs with hRest
    · simpa using hBefore
    · have hAfter : SortedMap.erase a key ≠ ∅ := by
        intro hEmpty
        rw [hEmpty] at hRest
        exact hRest rfl
      simp [hBefore, hAfter]
  · rfl

theorem not_isBlank_of_value? {key value : String} (hValue : book.value? g key = some value) :
    ¬book.IsBlank g := by
  obtain ⟨a, ha, hGet⟩ := Option.bind_eq_some_iff.mp hValue
  rw [IsBlank, ha]
  intro hBlank
  rw [Option.some.inj hBlank] at hGet
  contradiction

theorem attributes_eq_empty_iff :
    book.attributes g = ∅ ↔ book.contains g = false ∨ book.IsBlank g := by
  unfold attributes IsBlank SortedMap.contains
  cases book.get? g with
  | none => simp
  | some a => simp

/-- A write leaves its group without attributes only if it writes none to a group that had none. -/
theorem isBlank_write (book : Book) (g g' : GroupName) (entries : List (String × String)) :
    (book.write g entries).IsBlank g' ↔
      if g = g' then entries = [] ∧ (book.contains g = false ∨ book.IsBlank g)
      else book.IsBlank g' := by
  rw [IsBlank, get?_write]
  split_ifs
  · rw [Option.some.injEq, SortedMap.insertMany_eq_empty_iff, attributes_eq_empty_iff]
  · rfl

theorem isBlank_erase (book : Book) (g g' : GroupName) :
    IsBlank (SortedMap.erase book g) g' ↔ g ≠ g' ∧ book.IsBlank g' := by
  rw [IsBlank, SortedMap.get?_erase]
  split_ifs with hGroup
  · simp [hGroup]
  · simp [hGroup, IsBlank]

/-! ## Properties of all keys -/

/-- Every key of every group has the property. -/
def AllKeys (P : String → Prop) (book : Book) : Prop :=
  ∀ g a, book.get? g = some a → ∀ key ∈ a.keys, P key

theorem AllKeys.mono {Q : String → Prop} (h : book.AllKeys P) (hImp : ∀ key, P key → Q key) :
    book.AllKeys Q :=
  fun g a ha key hk => hImp key (h g a ha key hk)

/-- It is enough to look at keys with a value. -/
theorem allKeys_iff : book.AllKeys P ↔ ∀ g key value, book.value? g key = some value → P key := by
  constructor
  · intro h g key value hValue
    obtain ⟨a, ha, hGet⟩ := Option.bind_eq_some_iff.mp hValue
    exact h g a ha key (SortedMap.mem_keys_iff.mpr ⟨value, hGet⟩)
  · intro h g a ha key hKey
    obtain ⟨value, hGet⟩ := SortedMap.mem_keys_iff.mp hKey
    exact h g key value (by simp [value?, ha, hGet])

theorem allKeys_empty : AllKeys P ∅ := by
  intro g a ha
  simp at ha

theorem AllKeys.attributes (h : book.AllKeys P) (g : GroupName) :
    ∀ key ∈ (book.attributes g).keys, P key := by
  unfold Book.attributes
  cases hGet : book.get? g with
  | none => simp
  | some a => exact h g a hGet

theorem AllKeys.write (h : book.AllKeys P) {entries : List (String × String)}
    (hEntries : ∀ e ∈ entries, P e.1) : (book.write g entries).AllKeys P := by
  intro g' a ha key hk
  rw [get?_write] at ha
  split_ifs at ha with hEq
  · obtain rfl := Option.some.inj ha
    rcases SortedMap.mem_keys_insertMany.mp hk with hNew | hOld
    · obtain ⟨e, he, rfl⟩ := List.mem_map.mp hNew
      exact hEntries e he
    · exact h.attributes g key hOld
  · exact h g' a ha key hk

/-- What a filter leaves had the property before. -/
theorem AllKeys.filter (h : book.AllKeys P) (p : GroupName → Attributes → Bool) :
    AllKeys P (SortedMap.filter book p) := by
  intro g a ha
  rw [SortedMap.get?_filter, Option.filter_eq_some_iff] at ha
  exact h g a ha.1

theorem AllKeys.erase (h : book.AllKeys P) (g : GroupName) :
    AllKeys P (SortedMap.erase book g) :=
  h.filter _

theorem AllKeys.eraseKey (h : book.AllKeys P) (g : GroupName) (key : String) :
    (book.eraseKey g key).AllKeys P := by
  intro g' a ha key' hk
  rw [get?_eraseKey] at ha
  split_ifs at ha with hEq
  · obtain ⟨b, hb, hRest⟩ := Option.bind_eq_some_iff.mp ha
    split_ifs at hRest
    obtain rfl := Option.some.inj hRest
    exact h g b hb key' (SortedMap.mem_keys_erase.mp hk).2
  · exact h g' a ha key' hk

end Accounts.Book
