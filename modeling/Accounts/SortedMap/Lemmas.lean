import Accounts.SortedMap.Basic

/-! What each operation does to the view `get?`, and that this view determines the map. -/
namespace Accounts.SortedMap

variable {κ ν μ : Type} [Ord κ]

@[simp] theorem get?_empty (k : κ) : (∅ : SortedMap κ ν).get? k = none := rfl

@[simp] theorem toList_empty : (∅ : SortedMap κ ν).toList = [] := rfl

@[simp] theorem keys_empty : (∅ : SortedMap κ ν).keys = [] := rfl

theorem contains_eq_isSome (m : SortedMap κ ν) (k : κ) : m.contains k = (m.get? k).isSome := rfl

private theorem compare_key_self [Std.OrientedOrd κ] (k : κ) : compare k k = .eq :=
  Std.ReflOrd.compare_self

private theorem distinct [Std.OrientedOrd κ] (m : SortedMap κ ν) :
    m.toList.Pairwise fun a b => a.1 ≠ b.1 :=
  m.sorted.imp fun {a b} h hEq => by
    rw [hEq, compare_key_self] at h
    cases h

@[simp] theorem keys_map (m : SortedMap κ ν) (f : κ → ν → μ) : (m.map f).keys = m.keys := by
  rw [keys, map, List.map_map]
  rfl

@[simp] theorem length_keys (m : SortedMap κ ν) : m.keys.length = m.size := List.length_map _

theorem nodup_keys [Std.OrientedOrd κ] (m : SortedMap κ ν) : m.keys.Nodup :=
  List.pairwise_map.mpr m.distinct

section
variable [Std.LawfulEqOrd κ] [DecidableEq κ]

private theorem lookup_cons (k k' : κ) (v : ν) (rest : List (κ × ν)) :
    lookup k ((k', v) :: rest) = if k = k' then some v else lookup k rest := by
  simp [lookup]

private theorem mem_of_lookup {k : κ} {v : ν} {l : List (κ × ν)} (h : lookup k l = some v) :
    (k, v) ∈ l := by
  induction l with
  | nil => simp [lookup] at h
  | cons head rest ih =>
    obtain ⟨k', v'⟩ := head
    rw [lookup_cons] at h
    split at h
    · simp_all
    · exact List.mem_cons_of_mem _ (ih h)

private theorem lookup_filter (p : κ → ν → Bool) (k : κ) (l : List (κ × ν))
    (hDistinct : l.Pairwise fun a b => a.1 ≠ b.1) :
    lookup k (l.filter fun e => p e.1 e.2) = (lookup k l).filter (p k) := by
  induction l with
  | nil => rfl
  | cons head rest ih =>
    obtain ⟨k', v'⟩ := head
    rw [List.pairwise_cons] at hDistinct
    have none_of_eq : k = k' → lookup k rest = none := by
      rintro rfl
      cases hLookup : lookup k rest with
      | none => rfl
      | some w => exact absurd rfl (hDistinct.1 (k, w) (mem_of_lookup hLookup))
    by_cases hKey : k = k'
    · subst hKey
      by_cases hKept : p k v'
      · simp [hKept, lookup_cons, Option.filter]
      · simp [hKept, lookup_cons, ih hDistinct.2, none_of_eq rfl, Option.filter]
    · by_cases hKept : p k' v' <;> simp [hKept, lookup_cons, hKey, ih hDistinct.2]

/-- Where no key occurs twice, looking up a key finds the entry that is there. -/
theorem lookup_eq_some_iff {k : κ} {v : ν} {l : List (κ × ν)} (hNodup : (l.map Prod.fst).Nodup) :
    lookup k l = some v ↔ (k, v) ∈ l := by
  refine ⟨mem_of_lookup, fun hMem => ?_⟩
  induction l with
  | nil => cases hMem
  | cons head rest ih =>
    obtain ⟨k', v'⟩ := head
    rw [List.map_cons, List.nodup_cons] at hNodup
    rcases List.mem_cons.1 hMem with hEq | hMem
    · cases hEq
      simp [lookup_cons]
    · have hNe : k ≠ k' := fun e => hNodup.1 (List.mem_map.mpr ⟨(k, v), hMem, e⟩)
      simp [lookup_cons, hNe, ih hNodup.2 hMem]

/-- The entries of a map are its keys with their values. -/
theorem mem_toList_iff [Std.OrientedOrd κ] {m : SortedMap κ ν} {k : κ} {v : ν} :
    (k, v) ∈ m.toList ↔ m.get? k = some v :=
  (lookup_eq_some_iff m.nodup_keys).symm

theorem get?_filter [Std.OrientedOrd κ] (m : SortedMap κ ν) (p : κ → ν → Bool) (k : κ) :
    (m.filter p).get? k = (m.get? k).filter (p k) :=
  lookup_filter p k _ m.distinct

@[simp] theorem get?_erase [Std.OrientedOrd κ] (m : SortedMap κ ν) (k k' : κ) :
    (m.erase k).get? k' = if k = k' then none else m.get? k' := by
  rw [erase, get?_filter]
  by_cases h : k = k'
  · subst h
    cases m.get? k <;> simp [Option.filter]
  · cases hGet : m.get? k' <;> simp [Option.filter, h]

@[simp] theorem get?_map (m : SortedMap κ ν) (f : κ → ν → μ) (k : κ) :
    (m.map f).get? k = (m.get? k).map (f k) := by
  change lookup k (m.toList.map fun e => (e.1, f e.1 e.2)) = (lookup k m.toList).map (f k)
  generalize m.toList = l
  induction l with
  | nil => rfl
  | cons head rest ih =>
    obtain ⟨k', v⟩ := head
    rw [List.map_cons, lookup_cons, lookup_cons, ih]
    by_cases h : k = k'
    · subst h; simp
    · simp [h]

variable [Std.TransOrd κ]

@[simp] theorem get?_insert (m : SortedMap κ ν) (k k' : κ) (v : ν) :
    (m.insert k v).get? k' = if k = k' then some v else m.get? k' := by
  have key : ∀ l : List (κ × ν),
      lookup k' (place k v l) = if k = k' then some v else lookup k' l := by
    intro l
    induction l with
    | nil => simp [place, lookup_cons, eq_comm, lookup]
    | cons head rest ih =>
      obtain ⟨k'', v'⟩ := head
      simp only [place]
      split
      case h_1 => simp [lookup_cons, eq_comm]
      case h_2 hEq =>
        obtain rfl := Std.LawfulEqOrd.eq_of_compare hEq
        by_cases h : k = k' <;> simp [lookup_cons, h, eq_comm]
      case h_3 hGt =>
        have hNe : k ≠ k'' := by
          rintro rfl
          rw [compare_key_self] at hGt
          cases hGt
        by_cases h : k = k'
        · subst h; simp [lookup_cons, hNe, ih]
        · simp [lookup_cons, h, ih]
  exact key m.toList

theorem get?_insert_self (m : SortedMap κ ν) (k : κ) (v : ν) : (m.insert k v).get? k = some v := by
  rw [get?_insert, if_pos rfl]

/-- Maps with the same value at every key are the same map. -/
@[ext] theorem ext_get? {m n : SortedMap κ ν} (h : ∀ k, m.get? k = n.get? k) : m = n := by
  have hMem : ∀ e, e ∈ m.toList ↔ e ∈ n.toList := fun e => by
    rw [mem_toList_iff, mem_toList_iff, h]
  have key : ∀ l l' : List (κ × ν), (l.Pairwise fun a b => compare a.1 b.1 = .lt) →
      (l'.Pairwise fun a b => compare a.1 b.1 = .lt) → (∀ e, e ∈ l ↔ e ∈ l') → l = l' := by
    intro l
    induction l with
    | nil =>
      intro l' _ _ hSame
      cases l' with
      | nil => rfl
      | cons e _ => exact absurd ((hSame e).2 (by simp)) (by simp)
    | cons a l ih =>
      intro l' hSorted hSorted' hSame
      cases l' with
      | nil => exact absurd ((hSame a).1 (by simp)) (by simp)
      | cons b l' =>
        rw [List.pairwise_cons] at hSorted hSorted'
        have irrefl : ∀ x : κ, compare x x ≠ .lt := fun x => by
          rw [compare_key_self]; decide
        have hHead : a = b := by
          rcases List.mem_cons.1 ((hSame a).1 (by simp)) with hLeft | hLeft
          · exact hLeft
          · rcases List.mem_cons.1 ((hSame b).2 (by simp)) with hRight | hRight
            · exact hRight.symm
            · exact absurd (Std.TransCmp.lt_trans (hSorted'.1 a hLeft) (hSorted.1 b hRight)) (irrefl _)
        subst hHead
        refine congrArg _ (ih l' hSorted.2 hSorted'.2 fun e => ⟨fun he => ?_, fun he => ?_⟩)
        · rcases List.mem_cons.1 ((hSame e).1 (List.mem_cons_of_mem _ he)) with rfl | hLeft
          · exact absurd (hSorted.1 e he) (irrefl _)
          · exact hLeft
        · rcases List.mem_cons.1 ((hSame e).2 (List.mem_cons_of_mem _ he)) with rfl | hLeft
          · exact absurd (hSorted'.1 e he) (irrefl _)
          · exact hLeft
  obtain ⟨l, hList⟩ := m
  obtain ⟨l', hList'⟩ := n
  congr
  exact key l l' hList hList' hMem

theorem erase_eq_self {m : SortedMap κ ν} {k : κ} (h : m.get? k = none) : m.erase k = m := by
  ext1 k'
  by_cases hEq : k = k'
  · subst hEq
    simp [h]
  · simp [hEq]

@[simp] theorem insert_insert (m : SortedMap κ ν) (k : κ) (v w : ν) :
    (m.insert k v).insert k w = m.insert k w := by
  ext1 k'
  by_cases h : k = k' <;> simp [h]

end

section
variable [Std.LawfulEqOrd κ] [Std.TransOrd κ]

@[simp] theorem insertMany_nil (m : SortedMap κ ν) : m.insertMany [] = m := rfl

@[simp] theorem insertMany_cons (m : SortedMap κ ν) (e : κ × ν) (entries : List (κ × ν)) :
    m.insertMany (e :: entries) = (m.insert e.1 e.2).insertMany entries := rfl

theorem insertMany_append (m : SortedMap κ ν) (first second : List (κ × ν)) :
    m.insertMany (first ++ second) = (m.insertMany first).insertMany second :=
  List.foldl_append

end

section
variable [Std.LawfulEqOrd κ]

private theorem lookup_eq_none {k : κ} {l : List (κ × ν)} (h : k ∉ l.map Prod.fst) :
    lookup k l = none := by
  induction l with
  | nil => rfl
  | cons e l ih =>
      simp only [List.map_cons, List.mem_cons, not_or] at h
      simp [lookup, h.1, ih h.2]

variable [Std.TransOrd κ] [DecidableEq κ]

theorem mem_keys_iff {m : SortedMap κ ν} {k : κ} : k ∈ m.keys ↔ ∃ v, m.get? k = some v := by
  simp only [keys, List.mem_map, Prod.exists, mem_toList_iff, exists_and_right, exists_eq_right]

theorem mem_keys_insert {m : SortedMap κ ν} {k k' : κ} {v : ν} :
    k' ∈ (m.insert k v).keys ↔ k' = k ∨ k' ∈ m.keys := by
  simp only [mem_keys_iff, get?_insert]
  by_cases h : k = k'
  · simp [h]
  · simp [h, Ne.symm h]

theorem mem_keys_erase {m : SortedMap κ ν} {k k' : κ} :
    k' ∈ (m.erase k).keys ↔ k' ≠ k ∧ k' ∈ m.keys := by
  simp only [mem_keys_iff, get?_erase]
  by_cases h : k = k'
  · simp [h]
  · simp [h, Ne.symm h]

theorem mem_keys_insertMany {m : SortedMap κ ν} {entries : List (κ × ν)} {k : κ} :
    k ∈ (m.insertMany entries).keys ↔ k ∈ entries.map Prod.fst ∨ k ∈ m.keys := by
  induction entries generalizing m with
  | nil => simp
  | cons e entries ih =>
      rw [insertMany_cons, ih, mem_keys_insert, List.map_cons, List.mem_cons, or_assoc, or_left_comm]

/-- Only nothing, put on top of nothing, makes nothing. -/
theorem insertMany_eq_empty_iff {m : SortedMap κ ν} {entries : List (κ × ν)} :
    m.insertMany entries = ∅ ↔ entries = [] ∧ m = ∅ := by
  constructor
  · intro hEmpty
    have hNone : ∀ k, ¬(k ∈ entries.map Prod.fst ∨ k ∈ m.keys) := by
      intro k hKey
      have hThere := mem_keys_insertMany.mpr hKey
      rw [hEmpty] at hThere
      contradiction
    refine ⟨List.eq_nil_iff_forall_not_mem.mpr fun e he => ?_, ext_get? fun k => ?_⟩
    · exact hNone e.1 (Or.inl (List.mem_map_of_mem he))
    · cases hGet : m.get? k with
      | none => rfl
      | some v => exact absurd (Or.inr (mem_keys_iff.mpr ⟨v, hGet⟩)) (hNone k)
  · rintro ⟨rfl, rfl⟩
    rfl

theorem get?_insertMany_of_notMem (m : SortedMap κ ν) {entries : List (κ × ν)} {k : κ}
    (h : ∀ e ∈ entries, e.1 ≠ k) : (m.insertMany entries).get? k = m.get? k := by
  induction entries generalizing m with
  | nil => rfl
  | cons e entries ih =>
      rw [insertMany_cons, ih _ fun e' he' => h e' (List.mem_cons_of_mem e he'), get?_insert,
        if_neg (h e List.mem_cons_self)]

/-- What the same entries are put on top of makes no difference but where it shows. -/
theorem get?_insertMany_congr {m n : SortedMap κ ν} (entries : List (κ × ν)) {k : κ}
    (h : m.get? k = n.get? k) : (m.insertMany entries).get? k = (n.insertMany entries).get? k := by
  induction entries generalizing m n with
  | nil => exact h
  | cons e entries ih =>
      apply ih
      rw [get?_insert, get?_insert, h]

/-- Distinct keys do not overwrite each other, so each keeps the value it comes with. -/
theorem get?_insertMany (m : SortedMap κ ν) {entries : List (κ × ν)}
    (hNodup : (entries.map Prod.fst).Nodup) (k : κ) :
    (m.insertMany entries).get? k = (lookup k entries).or (m.get? k) := by
  induction entries generalizing m with
  | nil => rfl
  | cons e entries ih =>
      obtain ⟨k', v⟩ := e
      rw [List.map_cons, List.nodup_cons] at hNodup
      rw [insertMany_cons, ih _ hNodup.2, get?_insert]
      by_cases h : k' = k
      · subst h
        simp [lookup, lookup_eq_none hNodup.1]
      · simp [lookup, h, Ne.symm h]

theorem get?_insertMany_toList (m n : SortedMap κ ν) (k : κ) :
    (m.insertMany n.toList).get? k = (n.get? k).or (m.get? k) :=
  get?_insertMany m n.nodup_keys k

/-- Of two values it matters only whether they are there if both are replaced. -/
theorem map_const_eq_of_isSome_eq {μ γ : Type} {x : Option ν} {y : Option μ}
    (h : x.isSome = y.isSome) (c : γ) : x.map (fun _ => c) = y.map fun _ => c := by
  cases x with
  | none => cases y with
    | none => rfl
    | some w => contradiction
  | some v => cases y with
    | none => contradiction
    | some w => rfl

/-- Maps that hold the same keys list them alike. -/
theorem keys_eq_of_contains_eq {μ : Type} {m : SortedMap κ ν} {n : SortedMap κ μ}
    (h : ∀ k, m.contains k = n.contains k) : m.keys = n.keys := by
  have hUnits : m.map (fun _ _ => ()) = n.map fun _ _ => () := by
    ext1 k
    rw [get?_map, get?_map]
    exact map_const_eq_of_isSome_eq (h k) ()
  have hKeys := congrArg keys hUnits
  rwa [keys_map, keys_map] at hKeys

/-- Entries with distinct keys make the map that has just these entries. -/
theorem ofList_eq_of_mem_iff {entries : List (κ × ν)} {m : SortedMap κ ν}
    (hNodup : (entries.map Prod.fst).Nodup)
    (hMem : ∀ k v, (k, v) ∈ entries ↔ m.get? k = some v) : ofList entries = m := by
  ext1 k
  ext1 v
  have hNone : (empty : SortedMap κ ν).get? k = none := rfl
  rw [← hMem, ← lookup_eq_some_iff hNodup, ofList, get?_insertMany _ hNodup, hNone, Option.or_none]

/-- A map is the map of its entries. -/
@[simp] theorem ofList_toList (m : SortedMap κ ν) : ofList m.toList = m := by
  ext1 k
  change ((∅ : SortedMap κ ν).insertMany m.toList).get? k = _
  simp [get?_insertMany_toList]

end
end Accounts.SortedMap
