import Accounts.Proofs.Registry.Calm
import Accounts.Proofs.Registry.Ledger

/-! Where the values of a registry are: some in the book, some in a service. A process shows a
ledger if both places together hold what the ledger holds. -/
namespace Accounts

namespace Registry

/-- The entry of a value that the registry keeps in a service. -/
def slot (r : Registry) (g : GroupName) (key : String) : Option Entry :=
  match r.backend with
  | .inline => none
  | .keyring ring => if r.secrets.isSecretKey key then some (ring.entry g key) else none

variable {r : Registry} {g g' : GroupName} {key key' : String} {e : Entry}

theorem slot_of_inline (h : r.backend = .inline) (g : GroupName) (key : String) :
    r.slot g key = none := by
  rw [slot, h]

theorem slot_of_not_secret (h : r.secrets.isSecretKey key = false) (g : GroupName) :
    r.slot g key = none := by
  unfold slot
  cases r.backend with
  | inline => rfl
  | keyring ring =>
      dsimp only
      rw [h, if_neg Bool.false_ne_true]

theorem slot_of_keyring {ring : Keyring} (h : r.backend = .keyring ring)
    (hSecret : r.secrets.isSecretKey key = true) (g : GroupName) :
    r.slot g key = some (ring.entry g key) := by
  unfold slot
  rw [h]
  exact if_pos hSecret

theorem slot_eq_some_iff :
    r.slot g key = some e ↔
      ∃ ring, r.backend = .keyring ring ∧ r.secrets.isSecretKey key = true ∧
        ring.entry g key = e := by
  unfold slot
  cases r.backend with
  | inline => simp
  | keyring ring => simp

theorem mem_entries_of_slot (h : r.slot g key = some e) : e ∈ r.entries g := by
  obtain ⟨ring, hBackend, hSecret, hEntry⟩ := slot_eq_some_iff.mp h
  exact (mem_entries hBackend).mpr ⟨key, hSecret, hEntry⟩

/-- Every value has an entry of its own. -/
theorem slot_inj (h : r.slot g key = some e) (h' : r.slot g' key' = some e) :
    g = g' ∧ key = key' := by
  obtain ⟨ring, hBackend, _, hEntry⟩ := slot_eq_some_iff.mp h
  obtain ⟨ring', hBackend', _, hEntry'⟩ := slot_eq_some_iff.mp h'
  obtain rfl := Backend.keyring.inj (hBackend.symm.trans hBackend')
  exact Keyring.entry_inj (hEntry.trans hEntry'.symm)

end Registry

namespace Process

/-- The value of a group under a key, wherever the registry keeps it. -/
def value? (r : Registry) (p : Process) (g : GroupName) (key : String) : Option String :=
  match r.slot g key with
  | none => p.book.value? g key
  | some e => SortedMap.get? p.vault e

/-- The process after a value was written to where the registry keeps it. -/
def store (r : Registry) (p : Process) (g : GroupName) (key value : String) : Process :=
  match r.slot g key with
  | none => p.save (p.book.write g [(key, value)])
  | some e => p.withVault (p.vault.put e value)

variable {r : Registry} {p q : Process} {m : Book} {g : GroupName} {key value : String}

theorem value?_of_slot_eq_none (h : r.slot g key = none) (p : Process) :
    p.value? r g key = p.book.value? g key := by
  rw [value?, h]

theorem value?_of_slot_eq_some {e : Entry} (h : r.slot g key = some e) (p : Process) :
    p.value? r g key = SortedMap.get? p.vault e := by
  rw [value?, h]

/-- The process holds what the ledger holds, and has no use for a service that it does not need. -/
structure Shows (r : Registry) (m : Book) (p : Process) : Prop where
  contains : ∀ g, p.book.contains g = m.contains g
  value : ∀ g key, p.value? r g key = m.value? g key
  vault : r.backend = .inline → p.vault = ∅

namespace Shows

theorem notify (h : p.Shows r m) (event : Event) : (p.notify event).Shows r m :=
  ⟨h.contains, h.value, h.vault⟩

theorem book_value (h : p.Shows r m) (hPlace : r.slot g key = none) :
    p.book.value? g key = m.value? g key := by
  rw [← h.value, value?_of_slot_eq_none hPlace]

theorem write (h : p.Shows r m) {entries : List (String × String)}
    (hPlace : ∀ e ∈ entries, r.slot g e.1 = none) :
    (p.save (p.book.write g entries)).Shows r (m.write g entries) := by
  refine ⟨fun g' => ?_, fun g' key => ?_, h.vault⟩
  · rw [save_book, Book.contains_write, Book.contains_write, h.contains]
  · rw [Book.value?_write]
    cases hEntry : r.slot g' key with
    | none =>
        rw [value?_of_slot_eq_none hEntry, save_book, Book.value?_write]
        split_ifs with hEq
        · subst hEq
          apply SortedMap.get?_insertMany_congr
          rw [Book.get?_attributes, Book.get?_attributes, h.book_value hEntry]
        · exact h.book_value hEntry
    | some e =>
        rw [value?_of_slot_eq_some hEntry, save_vault, ← value?_of_slot_eq_some hEntry, h.value]
        split_ifs with hEq
        · subst hEq
          rw [SortedMap.get?_insertMany_of_notMem, Book.get?_attributes]
          rintro entry hMem rfl
          rw [hPlace entry hMem] at hEntry
          contradiction
        · rfl

theorem put (h : p.Shows r m) (hThere : m.contains g = true) {e : Entry}
    (hEntry : r.slot g key = some e) (value : String) :
    (p.withVault (p.vault.put e value)).Shows r (m.write g [(key, value)]) := by
  refine ⟨fun g' => ?_, fun g' key' => ?_, fun hBackend => ?_⟩
  · rw [withVault_book, h.contains, Book.contains_write]
    split_ifs with hEq
    · rw [← hEq, hThere]
    · rfl
  · have hWrite : (m.write g [(key, value)]).value? g' key' =
        if g = g' ∧ key = key' then some value else m.value? g' key' := by
      rw [Book.value?_write]
      by_cases hEq : g = g'
      · subst hEq
        simp
      · simp [hEq]
    rw [hWrite]
    cases hEntry' : r.slot g' key' with
    | none =>
        rw [value?_of_slot_eq_none hEntry', withVault_book, h.book_value hEntry', if_neg]
        rintro ⟨rfl, rfl⟩
        rw [hEntry] at hEntry'
        contradiction
    | some e' =>
        rw [value?_of_slot_eq_some hEntry', withVault_vault, Vault.put, SortedMap.get?_insert,
          ← value?_of_slot_eq_some hEntry', h.value]
        by_cases hEq : e = e'
        · subst hEq
          rw [if_pos rfl, if_pos (Registry.slot_inj hEntry hEntry')]
        · rw [if_neg hEq, if_neg]
          rintro ⟨rfl, rfl⟩
          rw [hEntry] at hEntry'
          exact hEq (Option.some.inj hEntry')
  · rw [Registry.slot_of_inline hBackend] at hEntry
    contradiction

/-- A value that is written where it belongs shows in the ledger, wherever that is. -/
theorem store (h : p.Shows r m) (hThere : m.contains g = true) (key value : String) :
    (p.store r g key value).Shows r (m.write g [(key, value)]) := by
  unfold Process.store
  cases hEntry : r.slot g key with
  | none => exact h.write (List.forall_mem_singleton.mpr hEntry)
  | some e => exact h.put hThere hEntry value

theorem foldl_store (h : p.Shows r m) (hThere : m.contains g = true)
    (entries : List (String × String)) :
    (entries.foldl (fun q e => q.store r g e.1 e.2) p).Shows r (m.write g entries) := by
  induction entries generalizing p m with
  | nil =>
      rw [Book.write_nil hThere]
      exact h
  | cons e entries ih =>
      have hRest := ih (h.store hThere e.1 e.2) (by rw [Book.contains_write, if_pos rfl])
      rw [Book.write_write] at hRest
      exact hRest

theorem eraseKey (h : p.Shows r m) {key' : String} (hPlace : r.slot g key = none)
    (hPlace' : r.slot g key' = none) (hOther : m.value? g key' = some value) (hNe : key ≠ key') :
    (p.save (p.book.eraseKey g key)).Shows r (m.eraseKey g key) := by
  have hOther' : p.book.value? g key' = some value := (h.book_value hPlace').trans hOther
  refine ⟨fun g' => ?_, fun g' key'' => ?_, h.vault⟩
  · rw [save_book, Book.contains_eraseKey hOther' hNe, Book.contains_eraseKey hOther hNe, h.contains]
  · rw [Book.value?_eraseKey]
    cases hEntry : r.slot g' key'' with
    | none =>
        rw [value?_of_slot_eq_none hEntry, save_book, Book.value?_eraseKey, h.book_value hEntry]
    | some e =>
        rw [value?_of_slot_eq_some hEntry, save_vault, ← value?_of_slot_eq_some hEntry, h.value,
          if_neg]
        rintro ⟨rfl, rfl⟩
        rw [hPlace] at hEntry
        contradiction

/-- A group that is dropped leaves nothing behind in either place. -/
theorem drop (h : p.Shows r m) (g : GroupName) : (p.drop r g).Shows r (m.erase g) := by
  refine ⟨fun g' => ?_, fun g' key => ?_, fun hBackend => ?_⟩
  · have hThere := h.contains g'
    rw [SortedMap.contains, SortedMap.contains] at hThere ⊢
    rw [drop_book, SortedMap.get?_erase, SortedMap.get?_erase]
    split_ifs
    · rfl
    · exact hThere
  · rw [Book.value?_erase]
    cases hEntry : r.slot g' key with
    | none =>
        rw [value?_of_slot_eq_none hEntry, drop_book, Book.value?_erase, h.book_value hEntry]
    | some e =>
        have hMem := Registry.mem_entries_of_slot hEntry
        rw [value?_of_slot_eq_some hEntry, drop_vault, Vault.get?_without]
        split_ifs with hGone hEq hEq
        · rfl
        · exact absurd (Registry.eq_of_mem_entries hGone hMem) hEq
        · exact absurd (hEq ▸ hMem) hGone
        · rw [← value?_of_slot_eq_some hEntry, h.value]
  · rw [drop_vault, Registry.entries_of_inline hBackend, Vault.without_nil, h.vault hBackend]

end Shows

end Process
end Accounts
