import Accounts.Proofs.Registry.Refinement

/-! Opening a registry that shows a ledger. While secrets move from the book to a service, each of
them is in one of the two places, and once all have moved the same ledger shows. -/
namespace Accounts

/-- The registry after a move of its secrets to a service. One that has a service keeps it. -/
def Registry.moveTo (r : Registry) : Option Keyring → Registry
  | none => r
  | some ring => match r.backend with
    | .inline => { r with backend := .keyring ring }
    | .keyring _ => r

namespace Process
open Accounts.Action

variable {r : Registry} {p : Process} {m : Book} {g : GroupName} {key value : String} {e : Entry}

/-- The value of a group under a key while secrets move: that in the service, or else the one that
is still in the book. -/
def found? (r : Registry) (p : Process) (g : GroupName) (key : String) : Option String :=
  ((r.slot g key).bind fun e => SortedMap.get? p.vault e).or (p.book.value? g key)

theorem found?_of_slot_eq_none (h : r.slot g key = none) (p : Process) :
    p.found? r g key = p.book.value? g key := by
  rw [found?, h]
  rfl

theorem found?_of_slot_eq_some (h : r.slot g key = some e) (p : Process) :
    p.found? r g key = (SortedMap.get? p.vault e).or (p.book.value? g key) := by
  rw [found?, h]
  rfl

/-- Everything in the ledger is in one of the two places, and what is in the book is right. -/
structure Carries (r : Registry) (m : Book) (p : Process) : Prop where
  contains : ∀ g, p.book.contains g = m.contains g
  found : ∀ g key, p.found? r g key = m.value? g key
  book : ∀ g key value, p.book.value? g key = some value → m.value? g key = some value

/-- What the registry keeps in the service it does not allow in the book. -/
theorem book_value?_eq_none (h : p.book.AllKeys r.Allows) (hEntry : r.slot g key = some e) :
    p.book.value? g key = none := by
  obtain ⟨ring, hBackend, hSecret, _⟩ := Registry.slot_eq_some_iff.mp hEntry
  cases hValue : p.book.value? g key with
  | none => rfl
  | some value =>
      have hAllowed := (Book.allKeys_iff.mp h g key value hValue).2
      rw [hBackend, hSecret] at hAllowed
      rcases hAllowed with hInline | hPlain
      · contradiction
      · contradiction

/-- The process after a secret went to the service and out of the book. -/
def move (ring : Keyring) (p : Process) (e : GroupName × String × String) : Process :=
  let q := p.withVault (p.vault.put (ring.entry e.1 e.2.1) e.2.2)
  if (q.book.value? e.1 e.2.1).isSome then q.save (q.book.eraseKey e.1 e.2.1) else q

namespace Carries

theorem book_value (h : p.Carries r m) (hPlace : r.slot g key = none) :
    p.book.value? g key = m.value? g key := by
  rw [← h.found, found?_of_slot_eq_none hPlace]

theorem put (h : p.Carries r m) (hEntry : r.slot g key = some e)
    (hValue : m.value? g key = some value) :
    (p.withVault (p.vault.put e value)).Carries r m := by
  refine ⟨h.contains, fun g' key' => ?_, h.book⟩
  rw [← h.found]
  cases hEntry' : r.slot g' key' with
  | none =>
      rw [found?_of_slot_eq_none hEntry', found?_of_slot_eq_none hEntry', withVault_book]
  | some e' =>
      rw [found?_of_slot_eq_some hEntry', withVault_vault, withVault_book, Vault.put,
        SortedMap.get?_insert]
      split_ifs with hEq
      · subst hEq
        obtain ⟨rfl, rfl⟩ := Registry.slot_inj hEntry hEntry'
        rw [h.found, hValue]
        rfl
      · rw [found?_of_slot_eq_some hEntry']

/-- What the service has may go from the book. -/
theorem eraseKey (h : p.Carries r m) (hProper : Ledger.Proper m) (hThere : m.contains g = true)
    (hEntry : r.slot g key = some e) (hStored : SortedMap.get? p.vault e = some value) :
    (p.save (p.book.eraseKey g key)).Carries r m := by
  have hPlace := Registry.slot_of_not_secret (r := r) r.secrets.isSecretKey_managerKey g
  obtain ⟨manager, hManager⟩ := hProper.owned g hThere managerKey (by simp [Ledger.ownerKeys])
  rw [← h.book_value hPlace] at hManager
  have hDistinct : key ≠ managerKey := by
    rintro rfl
    rw [hPlace] at hEntry
    contradiction
  refine ⟨fun g' => ?_, fun g' key' => ?_, fun g' key' value' hLeft => ?_⟩
  · rw [save_book, Book.contains_eraseKey hManager hDistinct, h.contains]
  · rw [← h.found]
    by_cases hSame : g = g' ∧ key = key'
    · obtain ⟨rfl, rfl⟩ := hSame
      rw [found?_of_slot_eq_some hEntry, found?_of_slot_eq_some hEntry, save_vault, hStored]
      rfl
    · rw [found?, found?, save_vault, save_book, Book.value?_eraseKey, if_neg hSame]
  · exact h.book g' key' value' (Book.value?_of_eraseKey hLeft).1

theorem move {ring : Keyring} (h : p.Carries r m) (hProper : Ledger.Proper m)
    (hBackend : r.backend = .keyring ring) (hSecret : r.secrets.isSecretKey key = true)
    (hValue : m.value? g key = some value) : (p.move ring (g, key, value)).Carries r m := by
  have hEntry := Registry.slot_of_keyring hBackend hSecret g
  have hPut := h.put hEntry hValue
  have hThere : m.contains g = true := by
    cases hContains : m.contains g with
    | true => rfl
    | false =>
        rw [Book.value?_eq_none_of_not_contains hContains] at hValue
        contradiction
  unfold Process.move
  dsimp only
  split_ifs
  · apply hPut.eraseKey hProper hThere hEntry
    rw [withVault_vault, Vault.put, SortedMap.get?_insert_self]
  · exact hPut

theorem foldl_move {ring : Keyring} (h : p.Carries r m) (hProper : Ledger.Proper m)
    (hBackend : r.backend = .keyring ring) {es : List (GroupName × String × String)}
    (hMoved : ∀ e ∈ es, r.secrets.isSecretKey e.2.1 = true ∧ m.value? e.1 e.2.1 = some e.2.2) :
    (es.foldl (Process.move ring) p).Carries r m := by
  induction es generalizing p with
  | nil => exact h
  | cons e es ih =>
      obtain ⟨hSecret, hValue⟩ := hMoved e List.mem_cons_self
      apply ih (h.move hProper hBackend hSecret hValue)
      intro e' he'
      exact hMoved e' (List.mem_cons_of_mem e he')

/-- Once no secret is left in the book, all of them show in the service. -/
theorem shows (h : p.Carries r m) (hAllowed : p.book.AllKeys r.Allows)
    (hVault : r.backend = .inline → p.vault = ∅) : p.Shows r m := by
  refine ⟨h.contains, fun g key => ?_, hVault⟩
  rw [← h.found]
  cases hEntry : r.slot g key with
  | none => rw [value?_of_slot_eq_none hEntry, found?_of_slot_eq_none hEntry]
  | some e =>
      rw [value?_of_slot_eq_some hEntry, found?_of_slot_eq_some hEntry,
        book_value?_eq_none hAllowed hEntry, Option.or_none]

end Carries

namespace Shows

/-- Where the book has no secret there is nothing to move. -/
theorem carries (h : p.Shows r m) (hAllowed : p.book.AllKeys r.Allows) : p.Carries r m := by
  refine ⟨h.contains, fun g key => ?_, fun g key value hValue => ?_⟩
  · rw [← h.value]
    cases hEntry : r.slot g key with
    | none => rw [value?_of_slot_eq_none hEntry, found?_of_slot_eq_none hEntry]
    | some e =>
        rw [value?_of_slot_eq_some hEntry, found?_of_slot_eq_some hEntry,
          book_value?_eq_none hAllowed hEntry, Option.or_none]
  · cases hEntry : r.slot g key with
    | none => rw [← h.book_value hEntry, hValue]
    | some e =>
        rw [book_value?_eq_none hAllowed hEntry] at hValue
        contradiction

/-- What is in the book may move to any service that has nothing yet. -/
theorem carries_of_inline (h : p.Shows r m) (hBackend : r.backend = .inline) (r' : Registry) :
    p.Carries r' m := by
  have hBook : ∀ g key, p.book.value? g key = m.value? g key := by
    intro g key
    exact h.book_value (Registry.slot_of_inline hBackend g key)
  refine ⟨h.contains, fun g key => ?_, fun g key value hValue => ?_⟩
  · rw [← hBook]
    cases hEntry : r'.slot g key with
    | none => rw [found?_of_slot_eq_none hEntry]
    | some e =>
        rw [found?_of_slot_eq_some hEntry, h.vault hBackend]
        rfl
  · rw [← hBook, hValue]

theorem carries_moveTo (h : p.Shows r m) (hAllowed : p.book.AllKeys r.Allows)
    (ring? : Option Keyring) : p.Carries (r.moveTo ring?) m := by
  cases ring? with
  | none => exact h.carries hAllowed
  | some ring =>
      cases hBackend : r.backend with
      | inline => exact h.carries_of_inline hBackend _
      | keyring ring' =>
          have hSame : r.moveTo (some ring) = r := by rw [Registry.moveTo, hBackend]
          rw [hSame]
          exact h.carries hAllowed

end Shows

end Process

namespace Registry
open Process Accounts.Action

variable {r : Registry} {p : Process} {m : Book}

/-! ## Opening -/

theorem calm_migrate {ring : Keyring} (hBackend : r.backend = .keyring ring) (p : Process) :
    r.migrate.calm p = (.ok (), (r.inlineSecrets p.book).foldl (Process.move ring) p) := by
  have hTurn : ∀ e ∈ r.inlineSecrets p.book, ∀ q,
      (r.moveSecret e.1 e.2.1 e.2.2).calm q = (.ok (), q.move ring e) := by
    intro e _ q
    rw [moveSecret, hBackend]
    change (ring.set e.1 e.2.1 e.2.2 >>= fun _ => Store.delete e.1 e.2.1).calm q = _
    rw [calm_bind_ok (ring.calm_set e.2.1 e.2.2 q), Store.calm_delete]
    rfl
  rw [migrate_eq (by rw [hBackend]; rfl), calm_book]
  exact calm_forM hTurn p

theorem value?_of_mem_inlineSecrets {book : Book} {e : GroupName × String × String}
    (h : e ∈ r.inlineSecrets book) :
    r.secrets.isSecretKey e.2.1 = true ∧ book.value? e.1 e.2.1 = some e.2.2 := by
  simp only [inlineSecrets, List.mem_flatMap, List.mem_map, List.mem_filter] at h
  obtain ⟨⟨g, a⟩, hGroup, ⟨key, value⟩, ⟨hEntry, hSecret⟩, rfl⟩ := h
  refine ⟨hSecret, ?_⟩
  rw [Book.value?, SortedMap.mem_toList_iff.mp hGroup]
  exact SortedMap.mem_toList_iff.mp hEntry

theorem carries_migrate (h : p.Carries r m) (hProper : Ledger.Proper m)
    (hVault : r.backend = .inline → p.vault = ∅) :
    ∃ q, r.migrate.calm p = (.ok (), q) ∧ q.Carries r m ∧ (r.backend = .inline → q.vault = ∅) := by
  cases hBackend : r.backend with
  | inline =>
      refine ⟨p, ?_, h, fun _ => hVault hBackend⟩
      rw [migrate_inline (by rw [hBackend]; rfl)]
      rfl
  | keyring ring =>
      refine ⟨_, calm_migrate hBackend p, ?_, fun hInline => by contradiction⟩
      apply h.foldl_move hProper hBackend
      intro e he
      obtain ⟨hSecret, hValue⟩ := value?_of_mem_inlineSecrets he
      exact ⟨hSecret, h.book e.1 e.2.1 e.2.2 hValue⟩

/-- Opening a registry works and shows everything that was carried. -/
theorem shows_openUp (h : p.Carries r m) (hProper : Ledger.Proper m)
    (hVault : r.backend = .inline → p.vault = ∅) (hIntact : p.Intact KeyFile.IsWritable) :
    ∃ q, r.openUp.calm p = (.ok (), q) ∧ q.Shows r m ∧ q.Intact r.Allows := by
  obtain ⟨q, hMigrate, hCarries, hVaultLeft⟩ := carries_migrate h hProper hVault
  have hNone : q.book.pendingGroups = [] := by
    rw [Book.pendingGroups_eq_nil_iff]
    intro g
    rw [Book.isPending_eq_isSome,
      hCarries.book_value (slot_of_not_secret r.secrets.isSecretKey_pendingKey g),
      hProper.unmarked]
    rfl
  have hOpen : r.openUp.calm p = (.ok (), q) := by
    rw [openUp, calm_bind_ok hMigrate, calm_cleanUp, hNone]
    rfl
  have hAllowed := intact_of_openUp (r := r) (s := (p, .none)) hIntact (congrArg Prod.fst hOpen)
  rw [run_eq_calm, hOpen] at hAllowed
  exact ⟨q, hOpen, hCarries.shows hAllowed.allKeys hVaultLeft, hAllowed⟩

end Registry
end Accounts
