import Accounts.Proofs.Registry.Transfer

/-! Which accounts an opening with a secret service keeps. The values of an account move and stay
readable. But a group that is left without attributes goes from the book, so an account of nothing
but secrets is lost, and its secrets stay behind in the service. -/
namespace Accounts.Registry
open Process Accounts.Action

variable {r : Registry} {ring : Keyring} {g : GroupName} {p q : Process} {key value : String}

theorem mem_liveGroups_of_no_pending {book : Book} (hDone : book.pendingGroups = []) :
    g ∈ book.liveGroups ↔ book.contains g = true := by
  rw [Book.mem_liveGroups, Book.isLive_eq, Book.pendingGroups_eq_nil_iff.mp hDone g, Bool.not_false,
    Bool.and_true]

/-- A group stays if it has something to stay for. -/
theorem Opening.mem_liveGroups_iff (hOpening : Opening r p q) (hDone : q.book.pendingGroups = [])
    (hBackend : r.backend = .keyring ring) (hAllowed : q.book.AllKeys r.Allows)
    (hUnmarked : p.book.isPending g = false) :
    g ∈ q.book.liveGroups ↔ p.book.IsBlank g ∨
      ∃ key value, r.secrets.isSecretKey key = false ∧ p.book.value? g key = some value := by
  have hSame := hOpening.sameIn g hUnmarked
  rw [mem_liveGroups_of_no_pending hDone, Book.contains_iff, hSame.blank]
  refine or_congr_right ⟨?_, ?_⟩
  · rintro ⟨key, value, hValue⟩
    have hPlain : r.secrets.isSecretKey key = false := by
      cases hSecret : r.secrets.isSecretKey key with
      | false => rfl
      | true =>
          rw [book_value?_eq_none hAllowed (slot_of_keyring hBackend hSecret g)] at hValue
          contradiction
    exact ⟨key, value, hPlain, (hSame.value? hPlain).symm.trans hValue⟩
  · rintro ⟨key, value, hPlain, hValue⟩
    exact ⟨key, value, (hSame.value? hPlain).trans hValue⟩

/-- Every value that the book had is where the registry looks for it. -/
theorem Opening.value?_eq_some (hOpening : Opening r p q) (hAllowed : q.book.AllKeys r.Allows)
    (hUnmarked : p.book.isPending g = false) (hValue : p.book.value? g key = some value) :
    q.value? r g key = some value := by
  cases hPlace : r.slot g key with
  | none =>
      rw [value?_of_slot_eq_none hPlace, hOpening.value?_eq hAllowed hUnmarked, hPlace]
      exact hValue
  | some e =>
      rw [value?_of_slot_eq_some hPlace, hOpening.get?_vault_eq hAllowed hUnmarked hPlace, kept?,
        hValue]
      rfl

theorem calm_read_of_value? (hValue : p.value? r g key = some value) :
    (r.read g key).calm p =
      (if g ∈ p.book.liveGroups then .ok value else .error (.unknownGroup g.sectionName), p) := by
  have hLive := calm_ensureLive g p
  rw [read]
  cases hGroup : p.book.isLive g with
  | true =>
      rw [hGroup] at hLive
      rw [calm_bind_ok hLive, calm_lookup, hValue, if_pos (Book.mem_liveGroups.mpr hGroup)]
  | false =>
      rw [hGroup] at hLive
      have hGone : g ∉ p.book.liveGroups := by simp [Book.mem_liveGroups, hGroup]
      rw [calm_bind_error hLive, if_neg hGone]

/-- An opening with a secret service keeps an account, and every value of it, exactly if the account
has an attribute that is not secret or no attribute at all. The secrets are in the service in any
case. -/
theorem account_survives_opening_iff (hBackend : r.backend = .keyring ring) {d : Storage}
    {book : Book} (hFile : AccountFile.load d.file = .ok book) :
    ∃ q, r.launch d = .ok q ∧
      ∀ g, book.isPending g = false →
        (g ∈ q.book.liveGroups ↔ book.IsBlank g ∨
          ∃ key value, r.secrets.isSecretKey key = false ∧ book.value? g key = some value) ∧
        ∀ key value, book.value? g key = some value →
          (r.read g key).calm q = (if g ∈ q.book.liveGroups then .ok value
            else .error (.unknownGroup g.sectionName), q) ∧
          (r.secrets.isSecretKey key = true →
            SortedMap.get? q.vault (ring.entry g key) = some value) := by
  obtain ⟨q, hLaunch, hOpening, hDone, hIntact⟩ := launch_eq_ok hBackend (start_of_load hFile)
  have hAllowed := hIntact.allKeys
  refine ⟨q, hLaunch, fun g hUnmarked => ⟨?_, fun key value hValue => ?_⟩⟩
  · exact hOpening.mem_liveGroups_iff hDone hBackend hAllowed hUnmarked
  · have hThere := hOpening.value?_eq_some hAllowed hUnmarked hValue
    refine ⟨calm_read_of_value? hThere, fun hSecret => ?_⟩
    rwa [value?_of_slot_eq_some (slot_of_keyring hBackend hSecret g)] at hThere

/-- The account with a manager and a password is still there, and the password can be read. -/
theorem account_survives_opening_of_manager :
    ∃ q, ringRegistry.launch storageWithPassword = .ok q ∧ checkGroup ∈ q.book.liveGroups ∧
      (ringRegistry.read checkGroup (paramKey "password")).calm q = (.ok "old", q) := by
  obtain ⟨q, hLaunch, hGroups⟩ := account_survives_opening_iff (r := ringRegistry) rfl
    (d := storageWithPassword) load_bookWithPassword
  obtain ⟨hListed, hValues⟩ := hGroups checkGroup (by decide +kernel)
  have hMember := hListed.mpr (Or.inr ⟨managerKey, "keeper", by decide +kernel, by decide +kernel⟩)
  obtain ⟨hRead, _⟩ := hValues (paramKey "password") "old" (by decide +kernel)
  rw [if_pos hMember] at hRead
  exact ⟨q, hLaunch, hMember, hRead⟩

/-- A group that has nothing but a password. -/
def bareGroup : GroupName := ⟨"a", "b", "c", by decide, by decide, by decide⟩

/-- Storage with an account file that holds this group. -/
def bareStorage : Storage := ⟨some (.text "[a/b/c]\nparam-password=x\n"), ∅⟩

/-- The group is gone once its password has moved, and no one can ask for the password any more. -/
theorem account_lost_at_opening :
    ∃ book q, AccountFile.load bareStorage.file = .ok book ∧ book.isPending bareGroup = false ∧
      book.value? bareGroup (paramKey "password") = some "x" ∧
      ringRegistry.launch bareStorage = .ok q ∧ q.book.liveGroups = [] ∧
      (ringRegistry.read bareGroup (paramKey "password")).calm q =
        (.error (.unknownGroup "a/b/c"), q) ∧
      SortedMap.get? q.vault ⟨"keeper", "a/b/c/param-password"⟩ = some "x" := by
  refine ⟨Book.write ∅ bareGroup [(paramKey "password", "x")],
    { file := some (.text ""), vault := Vault.put ∅ ⟨"keeper", "a/b/c/param-password"⟩ "x", book := ∅,
      events := [] }, ?_, ?_, ?_, ?_, ?_, ?_, ?_⟩
  · decide +kernel
  · decide +kernel
  · decide +kernel
  · decide +kernel
  · rfl
  · exact Prod.ext (by decide +kernel) rfl
  · decide +kernel

end Accounts.Registry
