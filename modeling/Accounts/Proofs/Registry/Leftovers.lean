import Accounts.Proofs.Registry.LiveView

/-! What a backend check leaves behind when it succeeds. The check removes the secrets of its group
under the keys of the secret parameters, and writes under the first of these keys. If there is none
it writes under a key that it does not remove again. -/
namespace Accounts

/-- The process after the backend took a value. -/
def Process.deposit (p : Process) (backend : Backend) (g : GroupName) (key value : String) : Process :=
  match backend with
  | .inline => p.save (p.book.write g [(key, value)])
  | .keyring ring => p.withVault (p.vault.put (ring.entry g key) value)

namespace Registry
open Process Accounts.Action

variable {r : Registry} {ring : Keyring} {g : GroupName} {p q : Process} {s : Process × Faults}

theorem keeps_backendSet_deposit (backend : Backend) (g : GroupName) (key value : String)
    (s : Process × Faults) :
    Keeps host (fun _ => True) (backend.set g key value) s fun answer s' =>
      answer = .ok () → s'.1 = s.1.deposit backend g key value := by
  cases backend with
  | inline =>
      refine (atomic_setMany g [(key, value)] s).ends.mono fun answer s' _ hT hOk => ?_
      rcases hT with ⟨⟨_, hSaved⟩, _⟩ | ⟨⟨e, hError⟩, _⟩
      · exact hSaved
      · rw [hError] at hOk
        contradiction
  | keyring ring =>
      refine (atomic_put ring g key value s).ends.mono fun answer s' _ hT hOk => ?_
      rcases hT with ⟨_, hPut⟩ | ⟨⟨e, hError⟩, _⟩
      · exact hPut
      · rw [hError] at hOk
        contradiction

/-- A round trip that succeeds leaves the secret where it was written. -/
theorem keeps_roundTrip_deposit (r : Registry) (key : String) (s : Process × Faults) :
    Keeps host (fun _ => True) (r.roundTrip key) s fun answer s' =>
      answer = .ok () → s'.1 = s.1.deposit r.backend checkGroup key checkValue := by
  refine (keeps_backendSet_deposit r.backend checkGroup key checkValue s).bind
    (fun _ s' _ hSet => ?_) fun e _ _ _ hOk => by contradiction
  have hSame : Stable (fun p => p = s'.1) (r.backend.get checkGroup key) :=
    stable_backendGet r.backend checkGroup key
  refine Keeps.bind (R := fun _ s'' => s''.1 = s'.1) ?_ (fun value s'' _ hGet => ?_)
    fun e _ _ _ hOk => by contradiction
  · exact ⟨fun _ _ => trivial, (hSame s' rfl).last⟩
  · split_ifs
    · refine Keeps.pure trivial fun _ => ?_
      rw [hGet, hSet rfl]
    · exact Keeps.throw trivial fun hOk => by contradiction

/-- The process after a check that succeeded. -/
def checked (r : Registry) (p : Process) : Process :=
  ((p.save (p.book.write checkGroup [(pendingKey, "true")])).deposit r.backend checkGroup
    r.checkKey checkValue).drop r checkGroup

theorem keeps_checkMarked_drop (r : Registry) (s : Process × Faults) :
    Keeps host (fun _ => True) r.checkMarked s fun answer s' => answer = .ok () →
      s'.1 = (s.1.deposit r.backend checkGroup r.checkKey checkValue).drop r checkGroup := by
  have hRound : Keeps host (fun _ => True) (r.roundTrip r.checkKey).attempt s fun outcome s' =>
      outcome = .ok (.ok ()) → s'.1 = s.1.deposit r.backend checkGroup r.checkKey checkValue :=
    (keeps_roundTrip_deposit r r.checkKey s).attempt fun _ _ _ hSet hOk => hSet (Except.ok.inj hOk)
  refine hRound.bind (fun outcome s' _ hSet => ?_) fun e _ _ _ hOk => by contradiction
  have hClean : Keeps host (fun _ => True) (r.finishRemoval checkGroup).attempt s'
      fun cleanup s'' => cleanup = .ok (.ok ()) → s''.1 = s'.1.drop r checkGroup := by
    refine (keeps_purge r checkGroup s').attempt fun answer s'' _ hEnd hOk => ?_
    rcases hEnd with ⟨_, hDropped⟩ | ⟨⟨reason, hError⟩, _⟩
    · exact hDropped
    · rw [hError] at hOk
      exact absurd (Except.ok.inj hOk) (by simp)
  refine hClean.bind (fun cleanup s'' _ hDropped => ?_) fun e _ _ _ hOk => by contradiction
  cases outcome with
  | error e => exact Keeps.throw trivial fun hOk => by contradiction
  | ok _ =>
      refine Keeps.ofExcept trivial fun hOk => ?_
      rw [hDropped (congrArg Except.ok hOk), hSet rfl]

/-- There is one way for a check to succeed. -/
theorem eq_checked_of_ends (hEnds : r.check.Ends p (.ok ()) q) : q = r.checked p := by
  have hCheck : (Except.ok () : Except Error Unit) = .ok () → q = r.checked p := by
    refine hEnds.of_keeps (R := fun answer q => answer = .ok () → q = r.checked p) fun faults => ?_
    rw [check_eq]
    apply keeps_book
    split_ifs
    · exact Keeps.throw trivial fun hOk => by contradiction
    · refine (atomic_setMany checkGroup [(pendingKey, "true")] (p, faults)).ends.bind
        (fun _ s' _ hT => ?_) fun e _ _ _ hOk => by contradiction
      rcases hT with ⟨⟨_, hSaved⟩, _⟩ | ⟨⟨e, hError⟩, _⟩
      · rw [checked, ← hSaved]
        exact keeps_checkMarked_drop r s'
      · contradiction
  exact hCheck rfl

theorem checked_book (r : Registry) (p : Process) :
    (r.checked p).book = SortedMap.erase p.book checkGroup := by
  rw [checked, drop_book]
  cases r.backend with
  | inline => rw [deposit, save_book, save_book, Book.erase_write, Book.erase_write]
  | keyring ring => rw [deposit, withVault_book, save_book, Book.erase_write]

theorem checked_vault_of_inline (hBackend : r.backend = .inline) (p : Process) :
    (r.checked p).vault = p.vault := by
  rw [checked, drop_vault, entries_of_inline hBackend, Vault.without_nil, hBackend]
  rfl

theorem checked_vault_of_keyring (hBackend : r.backend = .keyring ring) (p : Process) :
    (r.checked p).vault =
      (p.vault.put (ring.entry checkGroup r.checkKey) checkValue).without (r.entries checkGroup) := by
  rw [checked, drop_vault, hBackend]
  rfl

/-- What the check wrote goes again if its key is that of a secret. -/
theorem checked_vault_eq (hBackend : r.backend = .keyring ring)
    (hNone : ∀ key, SortedMap.get? p.vault (ring.entry checkGroup key) = none)
    (hKeys : r.secrets.keys ≠ []) : (r.checked p).vault = p.vault := by
  obtain ⟨key, rest, hFirst⟩ := List.exists_cons_of_ne_nil hKeys
  have hKey : r.checkKey = key := by rw [checkKey, hFirst]; rfl
  have hWritten : ring.entry checkGroup r.checkKey ∈ r.entries checkGroup := by
    rw [entries_of_keyring hBackend, hKey, hFirst]
    exact List.mem_cons_self
  apply SortedMap.ext_get?
  intro e
  rw [checked_vault_of_keyring hBackend, Vault.get?_without]
  split_ifs with he
  · obtain ⟨key', _, rfl⟩ := (mem_entries hBackend).mp he
    exact (hNone key').symm
  · have hNe : ring.entry checkGroup r.checkKey ≠ e := fun hEq => he (hEq ▸ hWritten)
    rw [Vault.put, SortedMap.get?_insert, if_neg hNe]

/-- Without secret parameters there is no key under which the check would remove anything. -/
theorem checked_vault_of_keys_eq_nil (hBackend : r.backend = .keyring ring)
    (hKeys : r.secrets.keys = []) (p : Process) :
    (r.checked p).vault =
      p.vault.put (ring.entry checkGroup (paramKey "password")) checkValue := by
  rw [checked_vault_of_keyring hBackend, entries_of_keyring hBackend, checkKey, hKeys]
  exact Vault.without_nil _

/-- A check that succeeds, in the absence of its group, leaves the accounts as they were. It leaves
the secrets as they were exactly if there is a secret parameter or no service, and else its own
secret is left over. -/
theorem check_leaves_nothing_iff (hAbsent : p.book.get? checkGroup = none)
    (hNone : ∀ ring, r.backend = .keyring ring →
      ∀ key, SortedMap.get? p.vault (ring.entry checkGroup key) = none)
    (hEnds : r.check.Ends p (.ok ()) q) :
    q.book = p.book ∧
      (q.vault = p.vault ↔ r.backend = .inline ∨ r.secrets.keys ≠ []) ∧
      ∀ ring, r.backend = .keyring ring → r.secrets.keys = [] →
        q.vault = p.vault.put (ring.entry checkGroup (paramKey "password")) checkValue := by
  obtain rfl := eq_checked_of_ends hEnds
  refine ⟨?_, ?_, fun ring hBackend hKeys => checked_vault_of_keys_eq_nil hBackend hKeys p⟩
  · rw [checked_book, SortedMap.erase_eq_self hAbsent]
  · cases hBackend : r.backend with
    | inline => exact iff_of_true (checked_vault_of_inline hBackend p) (Or.inl rfl)
    | keyring ring =>
        constructor
        · intro hSame
          refine Or.inr fun hKeys => ?_
          have hLeft := hNone ring hBackend (paramKey "password")
          rw [← hSame, checked_vault_of_keys_eq_nil hBackend hKeys, Vault.put,
            SortedMap.get?_insert_self] at hLeft
          contradiction
        · rintro (hInline | hKeys)
          · contradiction
          · exact checked_vault_eq hBackend (hNone ring hBackend) hKeys

/-- A check beside an account with a password leaves nothing. -/
theorem check_leaves_nothing_of_default :
    ∃ q, ringRegistry.check.Ends accountProcess (.ok ()) q ∧ q.book = accountProcess.book ∧
      q.vault = accountProcess.vault := by
  have hOk : (ringRegistry.check.calm accountProcess).1 = .ok () := by decide +kernel
  have hEnds : ringRegistry.check.Ends accountProcess (.ok ())
      (ringRegistry.check.calm accountProcess).2 :=
    ⟨.none, .none, by rw [run_eq_calm, hOk]⟩
  have hNone : ∀ ring, ringRegistry.backend = .keyring ring →
      ∀ key, SortedMap.get? accountProcess.vault (ring.entry checkGroup key) = none := by
    intro ring hBackend key
    obtain rfl := Backend.keyring.inj hBackend
    have hVault : accountProcess.vault = Vault.put ∅
        (Keyring.entry ⟨"keeper", Keyring.defaultTimeout⟩ accountGroup (paramKey "password")) "old" := by
      decide +kernel
    have hGroups : accountGroup ≠ checkGroup := by decide +kernel
    rw [hVault, Vault.put, SortedMap.get?_insert, if_neg fun hEq => hGroups (Keyring.entry_inj hEq).1]
    rfl
  obtain ⟨hBook, hVault, _⟩ := check_leaves_nothing_iff (by decide +kernel) hNone hEnds
  exact ⟨_, hEnds, hBook, hVault.mpr (Or.inr (by decide +kernel))⟩

/-- A registry with a secret service that takes no parameter for secret. -/
def openRegistry : Registry := ⟨.keyring ⟨"keeper", Keyring.defaultTimeout⟩, .ofList []⟩

/-- A check on unused storage leaves its secret in the service. -/
theorem check_leaves_secret :
    ∃ p q, Storage.unused.start = .ok p ∧ p.book = ∅ ∧ p.vault = ∅ ∧
      openRegistry.check.Ends p (.ok ()) q ∧ q.book = ∅ ∧
      q.vault = Vault.put ∅ ⟨"keeper", "keeper/health/check0/param-password"⟩ "ok" := by
  let p : Process := { Storage.unused with book := ∅, events := [] }
  have hOk : (openRegistry.check.calm { Storage.unused with book := ∅, events := [] }).1 = .ok () := by
    decide +kernel
  refine ⟨p, (openRegistry.check.calm p).2, rfl, rfl, rfl, ⟨.none, .none, ?_⟩, ?_, ?_⟩
  · rw [run_eq_calm, hOk]
  · decide +kernel
  · decide +kernel

end Registry
end Accounts
