import Accounts.Proofs.Registry.Calm
import Accounts.Proofs.Registry.Crash

/-! An operation that nothing disturbs leaves no group pending. -/
namespace Accounts.Registry
open Process Accounts.Action

variable {r : Registry} {g : GroupName} {p q : Process}

theorem no_pending_of_sameOff (h : p.book.pendingGroups = []) (hSame : SameOff r g p q)
    (hGroup : q.book.isPending g = false) : q.book.pendingGroups = [] := by
  rw [Book.pendingGroups_eq_nil_iff] at h ⊢
  intro g'
  by_cases hEq : g' = g
  · rw [hEq]
    exact hGroup
  · rw [Book.isPending, hSame.book g' hEq]
    exact h g'

theorem Written.isPending (h : Written r g p q) (hNone : p.book.isPending g = false) :
    q.book.isPending g = false := by
  cases h with
  | service e value _ => exact hNone
  | file key value hKey =>
      rw [save_book, Book.isPending_write _ _ _ _ hKey]
      exact hNone

theorem no_pending_write (h : p.book.pendingGroups = []) (g : GroupName) (key : String)
    (value : Value) : ((r.write g key value).calm p).2.book.pendingGroups = [] := by
  rcases (atomic_write g key value (p, .none)).2 with hSame | ⟨_, hWritten⟩
  · rw [calm, hSame]
    exact h
  · refine no_pending_of_sameOff h hWritten.sameOff (hWritten.isPending ?_)
    exact Book.pendingGroups_eq_nil_iff.mp h g

theorem no_pending_setAttribute (h : p.book.pendingGroups = []) (g : GroupName) (key : String)
    (value : Value) (event : Event) :
    ((r.write g key value >>= fun _ => Action.emit event).calm p).2.book.pendingGroups = [] := by
  have hWrite := no_pending_write (r := r) h g key value
  rw [calm_bind]
  cases hRun : (r.write g key value).calm p with
  | mk answer q =>
      rw [hRun] at hWrite
      cases answer with
      | ok _ => exact hWrite
      | error e => exact hWrite

theorem sameOff_drop (p : Process) (g : GroupName) : SameOff r g p (p.drop r g) := by
  refine ⟨fun g' hNe => ?_, fun e he => ?_⟩
  · rw [drop_book, SortedMap.get?_erase, if_neg (Ne.symm hNe)]
  · rw [drop_vault, Vault.get?_without, if_neg he]

theorem isPending_erase (book : Book) (g : GroupName) :
    Book.isPending (book.erase g) g = false := by
  simp [Book.isPending]

theorem no_pending_remove (h : p.book.pendingGroups = []) (g : GroupName) :
    ((r.remove g).calm p).2.book.pendingGroups = [] := by
  cases hThere : p.book.contains g with
  | false =>
      rw [calm_remove_of_not_contains hThere]
      exact h
  | true =>
      rw [calm_remove hThere, Book.pendingGroups_eq_nil_iff.mp h g, if_neg Bool.false_ne_true]
      have hSame := (sameOff_write (r := r) p g [(pendingKey, "true")]).trans (sameOff_drop _ g)
      refine no_pending_of_sameOff h (hSame.notify _) ?_
      rw [notify_book, drop_book]
      exact isPending_erase _ g

/-- Writing the secrets of a new group changes that group only. -/
theorem stable_sameOff_secrets {es : List (String × String)}
    (hSecret : ∀ e ∈ es, r.secrets.isSecretKey e.1 = true) :
    Stable (SameOff r g p) (es.forM fun e => r.backend.set g e.1 e.2) := by
  refine Preserves.forM fun e he => ?_
  have hKey : e.1 ≠ pendingKey := by
    intro hEq
    have hContra := hSecret e he
    rw [hEq, SecretNames.isSecretKey_pendingKey] at hContra
    contradiction
  refine Stable.of_atomic (atomic_backendSet e.1 e.2 hKey (hSecret e he) g)
    fun s _ q hSame hT => ?_
  rcases hT with rfl | hWritten
  · exact hSame
  · exact hSame.trans hWritten.sameOff

/-- Removing the mark of a group works, and changes that group only. -/
theorem calm_clearPending (r : Registry) (p : Process) (g : GroupName) :
    ∃ q, (Store.clearPending g).calm p = (.ok (), q) ∧ SameOff r g p q ∧
      q.book.isPending g = false := by
  rw [Store.clearPending, Store.calm_delete]
  cases hMark : (p.book.value? g pendingKey).isSome with
  | false =>
      refine ⟨p, rfl, SameOff.refl, ?_⟩
      rw [Book.isPending_eq_isSome]
      exact hMark
  | true =>
      refine ⟨_, rfl, sameOff_eraseKey p g pendingKey, ?_⟩
      exact Book.isPending_eraseKey p.book g

theorem no_pending_establish (h : p.book.pendingGroups = []) {a : Attributes}
    {secrets : List (String × String)} (hSecret : ∀ e ∈ secrets, r.secrets.isSecretKey e.1 = true) :
    ((r.establish g a secrets).calm p).2.book.pendingGroups = [] := by
  cases hFind : a.toList.find? fun e => !KeyFile.isKey e.1 with
  | some e =>
      rw [calm_establish_of_find hFind]
      exact h
  | none =>
      have hKeys : ∀ e ∈ a.toList, KeyFile.isKey e.1 = true := by
        simpa using List.find?_eq_none.mp hFind
      have hWrite := sameOff_write (r := r) p g a.toList
      have hSecrets := calm_of_stable (stable_sameOff_secrets hSecret) hWrite
      rw [calm_establish hKeys, publish, calm_bind]
      cases hRun : (secrets.forM fun e => r.backend.set g e.1 e.2).calm
          (p.save (p.book.write g a.toList)) with
      | mk answer q =>
          rw [hRun] at hSecrets
          cases answer with
          | ok _ =>
              obtain ⟨q', hClear, hSame, hMark⟩ := calm_clearPending r q g
              dsimp only
              rw [hClear]
              exact no_pending_of_sameOff h ((hSecrets.trans hSame).notify _) hMark
          | error e =>
              apply no_pending_of_sameOff h (hSecrets.trans (sameOff_drop q g))
              rw [drop_book]
              exact isPending_erase q.book g

theorem no_pending_create (h : p.book.pendingGroups = []) (manager protocol : String)
    (params : SortedMap String Value) :
    ((r.create manager protocol params).calm p).2.book.pendingGroups = [] := by
  cases hTwin : r.equivalent? p.book manager protocol (r.plainParams params) with
  | some existing =>
      rw [calm_create_of_equivalent hTwin]
      exact h
  | none =>
      cases hName : allocate p.book manager protocol (r.identity params) with
      | error e =>
          rw [calm_create_of_allocate_error hTwin hName]
          exact h
      | ok g =>
          rw [calm_create_of_allocate hTwin hName]
          exact no_pending_establish h fun e he => isSecretKey_of_mem_secretParams he

theorem no_pending_mutation (h : p.book.pendingGroups = []) {op : Operation}
    (hOp : op.isMutation = true) : ((op.action r).calm p).2.book.pendingGroups = [] := by
  cases op, hOp using Operation.mutation_cases with
  | create manager protocol params =>
      rw [Operation.action, calm_map]
      exact no_pending_create h manager protocol params
  | setProperty g key value =>
      rw [Operation.action, calm_map]
      exact no_pending_setAttribute h g key value _
  | setEnabled g enabled =>
      rw [Operation.action, calm_map]
      exact no_pending_setAttribute h g enabledKey _ _
  | remove g =>
      rw [Operation.action, calm_map]
      exact no_pending_remove h g

end Accounts.Registry
