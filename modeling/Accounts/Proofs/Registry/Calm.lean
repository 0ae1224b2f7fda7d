import Accounts.Proofs.Book
import Accounts.Proofs.Calm

/-! What the store, the secret service and the registry do when nothing fails. -/
namespace Accounts

open Process

variable {p : Process} {g : GroupName}

namespace Store

theorem calm_setMany {entries : List (String × String)}
    (h : ∀ e ∈ entries, KeyFile.isKey e.1 = true) (p : Process) :
    (setMany g entries).calm p = (.ok (), p.save (p.book.write g entries)) := by
  have hFind : entries.find? (fun e => !KeyFile.isKey e.1) = none := by
    simpa using h
  rw [setMany, hFind]
  rfl

theorem calm_setMany_of_find {entries : List (String × String)} {e : String × String}
    (h : entries.find? (fun e => !KeyFile.isKey e.1) = some e) (p : Process) :
    (setMany g entries).calm p = (.error (.invalidValue "attribute key" e.1), p) := by
  rw [setMany, h]
  rfl

theorem calm_set {key : String} (hKey : KeyFile.isKey key = true) (value : String) (p : Process) :
    (set g key value).calm p = (.ok (), p.save (p.book.write g [(key, value)])) := by
  apply calm_setMany
  rw [List.forall_mem_singleton]
  exact hKey

theorem calm_get (key : String) (p : Process) :
    (get g key).calm p = match p.book.value? g key with
      | some value => (.ok value, p)
      | none => (.error (.notFound g.sectionName key), p) := by
  rw [get, Action.calm_book]
  cases p.book.value? g key with
  | some value => rfl
  | none => rfl

theorem calm_delete (key : String) (p : Process) :
    (delete g key).calm p =
      (.ok (), if (p.book.value? g key).isSome then p.save (p.book.eraseKey g key) else p) := by
  rw [delete, Action.calm_book]
  cases (p.book.value? g key).isSome with
  | true => rfl
  | false => rfl

theorem calm_deleteGroup (p : Process) :
    (deleteGroup g).calm p =
      (.ok (p.book.contains g), if p.book.contains g then p.save (p.book.erase g) else p) := by
  rw [deleteGroup, Action.calm_book]
  cases p.book.contains g with
  | true => rfl
  | false => rfl

theorem calm_markPending (h : p.book.contains g = true) :
    (markPending g).calm p = (.ok (), if p.book.isPending g then p
      else p.save (p.book.write g [(pendingKey, "true")])) := by
  rw [markPending, Action.calm_book, h]
  cases p.book.isPending g with
  | true => rfl
  | false =>
      exact calm_set Registry.isKey_pendingKey "true" p

end Store

namespace Keyring

variable (ring : Keyring) (key value : String)

theorem calm_set (p : Process) :
    (ring.set g key value).calm p =
      (.ok (), p.withVault (p.vault.put (ring.entry g key) value)) := rfl

theorem calm_get (p : Process) :
    (ring.get g key).calm p = match SortedMap.get? p.vault (ring.entry g key) with
      | some value => (.ok value, p)
      | none => (.error (.notFound g.sectionName key), p) := by
  have hHost : host.get (ring.entry g key) (p, .none) =
      ((p.vault.read (ring.entry g key)).mapError .refused, p, .none) := rfl
  simp only [Action.calm, get, ExceptT.run_mk, Program.run, hHost, Vault.read]
  cases SortedMap.get? p.vault (ring.entry g key) with
  | some value => rfl
  | none => rfl

theorem calm_delete (p : Process) :
    (ring.delete g key).calm p =
      (.ok (), p.withVault (p.vault.erase (ring.entry g key))) := by
  have hHost : host.delete (ring.entry g key) (p, .none) =
      (((if p.vault.contains (ring.entry g key) then .ok "" else .error .noEntry :
          Except ServiceError String).mapError .refused).map fun _ => (),
        p.withVault (p.vault.erase (ring.entry g key)), .none) := by
    simp only [host, call, Vault.serve_delete]
    rfl
  simp only [Action.calm, delete, ExceptT.run_mk, Program.run, hHost]
  cases p.vault.contains (ring.entry g key) with
  | true => rfl
  | false => rfl

end Keyring

namespace Process

/-- The process without a group and its secrets. -/
def drop (r : Registry) (p : Process) (g : GroupName) : Process :=
  let cleared := p.withVault (p.vault.without (r.entries g))
  if p.book.contains g then cleared.save (p.book.erase g) else cleared

@[simp] theorem drop_book (r : Registry) (p : Process) (g : GroupName) :
    (p.drop r g).book = p.book.erase g := by
  unfold drop
  cases hThere : p.book.contains g with
  | true => rfl
  | false => exact (SortedMap.erase_eq_self (by simpa [SortedMap.contains] using hThere)).symm

@[simp] theorem drop_vault (r : Registry) (p : Process) (g : GroupName) :
    (p.drop r g).vault = p.vault.without (r.entries g) := by
  unfold drop
  cases p.book.contains g with
  | true => rfl
  | false => rfl

end Process

namespace Registry

variable {r : Registry}

theorem calm_ensureLive (g : GroupName) (p : Process) :
    (ensureLive g).calm p =
      (if p.book.isLive g then .ok () else .error (.unknownGroup g.sectionName), p) := by
  rw [ensureLive, Action.calm_book]
  cases p.book.isLive g with
  | true => rfl
  | false => rfl

theorem calm_serviceKeys (g : GroupName) (p : Process) :
    (r.serviceKeys.forM fun key => r.backend.delete g key).calm p =
      (.ok (), p.withVault (p.vault.without (r.entries g))) := by
  cases hBackend : r.backend with
  | inline =>
      have hNone : r.serviceKeys = [] := by simp [serviceKeys, hBackend, Backend.isInline]
      rw [hNone, entries_of_inline hBackend, Vault.without_nil]
      rfl
  | keyring ring =>
      have hKeys : r.serviceKeys = r.secrets.keys := by
        simp [serviceKeys, hBackend, Backend.isInline]
      have hTurn : ∀ key ∈ r.secrets.keys, ∀ p, (ring.delete g key).calm p =
          (.ok (), p.withVault (p.vault.erase (ring.entry g key))) :=
        fun key _ p => ring.calm_delete key p
      rw [hKeys, entries_of_keyring hBackend]
      refine (Action.calm_forM hTurn p).trans (congrArg (Prod.mk _) ?_)
      generalize r.secrets.keys = keys
      induction keys generalizing p with
      | nil => rw [List.map_nil, Vault.without_nil, List.foldl_nil]; rfl
      | cons key keys ih =>
          rw [List.foldl_cons, ih, List.map_cons, Vault.without_cons]
          rfl

theorem calm_finishRemoval (g : GroupName) (p : Process) :
    (r.finishRemoval g).calm p = (.ok (), p.drop r g) := by
  rw [finishRemoval_eq, Action.calm_tryCatch, Action.calm_bind_ok (calm_serviceKeys g p),
    Action.calm_bind_ok (Store.calm_deleteGroup _)]
  rfl

theorem calm_abandon (g : GroupName) (p : Process) :
    (r.abandon g).calm p = (.ok (), p.drop r g) := by
  rw [abandon, Action.calm_tryCatch, calm_finishRemoval]

theorem calm_cleanUp (p : Process) :
    r.cleanUp.calm p = (.ok (), p.book.pendingGroups.foldl (Process.drop r) p) :=
  Action.calm_forM (fun g _ p => calm_abandon g p) p

theorem get?_foldl_drop (gs : List GroupName) (p : Process) (g : GroupName) :
    (gs.foldl (Process.drop r) p).book.get? g = if g ∈ gs then none else p.book.get? g := by
  induction gs generalizing p with
  | nil => rfl
  | cons head gs ih =>
      rw [List.foldl_cons, ih, drop_book, SortedMap.get?_erase]
      by_cases hHead : head = g
      · simp [hHead]
      · simp [hHead, Ne.symm hHead]

/-- Nothing is pending any more once cleaning up is done. -/
theorem pendingGroups_calm_cleanUp (p : Process) :
    (r.cleanUp.calm p).2.book.pendingGroups = [] := by
  rw [calm_cleanUp, Book.pendingGroups_eq_nil_iff]
  intro g
  rw [Book.isPending, get?_foldl_drop]
  split_ifs with hMem
  · rfl
  · rw [Book.mem_pendingGroups, Book.isPending] at hMem
    exact Bool.eq_false_iff.mpr hMem

theorem calm_remove_of_not_contains {p : Process} (h : p.book.contains g = false) :
    (r.remove g).calm p = (.error (.unknownGroup g.sectionName), p) := by
  rw [remove, Action.calm_book, h]
  rfl

theorem calm_remove {p : Process} (h : p.book.contains g = true) :
    (r.remove g).calm p = (.ok (),
      ((if p.book.isPending g then p else p.save (p.book.write g [(pendingKey, "true")])).drop
        r g).notify (.removed g)) := by
  rw [remove, Action.calm_book, h]
  change (Store.markPending g >>= fun _ => r.finishRemoval g >>= fun _ => _).calm p = _
  rw [Action.calm_bind_ok (Store.calm_markPending h), Action.calm_bind_ok (calm_finishRemoval g _)]
  rfl

theorem calm_create_of_equivalent {manager protocol : String} {params : SortedMap String Value}
    {existing : GroupName}
    (h : r.equivalent? p.book manager protocol (r.plainParams params) = some existing) :
    (r.create manager protocol params).calm p =
      (.error (.duplicateAccount existing.sectionName), p) := by
  rw [create_eq, Action.calm_book, h]
  rfl

theorem calm_create_of_allocate_error {manager protocol : String}
    {params : SortedMap String Value} {e : Error}
    (hNew : r.equivalent? p.book manager protocol (r.plainParams params) = none)
    (h : allocate p.book manager protocol (r.identity params) = .error e) :
    (r.create manager protocol params).calm p = (.error e, p) := by
  rw [create_eq, Action.calm_book, hNew]
  dsimp only
  rw [Action.calm_book, h]
  rfl

theorem calm_create_of_allocate {manager protocol : String} {params : SortedMap String Value}
    (hNew : r.equivalent? p.book manager protocol (r.plainParams params) = none)
    (h : allocate p.book manager protocol (r.identity params) = .ok g) :
    (r.create manager protocol params).calm p =
      (r.establish g (r.initialAttributes manager protocol params)
        (r.secretParams params)).calm p := by
  rw [create_eq, Action.calm_book, hNew]
  dsimp only
  rw [Action.calm_book, h]
  rfl

theorem calm_establish_of_find {a : Attributes} {secrets : List (String × String)}
    {e : String × String} (h : a.toList.find? (fun e => !KeyFile.isKey e.1) = some e) :
    (r.establish g a secrets).calm p = (.error (.invalidValue "attribute key" e.1), p) := by
  rw [establish, Action.calm_bind_error (Store.calm_setMany_of_find h p)]

/-- The group is there once its attributes are written, and gone again if its secrets are not. -/
theorem calm_establish {a : Attributes} (h : ∀ e ∈ a.toList, KeyFile.isKey e.1 = true)
    (secrets : List (String × String)) :
    (r.establish g a secrets).calm p =
      match (r.publish g secrets).calm (p.save (p.book.write g a.toList)) with
      | (.ok _, q) => (.ok g, q.notify (.created g))
      | (.error e, q) => (.error e, q.drop r g) := by
  rw [establish, Action.calm_bind_ok (Store.calm_setMany h p), Action.calm_bind,
    Action.calm_tryCatch]
  cases (r.publish g secrets).calm (p.save (p.book.write g a.toList)) with
  | mk answer q =>
      cases answer with
      | ok _ => rfl
      | error e =>
          dsimp only
          rw [Action.calm_bind_ok (calm_abandon g q)]
          rfl

end Registry
end Accounts
