import Accounts.Proofs.Registry.Confidentiality
import Accounts.Proofs.Registry.Reading

/-! A registry answers what a ledger tells. Each operation on a process that shows a ledger answers
what is told by the ledger, and leaves a process that shows the ledger after it. -/
namespace Accounts.Registry
open Process Accounts.Action

variable {r : Registry} {p : Process} {m : Book} {g : GroupName} {key : String}

/-! ## Writing -/

theorem calm_backendSet (hKey : KeyFile.isKey key = true)
    (hSecret : r.secrets.isSecretKey key = true) (g : GroupName) (value : String) (p : Process) :
    (r.backend.set g key value).calm p = (.ok (), p.store r g key value) := by
  unfold store
  cases hBackend : r.backend with
  | inline =>
      rw [slot_of_inline hBackend]
      exact Store.calm_set hKey value p
  | keyring ring =>
      rw [slot_of_keyring hBackend hSecret]
      rfl

theorem calm_store (hKey : KeyFile.isKey key = true) (g : GroupName) (value : String)
    (p : Process) :
    (if r.secrets.isSecretKey key then r.backend.set g key value else Store.set g key value).calm p =
      (.ok (), p.store r g key value) := by
  cases hSecret : r.secrets.isSecretKey key with
  | true => exact calm_backendSet hKey hSecret g value p
  | false =>
      rw [store, slot_of_not_secret hSecret]
      exact Store.calm_set hKey value p

/-- A write that the ledger takes is carried out, and one that it refuses does nothing. -/
theorem calm_write (hSecrets : r.secrets.Storable) (h : p.Shows r m) (hProper : Ledger.Proper m)
    (g : GroupName) (key : String) (value : Value) :
    (r.write g key value).calm p = match Ledger.write m g key value.encode with
      | .ok _ => (.ok (), p.store r g key value.encode)
      | .error e => (.error e, p) := by
  rw [write, calm_ensureLive_bind h hProper, Ledger.write, SortedMap.contains]
  cases m.get? g with
  | none => rfl
  | some a =>
      dsimp only
      rw [Option.isSome_some, if_pos rfl]
      by_cases hReserved : key = managerKey ∨ key = protocolKey ∨ key = pendingKey
      · rw [if_pos hReserved, if_pos hReserved]
        rfl
      · rw [if_neg hReserved, if_neg hReserved]
        cases hKey : KeyFile.isKey key with
        | true => exact calm_store hKey g value.encode p
        | false =>
            have hFind : [(key, value.encode)].find? (fun e => !KeyFile.isKey e.1) =
                some (key, value.encode) := by
              simp [hKey]
            rw [hSecrets.isSecretKey_eq_false hKey, if_neg Bool.false_ne_true]
            exact Store.calm_setMany_of_find hFind p

theorem follows_write (hSecrets : r.secrets.Storable) (h : p.Shows r m)
    (hProper : Ledger.Proper m) (g : GroupName) (key : String) (value : Value) :
    Follows r p (r.write g key value) ((Ledger.write m g key value.encode).map ((), ·)) := by
  have hRun := calm_write hSecrets h hProper g key value
  cases hWrite : Ledger.write m g key value.encode with
  | error e =>
      rw [hWrite] at hRun
      exact hRun
  | ok m' =>
      rw [hWrite] at hRun
      obtain ⟨hThere, hOwner, hMark, rfl⟩ := Ledger.of_write_eq_ok hWrite
      exact ⟨_, hRun, h.store hThere key value.encode, hProper.write hThere hOwner hMark⟩

theorem follows_remove (h : p.Shows r m) (hProper : Ledger.Proper m) (g : GroupName) :
    Follows r p (r.remove g) ((Ledger.remove m g).map ((), ·)) := by
  rw [Ledger.remove]
  cases hThere : m.contains g with
  | false => exact calm_remove_of_not_contains ((h.contains g).trans hThere)
  | true =>
      have hPlace := slot_of_not_secret (r := r) r.secrets.isSecretKey_pendingKey g
      have hMarked : (p.save (p.book.write g [(pendingKey, "true")])).Shows r
          (m.write g [(pendingKey, "true")]) :=
        h.write (List.forall_mem_singleton.mpr hPlace)
      have hDropped := hMarked.drop g
      rw [Book.erase_write] at hDropped
      refine ⟨_, calm_remove ((h.contains g).trans hThere), ?_, hProper.erase g⟩
      rw [isPending_eq_false h hProper g, if_neg Bool.false_ne_true]
      exact hDropped.notify (.removed g)

/-! ## Creating -/

theorem isEquivalent_eq (h : p.Shows r m) (manager protocol : String)
    (params : SortedMap String Value) (g : GroupName) :
    r.isEquivalent manager protocol (r.plainParams params) (p.book.attributes g) =
      Ledger.isTwin r.secrets manager protocol params (m.attributes g) := by
  have hPlain : ∀ key, r.secrets.isSecretKey key = false →
      (p.book.attributes g).get? key = (m.attributes g).get? key := by
    intro key hKey
    rw [Book.get?_attributes, Book.get?_attributes, h.book_value (slot_of_not_secret hKey g)]
  have hParams : SortedMap.filter (p.book.attributes g)
      (fun key _ => (paramName? key).isSome && !r.secrets.isSecretKey key) =
      SortedMap.filter ((m.attributes g).withoutSecrets r.secrets)
        fun key _ => (paramName? key).isSome := by
    rw [← withoutSecrets_eq h]
    apply SortedMap.ext_get?
    intro key
    rw [SortedMap.get?_filter, SortedMap.get?_filter, Attributes.get?_withoutSecrets]
    cases r.secrets.isSecretKey key <;> cases (p.book.attributes g).get? key <;> simp [Option.filter]
  rw [isEquivalent, Ledger.isTwin, hPlain _ r.secrets.isSecretKey_managerKey,
    hPlain _ r.secrets.isSecretKey_protocolKey, hParams, Ledger.plainParams_eq]

theorem equivalent?_eq (h : p.Shows r m) (hProper : Ledger.Proper m) (manager protocol : String)
    (params : SortedMap String Value) :
    r.equivalent? p.book manager protocol (r.plainParams params) =
      Ledger.twin? r.secrets m manager protocol params := by
  rw [equivalent?, Ledger.twin?, liveGroups_eq_keys h hProper]
  congr 1
  funext g
  exact isEquivalent_eq h manager protocol params g

/-- A group whose mark is removed holds what the ledger records of its account. -/
theorem eraseKey_pendingKey_eq (m : Book) (g : GroupName) (manager protocol : String)
    (params : SortedMap String Value) :
    Book.eraseKey (m.insert g ((r.initialAttributes manager protocol params).insertMany
      (r.secretParams params))) g pendingKey =
        m.insert g (Ledger.accountAttributes manager protocol params) := by
  have hManager := Ledger.get?_of_not_secret r params manager protocol
    r.secrets.isSecretKey_managerKey
  rw [get?_initialAttributes_managerKey] at hManager
  have hDistinct : pendingKey ≠ managerKey := by decide
  apply SortedMap.ext_get?
  intro g'
  by_cases hEq : g = g'
  · subst hEq
    rw [Book.get?_eraseKey_of_ne (SortedMap.get?_insert_self ..) hManager hDistinct,
      Ledger.accountAttributes_eq, SortedMap.get?_insert_self]
  · rw [Book.get?_eraseKey, if_neg hEq, SortedMap.get?_insert, if_neg hEq, SortedMap.get?_insert,
      if_neg hEq]

theorem calm_publish (hSecrets : r.secrets.Storable) (params : SortedMap String Value)
    (g : GroupName) (p : Process) :
    (r.publish g (r.secretParams params)).calm p = (Store.clearPending g).calm
      ((r.secretParams params).foldl (fun q e => q.store r g e.1 e.2) p) := by
  have hTurn : ∀ e ∈ r.secretParams params, ∀ q,
      (r.backend.set g e.1 e.2).calm q = (.ok (), q.store r g e.1 e.2) := by
    intro e he q
    have hSecret := isSecretKey_of_mem_secretParams he
    exact calm_backendSet (hSecrets.isKey hSecret) hSecret g e.2 q
  rw [publish]
  exact calm_bind_ok (calm_forM hTurn p)

/-- A process that wrote everything of a new group, where it belongs. -/
def written (r : Registry) (p : Process) (g : GroupName) (manager protocol : String)
    (params : SortedMap String Value) : Process :=
  (r.secretParams params).foldl (fun q e => q.store r g e.1 e.2)
    (p.save (p.book.write g (r.initialAttributes manager protocol params).toList))

theorem shows_written (h : p.Shows r m) (hNew : m.get? g = none) (manager protocol : String)
    (params : SortedMap String Value) :
    (r.written p g manager protocol params).Shows r
      (m.insert g ((r.initialAttributes manager protocol params).insertMany
        (r.secretParams params))) := by
  have hPlain : ∀ e ∈ (r.initialAttributes manager protocol params).toList,
      r.slot g e.1 = none := by
    intro e he
    exact slot_of_not_secret (isSecretKey_of_mem_initialAttributes (List.mem_map_of_mem he)) g
  rw [← Book.write_toList_write hNew]
  apply (h.write hPlain).foldl_store
  rw [Book.contains_write, if_pos rfl]

/-- The group shows once its mark is gone, and then holds everything that the ledger records. -/
theorem calm_clearPending_written (h : p.Shows r m) (hNew : m.get? g = none)
    (manager protocol : String) (params : SortedMap String Value) :
    ∃ q, (Store.clearPending g).calm (r.written p g manager protocol params) = (.ok (), q) ∧
      q.Shows r (m.insert g (Ledger.accountAttributes manager protocol params)) := by
  have hWritten := shows_written h hNew manager protocol params
  have hMark := Ledger.get?_of_not_secret r params manager protocol
    r.secrets.isSecretKey_pendingKey
  have hManager := Ledger.get?_of_not_secret r params manager protocol
    r.secrets.isSecretKey_managerKey
  rw [get?_initialAttributes_pendingKey, ← Book.value?_insert_self m g] at hMark
  rw [get?_initialAttributes_managerKey, ← Book.value?_insert_self m g] at hManager
  have hPlaceMark := slot_of_not_secret (r := r) r.secrets.isSecretKey_pendingKey g
  have hPlaceManager := slot_of_not_secret (r := r) r.secrets.isSecretKey_managerKey g
  have hShown := hWritten.eraseKey hPlaceMark hPlaceManager hManager (by decide)
  rw [eraseKey_pendingKey_eq] at hShown
  refine ⟨_, ?_, hShown⟩
  rw [Store.clearPending, Store.calm_delete, hWritten.book_value hPlaceMark, hMark]
  rfl

theorem follows_establish (hSecrets : r.secrets.Storable) (h : p.Shows r m)
    (hProper : Ledger.Proper m) (hNew : m.get? g = none) (manager protocol : String)
    (params : SortedMap String Value) :
    let a := Ledger.accountAttributes manager protocol params
    Follows r p
      (r.establish g (r.initialAttributes manager protocol params) (r.secretParams params))
      (match a.toList.find? fun e => !KeyFile.isKey e.1 with
      | some e => .error (.invalidValue "attribute key" e.1)
      | none => .ok (g, m.insert g a)) := by
  intro a
  rw [← Ledger.find?_initialAttributes r params hSecrets manager protocol]
  cases hInvalid : (r.initialAttributes manager protocol params).toList.find?
      fun e => !KeyFile.isKey e.1 with
  | some e => exact calm_establish_of_find hInvalid
  | none =>
      have hKeys : ∀ e ∈ (r.initialAttributes manager protocol params).toList,
          KeyFile.isKey e.1 = true := by
        simpa using List.find?_eq_none.mp hInvalid
      obtain ⟨q, hClear, hShown⟩ := calm_clearPending_written h hNew manager protocol params
      refine ⟨q.notify (.created g), ?_, hShown.notify _, hProper.insert manager protocol params⟩
      rw [written, ← calm_publish hSecrets] at hClear
      rw [calm_establish hKeys, hClear]

theorem follows_create (hSecrets : r.secrets.Storable) (h : p.Shows r m)
    (hProper : Ledger.Proper m) (manager protocol : String) (params : SortedMap String Value) :
    Follows r p (r.create manager protocol params)
      (Ledger.create r.secrets m manager protocol params) := by
  have hTwin := equivalent?_eq h hProper manager protocol params
  have hName := allocate_eq h.contains manager protocol (r.identity params)
  rw [Ledger.create, ← hTwin, ← Ledger.identity_eq, Ledger.newGroup_eq, ← hName]
  cases hEquivalent : r.equivalent? p.book manager protocol (r.plainParams params) with
  | some existing => exact calm_create_of_equivalent hEquivalent
  | none =>
      cases hAllocate : allocate p.book manager protocol (r.identity params) with
      | error e => exact calm_create_of_allocate_error hEquivalent hAllocate
      | ok g =>
          rw [hName] at hAllocate
          have hNew := get?_eq_none_of_allocate hAllocate
          have hEstablished := follows_establish hSecrets h hProper hNew manager protocol params
          exact hEstablished.congr (calm_create_of_allocate hEquivalent (hName.trans hAllocate))

/-! ## One operation -/

/-- Whatever a ledger is asked for, a registry answers what the ledger tells. -/
theorem obeys_apply (hSecrets : r.secrets.Storable) (h : p.Shows r m) (hProper : Ledger.Proper m)
    {op : Operation} (hOp : op.isRecorded r.secrets = true) :
    Obeys r p (op.action r) (Ledger.apply r.secrets m op) := by
  cases op with
  | create manager protocol params =>
      exact (follows_create hSecrets h hProper manager protocol params).obeys .group
  | setProperty g key value =>
      exact ((follows_write hSecrets h hProper g key value).emit (.altered g key)).done
  | setEnabled g enabled =>
      exact ((follows_write hSecrets h hProper g enabledKey (.bool enabled)).emit
        (.toggled g enabled)).done
  | read g key => exact .look h hProper (calm_read h hProper g key) (tells_text _ _)
  | getParam g name kind =>
      exact .look h hProper (calm_getParam h hProper g name kind) (tells_decode _ kind _)
  | getSecret g key =>
      exact .look h hProper (calm_getSecret h hProper hOp g) (tells_text _ _)
  | remove g => exact (follows_remove h hProper g).done
  | list =>
      have hRun : Registry.list.calm p = (.ok m.keys, p) := by
        rw [← liveGroups_eq_keys h hProper]
        rfl
      exact .look (x := .ok m.keys) h hProper hRun (.groups m.keys)
  | account g =>
      obtain ⟨answer, hRun, hTells⟩ := calm_account h hProper g
      exact .look h hProper hRun hTells
  | dump =>
      have hRun : r.dump.calm p = (.ok (p.book.visible r.secrets), p) := rfl
      exact .look (x := .ok m) h hProper hRun (.book (publishes_visible h hProper))
  | check => contradiction

end Accounts.Registry
