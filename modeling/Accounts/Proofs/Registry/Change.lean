import Accounts.Proofs.Registry.Reads
import Accounts.Proofs.Registry.Recovery

/-! What a registry may do to a process with a single effect. Its operations are sequences of such
effects, whatever fails among them, so what no single effect breaks no operation breaks, wherever it
is cut off. -/
namespace Accounts.Registry
open Process Accounts.Action

/-- What one effect of a registry may make of a process. -/
inductive Change (r : Registry) (p : Process) : Process → Prop
  | write (g : GroupName) (entries : List (String × String)) (hKeys : ∀ e ∈ entries, r.Writes e.1) :
      Change r p (p.save (p.book.write g entries))
  | eraseKey (g : GroupName) (key : String) : Change r p (p.save (p.book.eraseKey g key))
  | erase (g : GroupName) : Change r p (p.save (p.book.erase g))
  | put (g : GroupName) (e : Entry) (hEntry : e ∈ r.entries g) (value : String) :
      Change r p (p.withVault (p.vault.put e value))
  | remove (g : GroupName) (e : Entry) (hEntry : e ∈ r.entries g) :
      Change r p (p.withVault (p.vault.erase e))
  | notify (event : Event) : Change r p (p.notify event)

/-- A property of processes that no effect of the registry breaks. -/
def Closed (r : Registry) (J : Process → Prop) : Prop :=
  ∀ p q, Change r p q → J p → J q

/-- A property of processes that no effect of the registry breaks as long as it changes one group
only. -/
def ClosedAt (r : Registry) (g : GroupName) (J : Process → Prop) : Prop :=
  ∀ p q, Change r p q → SameOff r g p q → J p → J q

theorem Closed.within {r : Registry} {J : Process → Prop} (hJ : r.Closed J) (g : GroupName) :
    r.ClosedAt g J :=
  fun p q hChange _ => hJ p q hChange

/-- What holds of a process whatever becomes of one group is broken by no effect there. -/
theorem closedAt_of_sameOff {r : Registry} {g : GroupName} {J : Process → Prop}
    (hJ : ∀ p q, SameOff r g p q → J p → J q) : r.ClosedAt g J :=
  fun p q _ => hJ p q

/-- Moving secrets one by one from the file to the backend is all that a migration does. -/
theorem stable_migrate {r : Registry} {J : Process → Prop}
    (hMove : ∀ g key value, r.secrets.isSecretKey key = true → Stable J (r.moveSecret g key value)) :
    Stable J r.migrate := by
  cases hInline : r.backend.isInline with
  | true =>
      rw [migrate_inline hInline]
      exact Preserves.pure _
  | false =>
      rw [migrate_eq hInline]
      refine Stable.book fun b => Preserves.forM fun e he => ?_
      exact hMove e.1 e.2.1 e.2.2 (isSecretKey_of_mem_inlineSecrets he)

namespace ClosedAt

variable {r : Registry} {g : GroupName} {J : Process → Prop} (hJ : r.ClosedAt g J)
include hJ

/-! ## The store and the backend -/

theorem setMany {entries : List (String × String)}
    (hKeys : ∀ e ∈ entries, KeyFile.isKey e.1 = true → r.Writes e.1) :
    Stable J (Store.setMany g entries) := by
  refine Stable.of_atomic (atomic_setMany g entries) fun s _ p hStart hT => ?_
  rcases hT with ⟨⟨_, rfl⟩, hValid⟩ | ⟨_, rfl⟩
  · exact hJ _ _ (.write g entries fun e he => hKeys e he (hValid e he)) (sameOff_write _ g _) hStart
  · exact hStart

theorem set {key value : String} (hKey : KeyFile.isKey key = true → r.Writes key) :
    Stable J (Store.set g key value) :=
  hJ.setMany (List.forall_mem_singleton.mpr hKey)

theorem delete (key : String) : Stable J (Store.delete g key) := by
  refine Stable.of_atomic (atomic_delete g key) fun s _ p hStart hT => ?_
  rcases hT with ⟨_, rfl⟩ | ⟨_, rfl⟩
  · split_ifs
    · exact hJ _ _ (.eraseKey g key) (sameOff_eraseKey _ g key) hStart
    · exact hStart
  · exact hStart

theorem deleteGroup : Stable J (Store.deleteGroup g) := by
  refine Stable.of_atomic (atomic_deleteGroup g) fun s _ p hStart hT => ?_
  rcases hT with ⟨_, rfl⟩ | ⟨_, rfl⟩
  · split_ifs
    · exact hJ _ _ (.erase g) (sameOff_erase _ g) hStart
    · exact hStart
  · exact hStart

theorem markPending : Stable J (Store.markPending g) := by
  refine Stable.of_atomic (atomic_markPending g) fun s _ p hStart hT => ?_
  rcases hT with ⟨_, _, rfl⟩ | ⟨_, rfl⟩
  · split_ifs
    · exact hStart
    · exact hJ _ _ (.write g _ (List.forall_mem_singleton.mpr r.writes_pendingKey))
        (sameOff_write _ g _) hStart
  · exact hStart

theorem emit (event : Event) : Stable J (Action.emit event) :=
  fun _ hStart => Keeps.emit (hJ _ _ (.notify event) (SameOff.refl.notify event) hStart) trivial

/-- A key that is not secret is written to a backend only if the entry may be put there. -/
theorem backendPut {key : String} (value : String)
    (hPut : ∀ ring, r.backend = .keyring ring → ∀ p, J p →
      J (p.withVault (p.vault.put (ring.entry g key) value))) :
    Stable J (r.backend.set g key value) := by
  cases hBackend : r.backend with
  | inline =>
      have hInline : r.backend.isInline = true := by rw [hBackend]; rfl
      exact hJ.set fun hKey => ⟨hKey, Or.inl hInline⟩
  | keyring ring =>
      refine Stable.of_atomic (atomic_put ring g key value) fun s _ p hStart hT => ?_
      rcases hT with ⟨_, rfl⟩ | ⟨_, rfl | rfl⟩
      · exact hPut ring hBackend _ hStart
      · exact hStart
      · exact hPut ring hBackend _ hStart

theorem backendSet {key : String} (hSecret : r.secrets.isSecretKey key = true) (value : String) :
    Stable J (r.backend.set g key value) := by
  refine hJ.backendPut value fun ring hBackend p hStart => ?_
  have hEntry : ring.entry g key ∈ r.entries g := (mem_entries hBackend).mpr ⟨key, hSecret, rfl⟩
  exact hJ _ _ (.put g _ hEntry value) (sameOff_put hEntry p value) hStart

theorem backendDelete {key : String} (hSecret : r.secrets.isSecretKey key = true) :
    Stable J (r.backend.delete g key) := by
  cases hBackend : r.backend with
  | inline => exact hJ.delete key
  | keyring ring =>
      have hEntry : ring.entry g key ∈ r.entries g := (mem_entries hBackend).mpr ⟨key, hSecret, rfl⟩
      refine Stable.of_atomic (atomic_remove ring g key) fun s _ p hStart hT => ?_
      rcases hT with ⟨_, rfl⟩ | ⟨_, rfl | rfl⟩
      · exact hJ _ _ (.remove g _ hEntry) (sameOff_remove hEntry _) hStart
      · exact hStart
      · exact hJ _ _ (.remove g _ hEntry) (sameOff_remove hEntry _) hStart

/-! ## The operations on a group -/

theorem finishRemoval : Stable J (r.finishRemoval g) := by
  rw [finishRemoval_eq]
  refine Preserves.tryCatch ?_ fun e => Preserves.throw _
  apply Preserves.bind
  · refine Preserves.forM fun key hKey => hJ.backendDelete ?_
    unfold serviceKeys at hKey
    split_ifs at hKey
    · contradiction
    · exact (SecretNames.mem_keys_iff r.secrets).mp hKey
  · intro _
    exact hJ.deleteGroup.bind fun _ => Preserves.pure _

theorem abandon : Stable J (r.abandon g) :=
  Preserves.tryCatch hJ.finishRemoval fun _ => Preserves.pure _

theorem publish {entries : List (String × String)}
    (hSecret : ∀ e ∈ entries, r.secrets.isSecretKey e.1 = true) :
    Stable J (r.publish g entries) :=
  Preserves.bind (Preserves.forM fun e he => hJ.backendSet (hSecret e he) e.2)
    fun _ => hJ.delete pendingKey

theorem establish {a : Attributes} {entries : List (String × String)}
    (hPlain : ∀ key ∈ a.keys, r.secrets.isSecretKey key = false)
    (hSecret : ∀ e ∈ entries, r.secrets.isSecretKey e.1 = true) :
    Stable J (r.establish g a entries) := by
  apply Preserves.bind
  · refine hJ.setMany fun e he hKey => ⟨hKey, Or.inr ?_⟩
    exact hPlain e.1 (List.mem_map_of_mem he)
  · intro _
    apply Preserves.bind
    · refine Preserves.tryCatch (hJ.publish hSecret) fun e => ?_
      exact hJ.abandon.bind fun _ => Preserves.throw e
    · intro _
      exact (hJ.emit _).bind fun _ => Preserves.pure g

theorem write (key : String) (value : Value) : Stable J (r.write g key value) := by
  refine (stable_ensureLive g).bind fun _ => ?_
  split_ifs with _ hSecret
  · exact Preserves.throw _
  · exact hJ.backendSet hSecret value.encode
  · exact hJ.set fun hKey => ⟨hKey, Or.inr (by simpa using hSecret)⟩

theorem removal : Stable J (r.remove g) := by
  refine Stable.book fun b => ?_
  split_ifs
  · exact Preserves.throw _
  · exact hJ.markPending.bind fun _ => hJ.finishRemoval.bind fun _ => hJ.emit _

omit hJ

/-- The backend check writes one entry, which no secret name may stand for. -/
theorem check {r : Registry} {J : Process → Prop} (hJ : r.ClosedAt checkGroup J)
    (hPut : ∀ ring, r.backend = .keyring ring → ∀ p, J p →
      J (p.withVault (p.vault.put (ring.entry checkGroup r.checkKey) checkValue))) :
    Stable J r.check := by
  refine Stable.book fun b => ?_
  split_ifs
  · exact Preserves.throw _
  · have hMark : Stable J (Store.set checkGroup pendingKey "true") :=
      hJ.set fun _ => r.writes_pendingKey
    refine hMark.bind fun _ => Preserves.bind (Preserves.attempt ?_) fun outcome => ?_
    · refine (hJ.backendPut checkValue hPut).bind fun _ =>
        (stable_backendGet r.backend _ _).bind fun value => ?_
      split_ifs
      · exact Preserves.pure _
      · exact Preserves.throw _
    · refine (Preserves.attempt hJ.finishRemoval).bind fun cleanup => ?_
      cases outcome with
      | ok _ => exact Preserves.ofExcept cleanup
      | error e => exact Preserves.throw e

end ClosedAt

/-- A creation fails before it has any effect, or it establishes the group that it is given the name
of. Then no account is like the new one. -/
theorem keeps_create_of_allocate {r : Registry} {I : Process × Faults → Prop}
    {s : Process × Faults} {manager protocol : String} {params : SortedMap String Value}
    {Q : Except Error GroupName → Process × Faults → Prop} (hI : I s)
    (hTwin : ∀ existing,
      r.equivalent? s.1.book manager protocol (r.plainParams params) = some existing →
        Q (.error (.duplicateAccount existing.sectionName)) s)
    (hNameless : ∀ e, allocate s.1.book manager protocol (r.identity params) = .error e →
      Q (.error e) s)
    (hNew : r.equivalent? s.1.book manager protocol (r.plainParams params) = none →
      ∀ g, allocate s.1.book manager protocol (r.identity params) = .ok g → Keeps host I
        (r.establish g (r.initialAttributes manager protocol params) (r.secretParams params)) s Q) :
    Keeps host I (r.create manager protocol params) s Q := by
  rw [create_eq]
  apply keeps_book
  cases hEquivalent : r.equivalent? s.1.book manager protocol (r.plainParams params) with
  | some existing => exact Keeps.throw hI (hTwin existing hEquivalent)
  | none =>
      apply keeps_book
      cases hName : allocate s.1.book manager protocol (r.identity params) with
      | error e => exact Keeps.throw hI (hNameless e hName)
      | ok g => exact hNew hEquivalent g hName

/-- A creation fails before it has any effect, or it establishes a group that was not there. -/
theorem keeps_create_of_establish {r : Registry} {I : Process × Faults → Prop} {s : Process × Faults}
    {manager protocol : String} {params : SortedMap String Value}
    {Q : Except Error GroupName → Process × Faults → Prop} (hI : I s) (hFailed : ∀ e, Q (.error e) s)
    (hNew : ∀ g, s.1.book.get? g = none → Keeps host I
      (r.establish g (r.initialAttributes manager protocol params) (r.secretParams params)) s Q) :
    Keeps host I (r.create manager protocol params) s Q :=
  keeps_create_of_allocate hI (fun _ _ => hFailed _) (fun e _ => hFailed e)
    fun _ g hName => hNew g (get?_eq_none_of_allocate hName)

/-- A creation changes nothing but a group that was not there. -/
theorem keeps_create_of_closedAt {r : Registry} {J : Process → Prop} {s : Process × Faults}
    (hJ : ∀ g, s.1.book.get? g = none → r.ClosedAt g J) (hStart : J s.1)
    (manager protocol : String) (params : SortedMap String Value) :
    Keeps host (fun s' => J s'.1) (r.create manager protocol params) s fun _ _ => True := by
  refine keeps_create_of_establish hStart (fun _ => trivial) fun g hNew => ?_
  refine (hJ g hNew).establish ?_ ?_ s hStart
  · exact fun _ hKey => isSecretKey_of_mem_initialAttributes hKey
  · exact fun _ he => isSecretKey_of_mem_secretParams he

namespace Closed

variable {r : Registry} {J : Process → Prop} (hJ : r.Closed J)
include hJ

theorem delete (g : GroupName) (key : String) : Stable J (Store.delete g key) :=
  (hJ.within g).delete key

theorem removal (g : GroupName) : Stable J (r.remove g) := (hJ.within g).removal

theorem check (hPut : ∀ ring, r.backend = .keyring ring → ∀ p, J p →
      J (p.withVault (p.vault.put (ring.entry checkGroup r.checkKey) checkValue))) :
    Stable J r.check :=
  (hJ.within checkGroup).check hPut

theorem mutation {op : Operation} (hOp : op.isMutation = true) : Stable J (op.action r) := by
  cases op, hOp using Operation.mutation_cases with
  | create manager protocol params =>
      exact Preserves.map fun s hStart =>
        keeps_create_of_closedAt (fun g _ => hJ.within g) hStart manager protocol params
  | setProperty g key value =>
      exact (((hJ.within g).write key value).bind fun _ => (hJ.within g).emit _).map
  | setEnabled g enabled =>
      exact (((hJ.within g).write enabledKey _).bind fun _ => (hJ.within g).emit _).map
  | remove g => exact (hJ.removal g).map

theorem action {op : Operation} (hOp : op ≠ .check) : Stable J (op.action r) := by
  rcases op.isMutation_or_isRead with hMutation | hCheck | hRead
  · exact hJ.mutation hMutation
  · contradiction
  · exact stable_action hRead

/-- The check may put an entry that is no secret of its group. -/
theorem action_of_put (hPut : ∀ e value p, J p → J (p.withVault (p.vault.put e value)))
    (op : Operation) : Stable J (op.action r) := by
  by_cases hOp : op = .check
  · subst hOp
    exact (hJ.check fun ring _ => hPut (ring.entry checkGroup r.checkKey) checkValue).map
  · exact hJ.action hOp

/-! ## Opening -/

theorem migrate : Stable J r.migrate :=
  stable_migrate fun g key value hSecret =>
    ((hJ.within g).backendSet hSecret value).bind fun _ => hJ.delete g key

theorem cleanUp : Stable J r.cleanUp :=
  Stable.book fun _ => Preserves.forM fun g _ => (hJ.within g).abandon

theorem openUp : Stable J r.openUp :=
  hJ.migrate.bind fun _ => hJ.cleanUp

end Closed
end Accounts.Registry
