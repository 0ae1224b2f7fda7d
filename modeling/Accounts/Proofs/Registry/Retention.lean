import Accounts.Proofs.Registry.LiveView

/-! What a group keeps for as long as it is in the book. The registry writes the attributes that an
account is known by once, when it founds the group of the account, and from then on takes them away
together with the group only. So under keys that are neither of a mark nor of a secret nor of a
property that is set, a group has the same values until it is gone. -/
namespace Accounts

/-- Of a group that is still there, nothing was lost, changed or added under the given keys. -/
def Book.Retains (K : String → Prop) (g : GroupName) (b b' : Book) : Prop :=
  b'.contains g = true → b.contains g = true ∧ ∀ key, K key → b'.value? g key = b.value? g key

namespace Book.Retains

variable {K : String → Prop} {g : GroupName} {b b' b'' : Book}

theorem refl : Retains K g b b := fun hThere => ⟨hThere, fun _ _ => rfl⟩

theorem trans (hFirst : Retains K g b b') (hSecond : Retains K g b' b'') : Retains K g b b'' := by
  intro hThere
  obtain ⟨hThere', hSame'⟩ := hSecond hThere
  obtain ⟨hThere'', hSame⟩ := hFirst hThere'
  exact ⟨hThere'', fun key hKey => (hSame' key hKey).trans (hSame key hKey)⟩

theorem of_get?_eq (hEq : b'.get? g = b.get? g) : Retains K g b b' := by
  intro hThere
  rw [SortedMap.contains, hEq] at hThere
  exact ⟨hThere, fun key _ => by rw [Book.value?, Book.value?, hEq]⟩

theorem erase (h : GroupName) : Retains K g b (SortedMap.erase b h) := by
  by_cases hEq : h = g
  · intro hThere
    simp [SortedMap.contains, hEq] at hThere
  · exact of_get?_eq (by rw [SortedMap.get?_erase, if_neg hEq])

theorem eraseKey (h : GroupName) {key : String} (hKey : ¬K key) :
    Retains K g b (b.eraseKey h key) := by
  by_cases hEq : h = g
  · subst hEq
    intro hThere
    constructor
    · cases hGroup : b.get? h with
      | some a => rw [SortedMap.contains, hGroup, Option.isSome_some]
      | none =>
          rw [SortedMap.contains, Book.get?_eraseKey, if_pos rfl, hGroup] at hThere
          contradiction
    · intro key' hKey'
      have hNe : key ≠ key' := fun hSame => hKey (hSame ▸ hKey')
      rw [Book.value?_eraseKey, if_neg fun hBoth => hNe hBoth.2]
  · exact of_get?_eq (by rw [Book.get?_eraseKey, if_neg hEq])

/-- Writing under other keys takes nothing from a group that is there. -/
theorem write {h : GroupName} (hThere : b.contains h = true) {entries : List (String × String)}
    (hKeys : ∀ e ∈ entries, ¬K e.1) : Retains K g b (b.write h entries) := by
  by_cases hEq : h = g
  · subst hEq
    intro _
    apply And.intro hThere
    intro key hKey
    have hOther : ∀ e ∈ entries, e.1 ≠ key := fun e he hSame => hKeys e he (hSame ▸ hKey)
    rw [Book.value?_write, if_pos rfl, SortedMap.get?_insertMany_of_notMem _ hOther,
      Book.get?_attributes]
  · exact of_get?_eq (by rw [Book.get?_write, if_neg hEq])

end Book.Retains

/-- The like for a process, with the book that it holds. -/
def Process.Retains (K : String → Prop) (g : GroupName) (b : Book) (p : Process) : Prop :=
  b.Retains K g p.book

/-- The like where another group, or the same one, is there. -/
def Process.RetainsWith (K : String → Prop) (g : GroupName) (b : Book) (h : GroupName)
    (p : Process) : Prop :=
  p.Retains K g b ∧ p.book.contains h = true

/-- Keys of which the registry writes none once a group is founded, unless an operation names the
key. -/
structure Registry.Spares (r : Registry) (K : String → Prop) : Prop where
  mark : ¬K pendingKey
  secrets : ∀ key, r.secrets.isSecretKey key = true → ¬K key

/-- The operation writes under none of the keys, but for the two that are refused. -/
def Operation.Spares (K : String → Prop) : Operation → Prop
  | .setProperty _ key _ => K key → key = managerKey ∨ key = protocolKey
  | .setEnabled _ _ => ¬K enabledKey
  | _ => True

/-- All that matters is which property an operation sets. -/
theorem Operation.spares_of {K : String → Prop} {op : Operation} (hEnabled : ¬K enabledKey)
    (hSet : ∀ g key value, op = .setProperty g key value → K key →
      key = managerKey ∨ key = protocolKey) : op.Spares K := by
  cases op with
  | setProperty g key value => exact hSet g key value rfl
  | setEnabled g enabled => exact hEnabled
  | create manager protocol params => trivial
  | read g key => trivial
  | getParam g name kind => trivial
  | getSecret g key => trivial
  | remove g => trivial
  | list => trivial
  | account g => trivial
  | dump => trivial
  | check => trivial

namespace Registry
open Process Accounts.Action

variable {r : Registry} {K : String → Prop} {g h : GroupName} {b : Book} {p q : Process}
variable {s : Process × Faults}

/-! ## The store and the backend -/

theorem retains_of_sameOff (hNe : h ≠ g) (hSame : SameOff r h p q) (hKept : p.Retains K g b) :
    q.Retains K g b :=
  Book.Retains.trans hKept (.of_get?_eq (hSame.book g (Ne.symm hNe)))

theorem stable_retains_delete (h : GroupName) {key : String} (hKey : ¬K key) :
    Stable (Process.Retains K g b) (Store.delete h key) := by
  apply Stable.of_atomic (atomic_delete h key)
  intro s _ p hKept hT
  rcases hT with ⟨_, rfl⟩ | ⟨_, rfl⟩
  · split_ifs
    · exact Book.Retains.trans hKept (.eraseKey h hKey)
    · exact hKept
  · exact hKept

theorem stable_retains_deleteGroup (h : GroupName) :
    Stable (Process.Retains K g b) (Store.deleteGroup h) := by
  apply Stable.of_atomic (atomic_deleteGroup h)
  intro s _ p hKept hT
  rcases hT with ⟨_, rfl⟩ | ⟨_, rfl⟩
  · split_ifs
    · exact Book.Retains.trans hKept (.erase h)
    · exact hKept
  · exact hKept

/-- Writing is harmless where the group is there, since it cannot bring the group into being. -/
theorem stable_retainsWith_setMany {entries : List (String × String)}
    (hKeys : ∀ e ∈ entries, ¬K e.1) :
    Stable (Process.RetainsWith K g b h) (Store.setMany h entries) := by
  apply Stable.of_atomic (atomic_setMany h entries)
  intro s _ p ⟨hKept, hThere⟩ hT
  rcases hT with ⟨⟨_, rfl⟩, _⟩ | ⟨_, rfl⟩
  · constructor
    · exact Book.Retains.trans hKept (.write hThere hKeys)
    · rw [save_book, Book.contains_write, if_pos rfl]
  · exact ⟨hKept, hThere⟩

theorem stable_retains_markPending (hMark : ¬K pendingKey) (h : GroupName) :
    Stable (Process.Retains K g b) (Store.markPending h) := by
  apply Stable.of_atomic (atomic_markPending h)
  intro s _ p hKept hT
  rcases hT with ⟨_, hThere, rfl⟩ | ⟨_, rfl⟩
  · split_ifs
    · exact hKept
    · exact Book.Retains.trans hKept (.write hThere (List.forall_mem_singleton.mpr hMark))
  · exact hKept

/-- What is put into the service does not concern the book. -/
theorem stable_keyringSet {J : Process → Prop} (hJ : ∀ p vault, J p → J (p.withVault vault))
    (ring : Keyring) (h : GroupName) (key value : String) : Stable J (ring.set h key value) := by
  apply Stable.of_atomic (atomic_put ring h key value)
  intro s _ p hStart hT
  rcases hT with ⟨_, rfl⟩ | ⟨_, rfl | rfl⟩
  · exact hJ _ _ hStart
  · exact hStart
  · exact hJ _ _ hStart

theorem stable_retainsWith_backendSet {key : String} (hKey : ¬K key) (value : String) :
    Stable (Process.RetainsWith K g b h) (r.backend.set h key value) := by
  cases r.backend with
  | inline => exact stable_retainsWith_setMany (List.forall_mem_singleton.mpr hKey)
  | keyring ring => exact stable_keyringSet (fun _ _ hKept => hKept) ring h key value

theorem stable_retains_emit (event : Event) :
    Stable (Process.Retains K g b) (Action.emit event) :=
  fun _ hKept => Keeps.emit hKept trivial

/-! ## Removals -/

theorem stable_retains_finishRemoval (r : Registry) (h : GroupName) :
    Stable (Process.Retains K g b) (r.finishRemoval h) := by
  rw [finishRemoval_eq]
  apply Preserves.tryCatch
  · intro s hKept
    have hSecrets := keeps_deleteSecrets (r := r) (g := h) (s := s) (J := Process.Retains K g b)
      (fun _ _ _ hKept' => hKept') hKept
    apply hSecrets.bind
    · intro _ s' hKept' _
      have hGroup := stable_retains_deleteGroup (K := K) (g := g) (b := b) h
      exact (hGroup.bind fun _ => Preserves.pure _) s' hKept'
    · intros
      trivial
  · intro e
    exact Preserves.throw _

theorem stable_retains_abandon (r : Registry) (h : GroupName) :
    Stable (Process.Retains K g b) (r.abandon h) :=
  Preserves.tryCatch (stable_retains_finishRemoval r h) fun _ => Preserves.pure _

theorem stable_retains_remove (hMark : ¬K pendingKey) (r : Registry) (h : GroupName) :
    Stable (Process.Retains K g b) (r.remove h) := by
  apply Stable.book
  intro book
  split_ifs
  · exact Preserves.throw _
  · exact (stable_retains_markPending hMark h).bind fun _ =>
      (stable_retains_finishRemoval r h).bind fun _ => stable_retains_emit _

/-! ## Writes -/

theorem contains_of_isLive {book : Book} (h : book.isLive g = true) : book.contains g = true := by
  rw [Book.isLive_eq, Bool.and_eq_true] at h
  exact h.1

/-- What needs a live group goes on only where the group is live. -/
theorem keeps_ensureLive {α : Type} {I : Process × Faults → Prop} {f : Unit → Action α}
    {Q : Except Error α → Process × Faults → Prop} (hI : I s)
    (hLive : s.1.book.isLive h = true → Keeps host I (f ()) s Q)
    (hHidden : Q (.error (.unknownGroup h.sectionName)) s) :
    Keeps host I (ensureLive h >>= f) s Q := by
  rw [ensureLive, bind_assoc]
  apply keeps_book
  cases hGroup : s.1.book.isLive h with
  | true => exact hLive hGroup
  | false => exact Keeps.throw hI hHidden

theorem stable_retains_write (hSpares : r.Spares K) (h : GroupName) {key : String}
    (hKey : K key → key = managerKey ∨ key = protocolKey) (value : Value) :
    Stable (Process.Retains K g b) (r.write h key value) := by
  intro s hKept
  apply keeps_ensureLive hKept _ trivial
  intro hLive
  have hThere := contains_of_isLive hLive
  split_ifs with hReserved hSecret
  · exact Keeps.throw hKept trivial
  · have hSet := stable_retainsWith_backendSet (r := r) (g := g) (b := b) (h := h)
      (hSpares.secrets key hSecret) value.encode
    exact (hSet s ⟨hKept, hThere⟩).imp fun _ hKept' => hKept'.1
  · have hOther : ¬K key := fun hIn =>
      hReserved ((hKey hIn).imp_right Or.inl)
    have hSet : Stable (Process.RetainsWith K g b h) (Store.set h key value.encode) :=
      stable_retainsWith_setMany (List.forall_mem_singleton.mpr hOther)
    exact (hSet s ⟨hKept, hThere⟩).imp fun _ hKept' => hKept'.1

/-! ## Opening -/

theorem stable_retains_migrate (hSpares : r.Spares K) :
    Stable (Process.Retains K g b) r.migrate := by
  cases hBackend : r.backend with
  | inline =>
      rw [migrate_inline (by rw [hBackend]; rfl)]
      exact Preserves.pure _
  | keyring ring =>
      apply stable_migrate
      intro h key value hSecret
      have hPut : Stable (Process.Retains K g b) (r.backend.set h key value) := by
        rw [hBackend]
        exact stable_keyringSet (fun _ _ hKept => hKept) ring h key value
      exact hPut.bind fun _ => stable_retains_delete h (hSpares.secrets key hSecret)

theorem stable_retains_openUp (hSpares : r.Spares K) :
    Stable (Process.Retains K g b) r.openUp :=
  (stable_retains_migrate hSpares).bind fun _ =>
    Stable.book fun _ => Preserves.forM fun h _ => stable_retains_abandon r h

/-! ## Operations -/

theorem stable_retainsWith_roundTrip {key : String} (hKey : ¬K key) :
    Stable (Process.RetainsWith K g b checkGroup) (r.roundTrip key) := by
  apply (stable_retainsWith_backendSet hKey checkValue).bind
  intro _
  apply (stable_backendGet r.backend checkGroup key).bind
  intro value
  split_ifs
  · exact Preserves.pure _
  · exact Preserves.throw _

theorem keeps_retains_checkMarked (hKept : s.1.RetainsWith K g b checkGroup)
    (hKey : ¬K r.checkKey) :
    Keeps host (fun s' => s'.1.Retains K g b) r.checkMarked s fun _ _ => True := by
  have hRound := (stable_retainsWith_roundTrip (r := r) hKey).attempt s hKept
  apply (hRound.imp fun _ hKept' => hKept'.1).bind
  · intro outcome s' hKept' _
    apply ((stable_retains_finishRemoval r checkGroup).attempt s' hKept').bind
    · intro cleanup s'' hKept'' _
      cases outcome with
      | ok _ => exact Keeps.ofExcept hKept'' trivial
      | error e => exact Keeps.throw hKept'' trivial
    · intros
      trivial
  · intros
    trivial

/-- The check writes into its own group, and only if that is hidden. -/
theorem keeps_retains_check (hMark : ¬K pendingKey) (hThere : s.1.book.contains g = true)
    (hKey : s.1.book.isLive g = true ∨ ¬K r.checkKey) :
    Keeps host (fun s' => s'.1.Retains K g s.1.book) r.check s fun _ _ => True := by
  by_cases hEq : g = checkGroup
  -- The check refuses if its own group shows, so it writes into a pending one at most.
  · subst hEq
    rw [check_eq]
    apply keeps_book
    split_ifs with hLive
    · exact Keeps.throw Book.Retains.refl trivial
    · have hBegin : Keeps host (fun s' => s'.1.Retains K checkGroup s.1.book)
          (Store.setMany checkGroup [(pendingKey, "true")]) s
          fun _ s' => s'.1.RetainsWith K checkGroup s.1.book checkGroup := by
        have hSet : Stable (Process.RetainsWith K checkGroup s.1.book checkGroup)
            (Store.setMany checkGroup [(pendingKey, "true")]) :=
          stable_retainsWith_setMany (List.forall_mem_singleton.mpr hMark)
        have hKeeps := hSet s ⟨Book.Retains.refl, hThere⟩
        exact (hKeeps.mono fun _ _ hKept _ => hKept).imp fun _ hKept => hKept.1
      apply hBegin.bind
      · intro _ s' _ hKept
        exact keeps_retains_checkMarked hKept (hKey.resolve_left hLive)
      · intros
        trivial
  · have hApart := stable_apart_check r s.1 s Apart.refl
    apply hApart.imp
    intro s' hApart'
    exact Book.Retains.of_get?_eq (hApart'.book g hEq)

/-- A creation leaves the groups alone that are there. -/
theorem keeps_retains_create (hThere : s.1.book.contains g = true) (manager protocol : String)
    (params : SortedMap String Value) :
    Keeps host (fun s' => s'.1.Retains K g s.1.book) (r.create manager protocol params) s
      fun _ _ => True := by
  apply keeps_create_of_closedAt (J := Process.Retains K g s.1.book)
  · intro h hNew
    have hNe : h ≠ g := by
      rintro rfl
      rw [SortedMap.contains, hNew] at hThere
      contradiction
    exact closedAt_of_sameOff fun _ _ => retains_of_sameOff hNe
  · exact Book.Retains.refl

/-- Operations other than a creation and the check bring no group into being. -/
theorem stable_retains_action (hSpares : r.Spares K) {op : Operation} (hOp : op.Spares K)
    (hCreate : ∀ manager protocol params, op ≠ .create manager protocol params)
    (hCheck : op ≠ .check) : Stable (Process.Retains K g b) (op.action r) := by
  rcases op.isMutation_or_isRead with hMutation | hEq | hRead
  · cases op, hMutation using Operation.mutation_cases with
    | create manager protocol params => exact absurd rfl (hCreate manager protocol params)
    | setProperty h key value =>
        exact ((stable_retains_write hSpares h hOp value).bind fun _ => stable_retains_emit _).map
    | setEnabled h enabled =>
        have hKey : K enabledKey → enabledKey = managerKey ∨ enabledKey = protocolKey :=
          fun hIn => absurd hIn hOp
        exact ((stable_retains_write hSpares h hKey _).bind fun _ => stable_retains_emit _).map
    | remove h => exact (stable_retains_remove hSpares.mark r h).map
  · exact absurd hEq hCheck
  · exact stable_action hRead

/-- Whatever the operation, wherever it is cut off and whatever fails, a group that is there when it
starts keeps what it has under the keys that the operation spares. -/
theorem keeps_retains_action (hSpares : r.Spares K) {op : Operation} (hOp : op.Spares K)
    (hThere : s.1.book.contains g = true) (hKey : s.1.book.isLive g = true ∨ ¬K r.checkKey) :
    Keeps host (fun s' => s'.1.Retains K g s.1.book) (op.action r) s fun _ _ => True := by
  by_cases hCheck : op = .check
  · subst hCheck
    exact (keeps_retains_check hSpares.mark hThere hKey).map
  · by_cases hCreate : ∃ manager protocol params, op = .create manager protocol params
    · obtain ⟨manager, protocol, params, rfl⟩ := hCreate
      exact (keeps_retains_create hThere manager protocol params).map
    · have hOther : ∀ manager protocol params, op ≠ .create manager protocol params :=
        fun manager protocol params hEq => hCreate ⟨manager, protocol, params, hEq⟩
      exact stable_retains_action hSpares hOp hOther hCheck s Book.Retains.refl

end Registry
end Accounts
