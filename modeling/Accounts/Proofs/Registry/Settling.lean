import Accounts.Proofs.Registry.Reads
import Accounts.Proofs.Registry.Recovery

/-! Removals and openings, which settle. Wherever one of them is cut off, and whatever fails during
it, what is to come of the process stays the same. -/
namespace Accounts.Registry
open Process Accounts.Action

variable {r : Registry} {g : GroupName} {p q : Process} {s : Process × Faults}

/-- Since `p` nothing has changed but a group that does not show. -/
structure Aside (r : Registry) (g : GroupName) (p q : Process) : Prop where
  same : SameOff r g p q
  hidden : q.book.isLive g = false
  owned : q.Owned r

/-- What is to come of a process once a registry was opened on what it leaves. -/
structure SettlesTo (r : Registry) (target : Book × Vault) (p : Process) : Prop where
  owned : p.Owned r
  settled_eq : p.settled r = target

theorem Aside.refl (hOwned : p.Owned r) (hHidden : p.book.isLive g = false) : Aside r g p p :=
  ⟨SameOff.refl, hHidden, hOwned⟩

theorem Aside.settlesTo (h : Aside r g p q) (hOwned : p.Owned r)
    (hHidden : p.book.isLive g = false) : SettlesTo r (p.settled r) q :=
  ⟨h.owned, settled_eq_of_sameOff h.same hOwned h.owned hHidden h.hidden⟩

theorem Aside.remove (h : Aside r g p q) {e : Entry} (he : e ∈ r.entries g) :
    Aside r g p (q.withVault (q.vault.erase e)) := by
  refine ⟨h.same.trans (sameOff_remove he q), h.hidden, h.owned.of_sameOff (sameOff_remove he q) ?_⟩
  intro hGone e' he'
  rw [withVault_vault, SortedMap.get?_erase]
  split_ifs
  · rfl
  · exact h.owned g hGone e' he'

theorem isLive_of_get?_eq_none {book : Book} (h : book.get? g = none) : book.isLive g = false := by
  rw [Book.isLive, h]
  rfl

theorem isLive_of_isPending {book : Book} (h : book.isPending g = true) : book.isLive g = false := by
  obtain ⟨a, ha, hMark⟩ := Book.isPending_eq_true_iff.mp h
  simp [Book.isLive, ha, hMark]

/-! ## Removal -/

theorem keeps_deleteSecret {J : Process → Prop} {ring : Keyring} {key : String}
    (hRemove : ∀ q, J q → J (q.withVault (q.vault.erase (ring.entry g key)))) (hStart : J s.1) :
    Keeps host (fun s' => J s'.1) (ring.delete g key) s fun answer s' =>
      answer = .ok () → s'.1 = s.1.withVault (s.1.vault.erase (ring.entry g key)) := by
  have hDelete := atomic_remove ring g key s
  refine (hDelete.keeps hStart fun _ q hT => ?_).mono fun answer s' _ hT hOk => ?_
  · rcases hT with ⟨_, rfl⟩ | ⟨_, rfl | rfl⟩
    · exact hRemove s.1 hStart
    · exact hStart
    · exact hRemove s.1 hStart
  · rcases hT with ⟨_, hGone⟩ | ⟨⟨e, hError⟩, _⟩
    · exact hGone
    · rw [hError] at hOk
      contradiction

/-- One secret after the other goes, and a secret that is gone does not come back. Whatever the loss
of a secret of the group does not break holds throughout. -/
theorem keeps_deleteSecrets {J : Process → Prop}
    (hRemove : ∀ e ∈ r.entries g, ∀ q, J q → J (q.withVault (q.vault.erase e))) (hStart : J s.1) :
    Keeps host (fun s' => J s'.1)
      (r.serviceKeys.forM fun key => r.backend.delete g key) s fun answer s' =>
        answer = .ok () → ∀ e ∈ r.entries g, SortedMap.get? s'.1.vault e = none := by
  cases hBackend : r.backend with
  | inline =>
      have hNone : r.serviceKeys = [] := by simp [serviceKeys, hBackend, Backend.isInline]
      rw [hNone]
      refine Keeps.pure hStart fun _ e he => ?_
      simp [entries_of_inline hBackend] at he
  | keyring ring =>
      have hKeys : r.serviceKeys = r.secrets.keys := by
        simp [serviceKeys, hBackend, Backend.isInline]
      rw [hKeys]
      refine Keeps.forM (R := fun rest (s' : Process × Faults) => rest ⊆ r.secrets.keys ∧
        ∀ key ∈ r.secrets.keys, key ∈ rest ∨ SortedMap.get? s'.1.vault (ring.entry g key) = none)
        hStart ⟨List.Subset.refl _, fun key hKey => Or.inl hKey⟩ ?_ ?_
      · intro key rest s' hJ ⟨hRest, hDone⟩
        have hEntry : ring.entry g key ∈ r.entries g := by
          rw [entries_of_keyring hBackend]
          exact List.mem_map_of_mem (hRest List.mem_cons_self)
        apply (keeps_deleteSecret (hRemove _ hEntry) hJ).mono
        intro answer s'' _ hGone
        cases answer with
        | error e =>
            intro hOk
            contradiction
        | ok _ =>
            refine ⟨fun key' hKey' => hRest (List.mem_cons_of_mem key hKey'), fun key' hKey' => ?_⟩
            rw [hGone rfl, withVault_vault, SortedMap.get?_erase]
            by_cases hEq : ring.entry g key = ring.entry g key'
            · simp [hEq]
            · rw [if_neg hEq]
              refine (hDone key' hKey').imp_left fun hMem => ?_
              exact (List.mem_cons.mp hMem).resolve_left fun h => hEq (by rw [h])
      · intro s' _ hDone _ e he
        rw [entries_of_keyring hBackend] at he
        obtain ⟨key, hKey, rfl⟩ := List.mem_map.mp he
        exact (hDone.2 key hKey).resolve_left (by simp)

/-- Removing a group that does not show settles, whether it is cut off, whether anything fails, or
neither. -/
theorem keeps_finishRemoval (hOwned : s.1.Owned r) (hHidden : s.1.book.isLive g = false) :
    Keeps host (fun s' => SettlesTo r (s.1.settled r) s'.1) (r.finishRemoval g) s
      fun _ _ => True := by
  have hAside := Aside.refl hOwned hHidden
  refine Keeps.imp (I := fun s' => Aside r g s.1 s'.1) ?_ fun s' h => h.settlesTo hOwned hHidden
  rw [finishRemoval_eq]
  refine Keeps.tryCatch (R := fun _ _ => True) ?_ (fun _ _ _ _ => trivial)
    fun e s' hAside' _ => Keeps.throw hAside' trivial
  have hSecrets := keeps_deleteSecrets (s := s) (fun e he q (h : Aside r g s.1 q) => h.remove he) hAside
  refine hSecrets.bind (fun _ s' hAside' hGone => ?_) fun _ _ _ _ => trivial
  refine Keeps.bind ((atomic_deleteGroup g s').keeps hAside' fun _ q hT => ?_)
    (fun _ _ hAside'' _ => Keeps.pure hAside'' trivial) fun _ _ _ _ => trivial
  rcases hT with ⟨_, rfl⟩ | ⟨_, rfl⟩
  · split_ifs
    · have hNone : (s'.1.save (s'.1.book.erase g)).book.get? g = none := by simp
      refine ⟨hAside'.same.trans (sameOff_erase s'.1 g), isLive_of_get?_eq_none hNone, ?_⟩
      exact hAside'.owned.of_sameOff (sameOff_erase s'.1 g) fun _ e he => hGone rfl e he
    · exact hAside'
  · exact hAside'

theorem keeps_abandon (hOwned : s.1.Owned r) (hHidden : s.1.book.isLive g = false) :
    Keeps host (fun s' => SettlesTo r (s.1.settled r) s'.1) (r.abandon g) s fun _ _ => True :=
  (keeps_finishRemoval hOwned hHidden).tryCatch (fun _ _ _ _ => trivial)
    fun _ _ hSettles _ => Keeps.pure hSettles trivial

/-! ## Opening -/

theorem keeps_cleanUp {target : Book × Vault} (hSettles : SettlesTo r target s.1) :
    Keeps host (fun s' => SettlesTo r target s'.1) r.cleanUp s fun _ _ => True := by
  apply keeps_book
  refine Keeps.forM (R := fun gs (s' : Process × Faults) => ∀ g ∈ gs, s'.1.book.isLive g = false)
    hSettles (fun g hPending => ?_) ?_ fun _ _ _ => trivial
  · exact isLive_of_isPending (Book.mem_pendingGroups.mp hPending)
  · intro g rest s' hSettles' hHidden
    have hAbandon := keeps_abandon hSettles'.owned (hHidden g List.mem_cons_self)
    rw [hSettles'.settled_eq] at hAbandon
    refine hAbandon.mono ?_
    intro answer s'' hSettles'' _
    cases answer with
    | error e => trivial
    | ok _ =>
        intro g' hRest
        rw [isLive_eq_of_settled_eq (hSettles''.settled_eq.trans hSettles'.settled_eq.symm)]
        exact hHidden g' (List.mem_cons_of_mem g hRest)

theorem inlineSecrets_eq_nil {book : Book}
    (h : book.AllKeys fun key => r.secrets.isSecretKey key = false) : r.inlineSecrets book = [] := by
  simp only [inlineSecrets, List.flatMap_eq_nil_iff, List.map_eq_nil_iff, List.filter_eq_nil_iff]
  intro entry hEntry e he
  have hKey := h entry.1 entry.2 (SortedMap.mem_toList_iff.mp hEntry) e.1
    (List.mem_map_of_mem he)
  simp [hKey]

/-- Where the file has no secrets that belong into a service there is nothing to migrate. -/
theorem keeps_migrate_nothing {I : Process × Faults → Prop} (hI : I s)
    (hAllowed : s.1.book.AllKeys r.Allows) :
    Keeps host I r.migrate s fun answer s' => answer = .ok () ∧ s' = s := by
  cases hBackend : r.backend.isInline with
  | true =>
      rw [migrate_inline hBackend]
      exact Keeps.pure hI ⟨rfl, rfl⟩
  | false =>
      rw [migrate_eq hBackend]
      apply keeps_book
      have hPlain := hAllowed.mono fun _ h => h.2.resolve_left (by simp [hBackend])
      rw [inlineSecrets_eq_nil hPlain]
      exact Keeps.pure hI ⟨rfl, rfl⟩

/-- Opening a registry settles, whether it is cut off, whether anything fails, or neither. -/
theorem keeps_openUp (hOwned : s.1.Owned r) (hAllowed : s.1.book.AllKeys r.Allows) :
    Keeps host (fun s' => SettlesTo r (s.1.settled r) s'.1) r.openUp s fun _ _ => True := by
  have hSettles : SettlesTo r (s.1.settled r) s.1 := ⟨hOwned, rfl⟩
  refine (keeps_migrate_nothing hSettles hAllowed).bind ?_ fun _ _ _ _ => trivial
  intro _ s' hSettles' _
  exact keeps_cleanUp hSettles'

end Accounts.Registry
