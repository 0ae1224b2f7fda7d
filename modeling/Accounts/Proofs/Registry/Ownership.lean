import Accounts.Proofs.Registry.Crash

/-! Every secret keeps its group. No operation leaves a secret behind whose group is gone from the
book, whatever fails during it and wherever it is cut off. -/
namespace Accounts.Registry
open Process Accounts.Action

variable {r : Registry} {g : GroupName} {p : Process}

/-! ## The backend check -/

theorem owned_put {ring : Keyring} (hBackend : r.backend = .keyring ring) (key value : String)
    (hThere : p.book.get? g ≠ none) (hOwned : p.Owned r) :
    (p.withVault (p.vault.put (ring.entry g key) value)).Owned r := by
  intro h hGone e he
  obtain ⟨key', _, hEntry⟩ := (mem_entries hBackend).mp he
  have hNe : ring.entry g key ≠ e := by
    intro hEq
    obtain ⟨rfl, _⟩ := Keyring.entry_inj (hEq.trans hEntry.symm)
    exact hThere hGone
  rw [withVault_vault, Vault.put, SortedMap.get?_insert, if_neg hNe]
  exact hOwned h hGone e he

/-- The check writes under the key of a parameter. -/
theorem exists_paramName?_checkKey (r : Registry) : ∃ name, paramName? r.checkKey = some name := by
  unfold checkKey
  cases hKeys : r.secrets.keys with
  | nil => exact ⟨"password", paramName?_paramKey "password"⟩
  | cons key rest =>
      have hMem : key ∈ r.secrets.keys := by simp [hKeys]
      have hSecret := (SecretNames.mem_keys_iff r.secrets).mp hMem
      obtain ⟨name, hName, _⟩ := (Option.any_eq_true _ _).mp hSecret
      exact ⟨name, hName⟩

theorem checkKey_ne_pendingKey (r : Registry) : r.checkKey ≠ pendingKey := by
  intro hEq
  have hParam := r.exists_paramName?_checkKey
  rw [hEq] at hParam
  simp [paramName?, pendingKey] at hParam

/-- The group of the check is marked, and every secret has its group. -/
structure CheckBegun (r : Registry) (p : Process) : Prop where
  owned : p.Owned r
  isPending : p.book.isPending checkGroup = true

/-- The secret that the check writes belongs to a marked group. -/
theorem stable_roundTrip (r : Registry) : Stable (CheckBegun r) (r.roundTrip r.checkKey) := by
  refine Preserves.bind ?_ fun _ => Preserves.bind ?_ fun value => ?_
  · cases hBackend : r.backend with
    | inline =>
        refine Stable.of_atomic (atomic_setMany checkGroup [(r.checkKey, checkValue)])
          fun s _ p hJ hT => ?_
        rcases hT with ⟨⟨_, rfl⟩, _⟩ | ⟨_, rfl⟩
        · refine ⟨owned_write hJ.owned _ _, ?_⟩
          rw [save_book, Book.isPending_write _ _ _ _ (checkKey_ne_pendingKey r)]
          exact hJ.isPending
        · exact hJ
    | keyring ring =>
        refine Stable.of_atomic (atomic_put ring checkGroup r.checkKey checkValue)
          fun s _ p hJ hT => ?_
        have hThere : s.1.book.get? checkGroup ≠ none := by
          obtain ⟨a, ha, _⟩ := Book.isPending_eq_true_iff.mp hJ.isPending
          simp [ha]
        rcases hT with ⟨_, rfl⟩ | ⟨_, rfl | rfl⟩
        · exact ⟨owned_put hBackend _ _ hThere hJ.owned, hJ.isPending⟩
        · exact hJ
        · exact ⟨owned_put hBackend _ _ hThere hJ.owned, hJ.isPending⟩
  · exact stable_backendGet r.backend checkGroup r.checkKey
  · split
    · exact Preserves.pure _
    · exact Preserves.throw _

theorem stable_check (r : Registry) : Stable (Owned r) r.check := by
  refine Stable.book fun b => ?_
  split
  · exact Preserves.throw _
  · intro s hOwned
    have hMark := atomic_setMany checkGroup [(pendingKey, "true")] s
    refine Keeps.bind (hMark.keeps (J := Owned r) hOwned fun _ p hT => ?_)
      (fun _ s' hOwned' hT => ?_) fun _ _ _ _ => trivial
    · rcases hT with ⟨⟨_, rfl⟩, _⟩ | ⟨_, rfl⟩
      · exact owned_write hOwned _ _
      · exact hOwned
    · have hPending : s'.1.book.isPending checkGroup = true := by
        rcases hT with ⟨⟨_, hSaved⟩, _⟩ | ⟨⟨e, hError⟩, _⟩
        · rw [hSaved]
          exact Book.isPending_write_pendingKey s.1.book checkGroup "true"
        · contradiction
      have hBegun := (stable_roundTrip r).attempt s' ⟨hOwned', hPending⟩
      have hRound : Keeps host (fun s => s.1.Owned r) (Action.attempt (r.roundTrip r.checkKey)) s'
          fun _ s'' => s''.1.book.isPending checkGroup = true :=
        (hBegun.mono fun _ _ hJ _ => hJ.isPending).imp fun _ hJ => hJ.owned
      refine Keeps.bind hRound (fun outcome s'' hOwned'' hPending' => ?_) fun _ _ _ _ => trivial
      have hRemoval := keeps_finishRemoval (g := checkGroup) hOwned'' (isLive_of_isPending hPending')
      have hClean : Keeps host (fun s => s.1.Owned r) (r.finishRemoval checkGroup) s''
          fun _ _ => True := hRemoval.imp fun _ hSettles => hSettles.owned
      refine Keeps.bind (R := fun _ _ => True) (hClean.attempt fun _ _ _ _ => trivial)
        (fun cleanup s₃ hOwned₃ _ => ?_) fun _ _ _ _ => trivial
      cases outcome with
      | ok _ => exact Keeps.ofExcept hOwned₃ trivial
      | error e => exact Keeps.throw hOwned₃ trivial

/-! ## All operations -/

theorem Settles.stable {a : Action α} {R : Except Error α → Process → Prop}
    (h : ∀ s, s.1.Owned r → Settles r a.run s R) : Stable (Owned r) a :=
  fun s hOwned => ⟨fun s' hCut => ((h s hOwned).1 s' hCut).1, trivial⟩

/-- Secrets stay owned during every operation, whatever fails. -/
theorem stable_owned_action (op : Operation) : Stable (Owned r) (op.action r) := by
  rcases op.isMutation_or_isRead with hMutation | rfl | hRead
  · exact Settles.stable fun s hOwned => settles_mutation hOwned hMutation
  · exact (stable_check r).map
  · exact stable_action hRead

end Accounts.Registry
