import Accounts.Proofs.Registry.Intact
import Accounts.Proofs.Registry.Ownership
import Accounts.Proofs.Registry.Removal

/-! Pending groups. The mark of a group is an attribute like any other in the book, and all the
same nothing but the complete removal of the group takes it away, whatever registry is at work on
the book, whatever fails, and wherever a process is cut off. -/
namespace Accounts

/-- Nothing is left of the group that the registry could find. -/
structure Process.Gone (r : Registry) (g : GroupName) (p : Process) : Prop where
  group : p.book.contains g = false
  secrets : ∀ e ∈ r.entries g, SortedMap.get? p.vault e = none

/-- The group carries its mark. -/
def Process.Marked (g : GroupName) (p : Process) : Prop := p.book.isPending g = true

/-- The group is pending, or nothing is left of it. -/
def Process.Withheld (r : Registry) (g : GroupName) (p : Process) : Prop :=
  p.Marked g ∨ p.Gone r g

namespace Process.Untouched

variable {r : Registry} {g : GroupName} {p q : Process}

theorem gone (h : Untouched r g p q) (hGone : p.Gone r g) : q.Gone r g := by
  refine ⟨?_, fun e he => ?_⟩
  · rw [SortedMap.contains, h.book]
    exact hGone.group
  · rw [h.vault e he]
    exact hGone.secrets e he

theorem withheld (h : Untouched r g p q) (hHeld : p.Withheld r g) : q.Withheld r g := by
  refine hHeld.imp (fun hMark => ?_) h.gone
  rwa [Marked, Book.isPending, h.book]

end Process.Untouched

namespace Registry
open Process Accounts.Action

variable {r : Registry} {g h : GroupName} {p q : Process} {s : Process × Faults} {α : Type}

/-! ## Other groups -/

theorem closedAt_withheld (hNe : h ≠ g) : r.ClosedAt h (Withheld r g) :=
  closedAt_of_sameOff fun _ _ hSame => (hSame.untouched hNe).withheld

theorem isLive_of_withheld (hHeld : p.Withheld r g) : p.book.isLive g = false :=
  hHeld.elim isLive_of_isPending fun hGone =>
    isLive_of_get?_eq_none (by simpa [SortedMap.contains] using hGone.group)

/-! ## The mark -/

theorem keeps_withheld_of_marked {a : Action α} (h : Stable (Marked g) a) (hMark : s.1.Marked g) :
    Keeps host (fun s' => s'.1.Withheld r g) a s fun _ s' => s'.1.Marked g := by
  have hKeeps := h s hMark
  exact ⟨fun s' hCut => Or.inl (hKeeps.1 s' hCut), hKeeps.last⟩

theorem stable_marked_setMany (g h : GroupName) (entries : List (String × String)) :
    Stable (Marked g) (Store.setMany h entries) := by
  refine Stable.of_atomic (atomic_setMany h entries) fun s _ p hMark hT => ?_
  rcases hT with ⟨⟨_, rfl⟩, _⟩ | ⟨_, rfl⟩
  · exact Book.isPending_write_of_isPending hMark h entries
  · exact hMark

theorem stable_marked_delete (g h : GroupName) {key : String} (hKey : key ≠ pendingKey) :
    Stable (Marked g) (Store.delete h key) := by
  refine Stable.of_atomic (atomic_delete h key) fun s _ p hMark hT => ?_
  rcases hT with ⟨_, rfl⟩ | ⟨_, rfl⟩
  · split_ifs
    · rw [Marked, save_book, Book.isPending_eraseKey_of_ne _ _ _ hKey]
      exact hMark
    · exact hMark
  · exact hMark

/-- Secrets may be written into a pending group, in the file as well as in the service. -/
theorem stable_marked_backendSet (r : Registry) (g h : GroupName) (key value : String) :
    Stable (Marked g) (r.backend.set h key value) := by
  cases r.backend with
  | inline => exact stable_marked_setMany g h _
  | keyring ring =>
      refine Stable.of_atomic (atomic_put ring h key value) fun s _ p hMark hT => ?_
      rcases hT with ⟨_, rfl⟩ | ⟨_, rfl | rfl⟩
      · exact hMark
      · exact hMark
      · exact hMark

theorem stable_marked_markPending (g h : GroupName) : Stable (Marked g) (Store.markPending h) := by
  refine Stable.of_atomic (atomic_markPending h) fun s _ p hMark hT => ?_
  rcases hT with ⟨_, _, rfl⟩ | ⟨_, rfl⟩
  · split_ifs
    · exact hMark
    · exact Book.isPending_write_of_isPending hMark h _
  · exact hMark

theorem isSecretKey_ne_pendingKey {key : String} (hSecret : r.secrets.isSecretKey key = true) :
    key ≠ pendingKey := by
  rintro rfl
  rw [SecretNames.isSecretKey_pendingKey] at hSecret
  contradiction

theorem stable_marked_migrate (r : Registry) (g : GroupName) : Stable (Marked g) r.migrate :=
  stable_migrate fun h key value hSecret => (stable_marked_backendSet r g h key value).bind fun _ =>
    stable_marked_delete g h (isSecretKey_ne_pendingKey hSecret)

theorem stable_marked_roundTrip (r : Registry) (g : GroupName) (key : String) :
    Stable (Marked g) (r.roundTrip key) := by
  refine (stable_marked_backendSet r g checkGroup key checkValue).bind fun _ =>
    (stable_backendGet r.backend _ _).bind fun value => ?_
  split_ifs
  · exact Preserves.pure _
  · exact Preserves.throw _

/-! ## Removals -/

theorem Gone.remove (hGone : p.Gone r g) (e : Entry) :
    (p.withVault (p.vault.erase e)).Gone r g := by
  refine ⟨hGone.group, fun e' he' => ?_⟩
  rw [withVault_vault, SortedMap.get?_erase]
  split_ifs
  · rfl
  · exact hGone.secrets e' he'

/-- The group goes after its secrets. -/
theorem stable_withheld_finishRemoval (r : Registry) (g h : GroupName) :
    Stable (Withheld r g) (r.finishRemoval h) := by
  by_cases hNe : h = g
  · subst hNe
    rw [finishRemoval_eq]
    refine Preserves.tryCatch (fun s hHeld => ?_) fun e => Preserves.throw _
    have hSecrets := keeps_deleteSecrets (r := r) (g := h) (s := s) (J := Withheld r h)
      (fun e _ q hQ => hQ.imp id fun hGone => Gone.remove hGone e) hHeld
    refine hSecrets.bind (fun _ s' hHeld' hCleared => ?_) fun _ _ _ _ => trivial
    have hGroup : Keeps host (fun s'' => s''.1.Withheld r h) (Store.deleteGroup h) s'
        fun _ _ => True := by
      refine ((atomic_deleteGroup h s').keeps hHeld' fun _ q hT => ?_).mono fun _ _ _ _ => trivial
      rcases hT with ⟨_, rfl⟩ | ⟨_, rfl⟩
      · split_ifs
        · exact Or.inr ⟨by simp [SortedMap.contains], hCleared rfl⟩
        · exact hHeld'
      · exact hHeld'
    exact hGroup.bind (fun _ _ hHeld'' _ => Keeps.pure hHeld'' trivial) fun _ _ _ _ => trivial
  · exact (closedAt_withheld hNe).finishRemoval

theorem stable_withheld_abandon (r : Registry) (g h : GroupName) :
    Stable (Withheld r g) (r.abandon h) :=
  Preserves.tryCatch (stable_withheld_finishRemoval r g h) fun _ => Preserves.pure _

theorem stable_withheld_emit (r : Registry) (g : GroupName) (event : Event) :
    Stable (Withheld r g) (Action.emit event) :=
  fun _ hHeld => Keeps.emit (hHeld.imp id fun hGone => ⟨hGone.group, hGone.secrets⟩) trivial

/-! ## Operations -/

theorem stable_marked_write (r : Registry) (g h : GroupName) (key : String) (value : Value) :
    Stable (Marked g) (r.write h key value) := by
  refine (stable_ensureLive h).bind fun _ => ?_
  split_ifs
  · exact Preserves.throw _
  · exact stable_marked_backendSet r g h key value.encode
  · exact stable_marked_setMany g h _

theorem keeps_withheld_remove (hMark : s.1.Marked g) (h : GroupName) :
    Keeps host (fun s' => s'.1.Withheld r g) (r.remove h) s fun _ _ => True := by
  apply keeps_book
  split_ifs
  · exact Keeps.throw (Or.inl hMark) trivial
  · refine (keeps_withheld_of_marked (stable_marked_markPending g h) hMark).bind
      (fun _ s' hHeld _ => ?_) fun _ _ _ _ => trivial
    refine (stable_withheld_finishRemoval r g h s' hHeld).bind (fun _ s'' hHeld' _ => ?_)
      fun _ _ _ _ => trivial
    exact stable_withheld_emit r g _ s'' hHeld'

/-- What the check does once its group is marked. -/
def checkMarked (r : Registry) : Action Unit := do
  let outcome ← Action.attempt (r.roundTrip r.checkKey)
  let cleanup ← Action.attempt (r.finishRemoval checkGroup)
  match outcome with
  | .error e => throw e
  | .ok () => .ofExcept cleanup

theorem check_eq (r : Registry) :
    r.check = Store.book >>= fun b =>
      if b.isLive checkGroup then throw (.duplicateAccount checkGroup.sectionName)
      else Store.setMany checkGroup [(pendingKey, "true")] >>= fun _ => r.checkMarked :=
  rfl

/-- The check removes its own group, whether it was pending before or not. -/
theorem keeps_withheld_checkMarked (hMark : s.1.Marked g) :
    Keeps host (fun s' => s'.1.Withheld r g) r.checkMarked s fun _ _ => True := by
  have hRound := (stable_marked_roundTrip r g r.checkKey).attempt
  refine (keeps_withheld_of_marked hRound hMark).bind (fun outcome s' hHeld _ => ?_)
    fun _ _ _ _ => trivial
  have hClean := (stable_withheld_finishRemoval r g checkGroup).attempt s' hHeld
  refine hClean.bind (fun cleanup s'' hHeld' _ => ?_) fun _ _ _ _ => trivial
  cases outcome with
  | ok _ => exact Keeps.ofExcept hHeld' trivial
  | error e => exact Keeps.throw hHeld' trivial

theorem keeps_withheld_check (hMark : s.1.Marked g) :
    Keeps host (fun s' => s'.1.Withheld r g) r.check s fun _ _ => True := by
  rw [check_eq]
  apply keeps_book
  split_ifs
  · exact Keeps.throw (Or.inl hMark) trivial
  · exact (keeps_withheld_of_marked (stable_marked_setMany g checkGroup _) hMark).bind
      (fun _ _ _ hMark' => keeps_withheld_checkMarked hMark') fun _ _ _ _ => trivial

theorem keeps_withheld_create (hMark : s.1.Marked g) (manager protocol : String)
    (params : SortedMap String Value) :
    Keeps host (fun s' => s'.1.Withheld r g) (r.create manager protocol params) s
      fun _ _ => True := by
  refine keeps_create_of_closedAt (fun h hNew => closedAt_withheld ?_) (Or.inl hMark) manager
    protocol params
  rintro rfl
  obtain ⟨a, ha, _⟩ := Book.isPending_eq_true_iff.mp hMark
  rw [hNew] at ha
  contradiction

/-- What an operation makes of a group that is pending when it starts. -/
theorem keeps_withheld_action (r : Registry) (hMark : s.1.Marked g) (op : Operation) :
    Keeps host (fun s' => s'.1.Withheld r g) (op.action r) s fun _ _ => True := by
  have hWrite : ∀ h key value event, Keeps host (fun s' => s'.1.Withheld r g)
      (r.write h key value >>= fun _ => Action.emit event) s fun _ _ => True := by
    intro h key value event
    exact (keeps_withheld_of_marked (stable_marked_write r g h key value) hMark).bind
      (fun _ s' hHeld' _ => stable_withheld_emit r g event s' hHeld') fun _ _ _ _ => trivial
  rcases op.isMutation_or_isRead with hMutation | rfl | hRead
  · cases op, hMutation using Operation.mutation_cases with
    | create manager protocol params =>
        exact (keeps_withheld_create hMark manager protocol params).map
    | setProperty h key value => exact (hWrite h key value _).map
    | setEnabled h enabled => exact (hWrite h enabledKey _ _).map
    | remove h => exact (keeps_withheld_remove hMark h).map
  · exact (keeps_withheld_check hMark).map
  · exact stable_action hRead s (Or.inl hMark)

theorem keeps_withheld_openUp (r : Registry) (hMark : s.1.Marked g) :
    Keeps host (fun s' => s'.1.Withheld r g) r.openUp s fun _ _ => True := by
  refine (keeps_withheld_of_marked (stable_marked_migrate r g) hMark).bind (fun _ s' hHeld _ => ?_)
    fun _ _ _ _ => trivial
  exact Stable.book (fun b => Preserves.forM fun h _ => stable_withheld_abandon r g h) s' hHeld

end Registry
end Accounts
