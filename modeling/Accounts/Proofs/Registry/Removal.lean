import Accounts.Proofs.Registry.CrashConsistency

/-! Removal of accounts. One that succeeds leaves nothing of its group. One that fails on the way
leaves the group marked, and has at most taken away some of what a successful one takes away, so it
does not matter how many attempts come before the one that succeeds. -/
namespace Accounts

/-- With some faults, the action ends with the answer and the process. -/
def Action.Ends {α : Type} (a : Action α) (p : Process) (answer : Except Error α) (q : Process) :
    Prop :=
  ∃ faults faults', a.run.run Process.host (p, faults) = (answer, q, faults')

/-- What holds of every end of an action holds of this one. -/
theorem Action.Ends.of_keeps {α : Type} {a : Action α} {p q : Process} {answer : Except Error α}
    {R : Except Error α → Process → Prop} (hEnds : a.Ends p answer q)
    (hKeeps : ∀ faults, a.Keeps Process.host (fun _ => True) (p, faults) fun answer s' =>
      R answer s'.1) : R answer q := by
  obtain ⟨faults, faults', hRun⟩ := hEnds
  have hEnd := (hKeeps faults).2
  rw [hRun] at hEnd
  exact hEnd

/-- A process that opened the registry on what others with that registry made of `d`, each cut off
somewhere and each with faults of its own, and came to rest between two operations. -/
def Process.ReachableFrom (r : Registry) (d : Storage) (p : Process) : Prop :=
  ∃ d' p₀ ops faults faults', Relation.ReflTransGen (Storage.Leaves r) d d' ∧
    d'.start = .ok p₀ ∧ (r.session ops).run.run Process.host (p₀, faults) = (.ok (), p, faults')

namespace Process

variable {r : Registry} {g : GroupName} {p q x : Process}

/-- The file of a process holds its book, whatever processes before it did to the file. -/
theorem ReachableFrom.intact {d : Storage} (h : p.ReachableFrom r d) :
    p.Intact KeyFile.IsWritable := by
  obtain ⟨d', p₀, ops, faults, faults', hEarlier, hStart, hRun⟩ := h
  have hLast := Program.run_mem_cuts host (r.session ops).run (p₀, faults)
  rw [hRun] at hLast
  exact Registry.intact_of_session (intact_of_start hStart) hLast

/-- The process in which the group is marked. -/
def mark (p : Process) (g : GroupName) : Process :=
  if p.book.isPending g then p else p.save (p.book.write g [(pendingKey, "true")])

theorem mark_of_isPending (h : p.book.isPending g = true) : p.mark g = p := if_pos h

theorem isPending_mark (p : Process) (g : GroupName) : (p.mark g).book.isPending g = true := by
  unfold mark
  split_ifs with hPending
  · exact hPending
  · exact Book.isPending_write_pendingKey p.book g "true"

theorem sameOff_mark (p : Process) (g : GroupName) : SameOff r g p (p.mark g) := by
  unfold mark
  split_ifs
  · exact SameOff.refl
  · exact sameOff_write p g _

/-! ## Attempts that take away secrets only -/

/-- Some secrets of the group are gone, and nothing else has changed. -/
structure Stripped (r : Registry) (g : GroupName) (p q : Process) : Prop where
  eq_withVault : q = p.withVault q.vault
  vault : ∀ e, e ∉ r.entries g → SortedMap.get? q.vault e = SortedMap.get? p.vault e

namespace Stripped

theorem refl : Stripped r g p p := ⟨rfl, fun _ _ => rfl⟩

theorem trans (hFirst : Stripped r g p q) (hSecond : Stripped r g q x) : Stripped r g p x := by
  constructor
  · rw [hSecond.eq_withVault, hFirst.eq_withVault]
    rfl
  · intro e he
    rw [hSecond.vault e he, hFirst.vault e he]

theorem book_eq (h : Stripped r g p q) : q.book = p.book := by
  rw [h.eq_withVault]
  rfl

theorem remove (h : Stripped r g p q) {e : Entry} (he : e ∈ r.entries g) :
    Stripped r g p (q.withVault (q.vault.erase e)) := by
  constructor
  · rw [h.eq_withVault]
    rfl
  · intro e' he'
    have hNe : e ≠ e' := fun hEq => he' (hEq ▸ he)
    rw [withVault_vault, SortedMap.get?_erase, if_neg hNe, h.vault e' he']

theorem sameOff (h : Stripped r g p q) : SameOff r g p q :=
  ⟨fun g' _ => by rw [h.book_eq], h.vault⟩

theorem vault_without (h : Stripped r g p q) :
    q.vault.without (r.entries g) = p.vault.without (r.entries g) :=
  h.sameOff.vault_without

/-- What is left to take away comes to the same in the end. -/
theorem drop_eq (h : Stripped r g p q) : q.drop r g = p.drop r g := by
  have hVault := h.vault_without
  rw [h.eq_withVault, Process.drop, withVault_vault, hVault]
  rfl

/-- Once no secret of the group is left, what remains to be done is to drop the group. -/
theorem eq_without (h : Stripped r g p q)
    (hGone : ∀ e ∈ r.entries g, SortedMap.get? q.vault e = none) :
    q = p.withVault (p.vault.without (r.entries g)) := by
  have hVault : q.vault = q.vault.without (r.entries g) := by
    apply SortedMap.ext_get?
    intro e
    rw [Vault.get?_without]
    split_ifs with he
    · exact hGone e he
    · rfl
  rw [← h.vault_without, ← hVault]
  exact h.eq_withVault

end Stripped

end Process

namespace Registry
open Process Accounts.Action

variable {r : Registry} {g : GroupName} {p q : Process} {s : Process × Faults}

/-! ## How a removal ends -/

/-- The group and its secrets are dropped, or else some secrets are gone and the answer says that
the removal is not complete. -/
theorem keeps_purge (r : Registry) (g : GroupName) (s : Process × Faults) :
    Keeps host (fun _ => True) (r.finishRemoval g) s fun answer s' =>
      (answer = .ok () ∧ s'.1 = s.1.drop r g) ∨
        ((∃ reason, answer = .error (.partialRemoval g.sectionName reason)) ∧
          Stripped r g s.1 s'.1) := by
  rw [finishRemoval_eq]
  have hSecrets := keeps_deleteSecrets (r := r) (g := g) (s := s) (J := Stripped r g s.1)
    (fun e he q h => h.remove he) Stripped.refl
  have hBody : Keeps host (fun _ => True) (do
      r.serviceKeys.forM fun key => r.backend.delete g key
      let _ ← Store.deleteGroup g) s fun answer s' =>
        (answer = .ok () ∧ s'.1 = s.1.drop r g) ∨
          ((∃ e, answer = .error e) ∧ Stripped r g s.1 s'.1) := by
    refine Keeps.bind ((hSecrets.mono fun _ _ hJ hGone => And.intro hJ hGone).imp
      fun _ _ => trivial) (fun _ s' _ h => ?_) fun e _ _ h => Or.inr ⟨⟨e, rfl⟩, h.1⟩
    obtain ⟨hStripped, hGone⟩ := h
    have hCleared := hStripped.eq_without (hGone rfl)
    have hGroup := (atomic_deleteGroup g s').ends
    refine Keeps.bind hGroup (fun _ s'' _ hT => ?_) fun e s'' _ hT => ?_
    · rcases hT with ⟨_, hDropped⟩ | ⟨⟨e, hError⟩, _⟩
      · apply Keeps.pure trivial
        rw [hCleared] at hDropped
        exact Or.inl ⟨rfl, hDropped⟩
      · contradiction
    · rcases hT with ⟨hOk, _⟩ | ⟨_, hSame⟩
      · contradiction
      · rw [hSame]
        exact Or.inr ⟨⟨e, rfl⟩, hStripped⟩
  refine hBody.tryCatch (fun _ s' _ h => ?_) fun e s' _ h => Keeps.throw trivial ?_
  · rcases h with hDone | ⟨⟨e, hError⟩, _⟩
    · exact Or.inl hDone
    · contradiction
  · rcases h with ⟨hOk, _⟩ | ⟨_, hStripped⟩
    · contradiction
    · exact Or.inr ⟨⟨_, rfl⟩, hStripped⟩

theorem purge_of_ends {answer : Except Error Unit} (h : (r.finishRemoval g).Ends p answer q) :
    (answer = .ok () ∧ q = p.drop r g) ∨
      ((∃ reason, answer = .error (.partialRemoval g.sectionName reason)) ∧ Stripped r g p q) :=
  h.of_keeps (R := fun answer q => (answer = .ok () ∧ q = p.drop r g) ∨
    ((∃ reason, answer = .error (.partialRemoval g.sectionName reason)) ∧ Stripped r g p q))
    fun faults => keeps_purge r g (p, faults)

/-- How a removal may end. -/
inductive RemovalEnd (r : Registry) (g : GroupName) (p : Process) :
    Except Error Unit → Process → Prop
  | unknown (hGone : p.book.contains g = false) :
      RemovalEnd r g p (.error (.unknownGroup g.sectionName)) p
  | unmarked (hThere : p.book.contains g = true) (reason : String) :
      RemovalEnd r g p (.error (.storage reason)) p
  | partly (hThere : p.book.contains g = true) (reason : String) {q : Process}
      (hStripped : Stripped r g (p.mark g) q) :
      RemovalEnd r g p (.error (.partialRemoval g.sectionName reason)) q
  | complete (hThere : p.book.contains g = true) :
      RemovalEnd r g p (.ok ()) (((p.mark g).drop r g).notify (.removed g))

theorem keeps_remove (r : Registry) (g : GroupName) (s : Process × Faults) :
    Keeps host (fun _ => True) (r.remove g) s fun answer s' => RemovalEnd r g s.1 answer s'.1 := by
  apply keeps_book
  cases hThere : s.1.book.contains g with
  | false => exact Keeps.throw trivial (.unknown hThere)
  | true =>
      have hMark := (atomic_markPending_of_contains hThere).ends
      refine Keeps.bind hMark (fun _ s' _ hT => ?_) fun e s' _ hT => ?_
      · rcases hT with ⟨_, hMarked⟩ | ⟨⟨reason, hError⟩, _⟩
        · refine Keeps.bind (keeps_purge r g s') (fun _ s'' _ h => ?_) fun e s'' _ h => ?_
          · rcases h with ⟨_, hDropped⟩ | ⟨⟨reason, hError⟩, _⟩
            · apply Keeps.emit trivial
              change RemovalEnd r g s.1 (.ok ()) (s''.1.notify (.removed g))
              rw [hDropped, hMarked]
              exact .complete hThere
            · contradiction
          · rcases h with ⟨hOk, _⟩ | ⟨⟨reason, hError⟩, hStripped⟩
            · contradiction
            · obtain rfl := Except.error.inj hError
              rw [hMarked] at hStripped
              exact .partly hThere reason hStripped
        · contradiction
      · rcases hT with ⟨hOk, _⟩ | ⟨⟨reason, hError⟩, hSame⟩
        · contradiction
        · obtain rfl := Except.error.inj hError
          rw [hSame]
          exact .unmarked hThere reason

theorem removalEnd_of_ends {answer : Except Error Unit} (h : (r.remove g).Ends p answer q) :
    RemovalEnd r g p answer q :=
  h.of_keeps fun faults => keeps_remove r g (p, faults)

theorem RemovalEnd.sameOff {answer : Except Error Unit} (h : RemovalEnd r g p answer q) :
    SameOff r g p q := by
  cases h with
  | unknown => exact SameOff.refl
  | unmarked => exact SameOff.refl
  | partly _ _ hStripped => exact (sameOff_mark p g).trans hStripped.sameOff
  | complete => exact ((sameOff_mark p g).trans (sameOff_drop _ g)).notify _

/-! ## Attempts -/

/-- A removal that reached some backends and not all. -/
def PartlyRemoves (r : Registry) (g : GroupName) (p q : Process) : Prop :=
  ∃ group reason, (r.remove g).Ends p (.error (.partialRemoval group reason)) q

/-- However many attempts there were, all they did was to mark the group and to take away some of
its secrets. -/
theorem stripped_of_attempts (h : Relation.TransGen (PartlyRemoves r g) p q) :
    p.book.contains g = true ∧ Stripped r g (p.mark g) q := by
  have hOne : ∀ {p q : Process}, PartlyRemoves r g p q →
      p.book.contains g = true ∧ Stripped r g (p.mark g) q := by
    rintro p q ⟨group, reason, hEnds⟩
    cases removalEnd_of_ends hEnds with
    | partly hThere _ hStripped => exact ⟨hThere, hStripped⟩
  induction h with
  | single hFirst => exact hOne hFirst
  | tail _ hLast ih =>
      obtain ⟨hThere, hStripped⟩ := ih
      have hMarked := isPending_mark p g
      rw [← hStripped.book_eq] at hMarked
      obtain ⟨_, hNext⟩ := hOne hLast
      rw [mark_of_isPending hMarked] at hNext
      exact ⟨hThere, hStripped.trans hNext⟩

theorem contains_of_isPending {book : Book} (h : book.isPending g = true) :
    book.contains g = true := by
  obtain ⟨a, ha, _⟩ := Book.isPending_eq_true_iff.mp h
  rw [SortedMap.contains, ha]
  rfl

/-- The first attempt with nothing in the way makes up for all those before. -/
theorem calm_remove_of_attempts (h : Relation.TransGen (PartlyRemoves r g) p q) :
    (r.remove g).calm q = (.ok (), ((r.remove g).calm p).2) := by
  obtain ⟨hThere, hStripped⟩ := stripped_of_attempts h
  have hPending := isPending_mark p g
  rw [← hStripped.book_eq] at hPending
  rw [calm_remove (contains_of_isPending hPending), if_pos hPending, hStripped.drop_eq,
    calm_remove hThere]
  rfl

/-- The backend has nothing under a key of a group that was dropped. -/
theorem calm_get_drop (r : Registry) (p : Process) (g : GroupName) (event : Event) {key : String}
    (hSecret : r.secrets.isSecretKey key = true) :
    (r.backend.get g key).calm ((p.drop r g).notify event) =
      (.error (.notFound g.sectionName key), (p.drop r g).notify event) := by
  cases hBackend : r.backend with
  | inline =>
      have hNone : ((p.drop r g).notify event).book.value? g key = none := by
        rw [notify_book, drop_book, Book.value?_erase, if_pos rfl]
      rw [Backend.get, Store.calm_get, hNone]
  | keyring ring =>
      have hEntry : ring.entry g key ∈ r.entries g := (mem_entries hBackend).mpr ⟨key, hSecret, rfl⟩
      have hNone : SortedMap.get? ((p.drop r g).notify event).vault (ring.entry g key) = none := by
        change SortedMap.get? (p.drop r g).vault (ring.entry g key) = none
        rw [drop_vault, Vault.get?_without, if_pos hEntry]
      rw [Backend.get, Keyring.calm_get, hNone]

theorem intact_of_removal {answer : Except Error Unit} (hIntact : p.Intact KeyFile.IsWritable)
    (h : (r.remove g).Ends p answer q) : q.Intact KeyFile.IsWritable :=
  h.of_keeps (R := fun _ q => q.Intact KeyFile.IsWritable) fun faults =>
    ⟨fun _ _ => trivial, ((closed_writable r).removal g (p, faults) hIntact).last⟩

theorem intact_of_attempts (hIntact : p.Intact KeyFile.IsWritable)
    (h : Relation.TransGen (PartlyRemoves r g) p q) : q.Intact KeyFile.IsWritable := by
  induction h with
  | single hFirst =>
      obtain ⟨_, _, hEnds⟩ := hFirst
      exact intact_of_removal hIntact hEnds
  | tail _ hLast ih =>
      obtain ⟨_, _, hEnds⟩ := hLast
      exact intact_of_removal ih hEnds

/-- There is nothing to remove where there is no such group. -/
theorem eq_of_removal_of_not_contains {answer : Except Error Unit}
    (hGone : p.book.contains g = false) (h : (r.remove g).Ends p answer q) :
    answer = .error (.unknownGroup g.sectionName) ∧ q = p := by
  have hContra : p.book.contains g ≠ true := by simp [hGone]
  cases removalEnd_of_ends h with
  | unknown => exact ⟨rfl, rfl⟩
  | unmarked hThere => exact absurd hThere hContra
  | partly hThere => exact absurd hThere hContra
  | complete hThere => exact absurd hThere hContra

/-- A removal that succeeds leaves nothing of the group in the store, in the file or in the backend,
and the next one finds no such group. One that is incomplete leaves the group marked and unlisted,
and after any number of such attempts the first one that nothing disturbs ends where an undisturbed
removal would have ended at once. Whatever a removal answers, it leaves all other groups alone. -/
theorem remove_complete_or_retried {d : Storage} (hReach : p.ReachableFrom r d) (g : GroupName) :
    (∀ q, (r.remove g).Ends p (.ok ()) q →
      q = ((r.remove g).calm p).2 ∧ q.book.contains g = false ∧
        AccountFile.load q.file = .ok q.book ∧
        (∀ key ∈ r.secrets.keys,
          (r.backend.get g key).calm q = (.error (.notFound g.sectionName key), q)) ∧
        ∀ answer x, (r.remove g).Ends q answer x →
          answer = .error (.unknownGroup g.sectionName) ∧ x = q) ∧
    (∀ q, Relation.TransGen (PartlyRemoves r g) p q →
      q.book.isPending g = true ∧ AccountFile.load q.file = .ok q.book ∧ g ∉ q.book.liveGroups ∧
        (r.remove g).calm q = (.ok (), ((r.remove g).calm p).2)) ∧
    ∀ answer q, (r.remove g).Ends p answer q →
      SameOff r g p q ∧ AccountFile.load q.file = .ok q.book := by
  have hIntact := hReach.intact
  refine ⟨fun q hEnds => ?_, fun q hAttempts => ?_, fun answer q hEnds => ?_⟩
  · have hFile := (intact_of_removal hIntact hEnds).load_file
    cases removalEnd_of_ends hEnds with
    | complete hThere =>
        have hGone : (((p.mark g).drop r g).notify (.removed g)).book.contains g = false := by
          simp [SortedMap.contains]
        refine ⟨?_, hGone, hFile, fun key hKey => ?_, fun answer x hAgain => ?_⟩
        · rw [calm_remove hThere]
          rfl
        · exact calm_get_drop r _ g _ ((SecretNames.mem_keys_iff r.secrets).mp hKey)
        · exact eq_of_removal_of_not_contains hGone hAgain
  · have hPending := isPending_mark p g
    rw [← (stripped_of_attempts hAttempts).2.book_eq] at hPending
    refine ⟨hPending, (intact_of_attempts hIntact hAttempts).load_file, fun hListed => ?_,
      calm_remove_of_attempts hAttempts⟩
    rw [Book.mem_liveGroups, isLive_of_isPending hPending] at hListed
    contradiction
  · exact ⟨(removalEnd_of_ends hEnds).sameOff, (intact_of_removal hIntact hEnds).load_file⟩

/-- A removal during which the service does not answer in time. -/
def stalledFaults : Faults := ⟨[], [.fails .timedOut]⟩

/-- The process that is left when the service did not answer. -/
def stalledProcess : Process :=
  ((ringRegistry.remove accountGroup).run.run host (accountProcess, stalledFaults)).2.1

/-- The password of the account is still there after the first attempt, and the second one removes
it with the account. -/
theorem remove_after_stall :
    stalledProcess.vault.size = 1 ∧ stalledProcess.book.isPending accountGroup = true ∧
      AccountFile.load stalledProcess.file = .ok stalledProcess.book ∧
      accountGroup ∉ stalledProcess.book.liveGroups ∧
      (ringRegistry.remove accountGroup).calm stalledProcess =
        (.ok (), ((ringRegistry.remove accountGroup).calm accountProcess).2) := by
  have hStalled : PartlyRemoves ringRegistry accountGroup accountProcess stalledProcess := by
    refine ⟨accountGroup.sectionName,
      (Keyring.failure ⟨"keeper", Keyring.defaultTimeout⟩ "delete" .timedOut).message,
      stalledFaults, .none, Prod.ext ?_ (Prod.ext rfl ?_)⟩
    · decide +kernel
    · decide +kernel
  have hReach : accountProcess.ReachableFrom ringRegistry Storage.unused :=
    reachable_accountProcess
  obtain ⟨_, hRetried, _⟩ := remove_complete_or_retried hReach accountGroup
  exact ⟨by decide +kernel, hRetried stalledProcess (.single hStalled)⟩

end Registry
end Accounts
