import Accounts.Proofs.Registry.Allocation
import Accounts.Proofs.Registry.Transfer
import Accounts.Proofs.Success

/-! Cleaning up when a registry is opened. One attempt is made to complete the removal of each
pending group. An attempt touches its own group only and its failure is not passed on, so whatever
becomes of one group, the others are dealt with as if it were not there. -/
namespace Accounts

/-- The process after the completion of a removal was tried, however the attempt ended. -/
def Registry.attempt (r : Registry) (s : Process × Faults) (g : GroupName) : Process × Faults :=
  ((r.finishRemoval g).run.run Process.host s).2

/-- The process when the turn of a group comes. -/
def Registry.beforeTurn (r : Registry) (s : Process × Faults) (g : GroupName) : Process × Faults :=
  (s.1.book.pendingGroups.takeWhile (· != g)).foldl r.attempt s

namespace Registry
open Process Accounts.Action

variable {r : Registry} {g h : GroupName} {p q m : Process} {s : Process × Faults}

theorem gone_drop (r : Registry) (p : Process) (g : GroupName) : (p.drop r g).Gone r g := by
  refine ⟨by simp [SortedMap.contains], fun e he => ?_⟩
  rw [drop_vault, Vault.get?_without, if_pos he]

/-! ## One attempt -/

theorem attempt_cases (r : Registry) (s : Process × Faults) (g : GroupName) :
    (r.attempt s g).1 = s.1.drop r g ∨ Stripped r g s.1 (r.attempt s g).1 :=
  (keeps_purge r g s).2.imp And.right And.right

theorem attempt_of_succeeds (h : (r.finishRemoval g).run.Succeeds host s) :
    (r.attempt s g).1 = s.1.drop r g := by
  obtain ⟨_, hOk⟩ := sure_finishRemoval r g s h
  rcases (keeps_purge r g s).2 with ⟨_, hDropped⟩ | ⟨⟨reason, hError⟩, _⟩
  · exact hDropped
  · rw [hOk] at hError
    contradiction

theorem sameOff_attempt (r : Registry) (s : Process × Faults) (g : GroupName) :
    SameOff r g s.1 (r.attempt s g).1 := by
  rcases attempt_cases r s g with hDropped | hStripped
  · rw [hDropped]
    exact sameOff_drop s.1 g
  · exact hStripped.sameOff

theorem run_abandon (r : Registry) (s : Process × Faults) (g : GroupName) :
    (r.abandon g).run.run host s = (.ok (), r.attempt s g) := by
  rw [abandon, run_tryCatch, attempt]
  cases (r.finishRemoval g).run.run host s with
  | mk answer s' =>
      cases answer with
      | ok _ => rfl
      | error e => rfl

/-! ## All attempts in turn -/

/-- No failure ends the loop. -/
theorem run_abandonAll (r : Registry) (gs : List GroupName) (s : Process × Faults) :
    (gs.forM r.abandon).run.run host s = (.ok (), gs.foldl r.attempt s) := by
  induction gs generalizing s with
  | nil => rfl
  | cons g gs ih =>
      change (r.abandon g >>= fun _ => gs.forM r.abandon).run.run host s = _
      rw [run_bind, run_abandon]
      exact ih _

theorem run_cleanUp (r : Registry) (s : Process × Faults) :
    r.cleanUp.run.run host s = (.ok (), s.1.book.pendingGroups.foldl r.attempt s) :=
  run_abandonAll r s.1.book.pendingGroups s

/-- Attempts at other groups leave a group alone. -/
theorem untouched_attempts {gs : List GroupName} (hOther : g ∉ gs) (s : Process × Faults) :
    Untouched r g s.1 (gs.foldl r.attempt s).1 := by
  induction gs generalizing s with
  | nil => exact Untouched.refl
  | cons h gs ih =>
      rw [List.mem_cons, not_or] at hOther
      have hFirst := (sameOff_attempt r s h).untouched (Ne.symm hOther.1)
      exact hFirst.trans (ih hOther.2 (r.attempt s h))

/-- What attempts leave of the service is everything but secrets of their groups. -/
theorem vault_attempts {gs : List GroupName} {e : Entry} (hOther : ∀ g ∈ gs, e ∉ r.entries g)
    (s : Process × Faults) :
    SortedMap.get? (gs.foldl r.attempt s).1.vault e = SortedMap.get? s.1.vault e := by
  induction gs generalizing s with
  | nil => rfl
  | cons g gs ih =>
      rw [List.forall_mem_cons] at hOther
      exact (ih hOther.2 (r.attempt s g)).trans ((sameOff_attempt r s g).vault e hOther.1)

/-- Every pending group has one turn. -/
theorem exists_split (hPending : s.1.book.isPending g = true) :
    ∃ before after, s.1.book.pendingGroups = before ++ g :: after ∧ g ∉ before ∧ g ∉ after ∧
      r.beforeTurn s g = before.foldl r.attempt s := by
  obtain ⟨before, after, hSplit⟩ := List.append_of_mem (Book.mem_pendingGroups.mpr hPending)
  have hNodup : s.1.book.pendingGroups.Nodup := by
    rw [Book.pendingGroups_eq]
    exact (SortedMap.nodup_keys _).filter _
  rw [hSplit, List.nodup_middle, List.nodup_cons, List.mem_append, not_or] at hNodup
  obtain ⟨⟨hBefore, hAfter⟩, _⟩ := hNodup
  have hOthers : ∀ h ∈ before, (h != g) = true := by
    intro h hMem
    exact bne_iff_ne.mpr fun hEq => hBefore (hEq ▸ hMem)
  refine ⟨before, after, hSplit, hBefore, hAfter, ?_⟩
  rw [beforeTurn, hSplit, List.takeWhile_append_of_pos hOthers]
  simp

/-- The turns before and after that of a group leave it alone. -/
theorem untouched_turns (hPending : s.1.book.isPending g = true) :
    Untouched r g s.1 (r.beforeTurn s g).1 ∧
      Untouched r g (r.attempt (r.beforeTurn s g) g).1
        (s.1.book.pendingGroups.foldl r.attempt s).1 := by
  obtain ⟨before, after, hSplit, hBefore, hAfter, hTurn⟩ := exists_split (r := r) hPending
  rw [hTurn, hSplit, List.foldl_append, List.foldl_cons]
  exact ⟨untouched_attempts hBefore s, untouched_attempts hAfter _⟩

/-- What cleaning up leaves of a pending group: nothing, or everything that the book had of it. -/
theorem gone_or_same (hPending : s.1.book.isPending g = true) :
    (s.1.book.pendingGroups.foldl r.attempt s).1.Gone r g ∨
      (s.1.book.pendingGroups.foldl r.attempt s).1.book.get? g = s.1.book.get? g := by
  obtain ⟨hBefore, hAfter⟩ := untouched_turns (r := r) hPending
  rcases attempt_cases r (r.beforeTurn s g) g with hDropped | hStripped
  · left
    rw [hDropped] at hAfter
    exact hAfter.gone (gone_drop r _ g)
  · right
    rw [hAfter.book, hStripped.book_eq, hBefore.book]

/-- A group whose own removal succeeds is gone in the end, whatever became of the others. -/
theorem gone_of_turn (hPending : s.1.book.isPending g = true)
    (hTurn : (r.finishRemoval g).run.Succeeds host (r.beforeTurn s g)) :
    (s.1.book.pendingGroups.foldl r.attempt s).1.Gone r g := by
  obtain ⟨_, hAfter⟩ := untouched_turns (r := r) hPending
  rw [attempt_of_succeeds hTurn] at hAfter
  exact hAfter.gone (gone_drop r _ g)

theorem succeeds_of_abandonAll {before after : List GroupName}
    (hLoop : ((before ++ g :: after).forM r.abandon).run.Succeeds host s) :
    (r.finishRemoval g).run.Succeeds host (before.foldl r.attempt s) := by
  induction before generalizing s with
  | nil =>
      change (r.abandon g >>= fun _ => after.forM r.abandon).run.Succeeds host s at hLoop
      exact (succeeds_tryCatch.mp (succeeds_bind.mp hLoop).1).1
  | cons h before ih =>
      change (r.abandon h >>= fun _ => (before ++ g :: after).forM r.abandon).run.Succeeds host s
        at hLoop
      exact ih ((succeeds_bind.mp hLoop).2 () _ (run_abandon r s h))

/-- Where the whole loop succeeds, every turn does. -/
theorem succeeds_turn (hPending : s.1.book.isPending g = true)
    (hClean : r.cleanUp.run.Succeeds host s) :
    (r.finishRemoval g).run.Succeeds host (r.beforeTurn s g) := by
  obtain ⟨before, after, hSplit, _, _, hTurn⟩ := exists_split (r := r) hPending
  have hLoop : (s.1.book.pendingGroups.forM r.abandon).run.Succeeds host s := hClean
  rw [hSplit] at hLoop
  rw [hTurn]
  exact succeeds_of_abandonAll hLoop

/-- Where the whole loop succeeds, no group is left pending. -/
theorem no_pending_of_succeeds (hClean : r.cleanUp.run.Succeeds host s) :
    (s.1.book.pendingGroups.foldl r.attempt s).1.book.pendingGroups = [] := by
  rw [Book.pendingGroups_eq_nil_iff]
  intro g
  cases hPending : s.1.book.isPending g with
  | true =>
      have hGone := (gone_of_turn hPending (succeeds_turn hPending hClean)).group
      rw [Book.isPending_eq_isSome, Book.value?_eq_none_of_not_contains hGone]
      rfl
  | false =>
      have hOther : g ∉ s.1.book.pendingGroups := by simp [Book.mem_pendingGroups, hPending]
      rw [Book.isPending, (untouched_attempts (r := r) hOther s).book]
      exact hPending

/-! ## Openings -/

/-- A migration that ends well has moved all that it had to move. -/
theorem moving_of_migrate (hIntact : s.1.Intact KeyFile.IsWritable) {s' : Process × Faults}
    (hRun : r.migrate.run.run host s = (.ok (), s')) :
    Moving r s.1 s'.1 ∧ s'.1.Intact r.Allows := by
  have hMoving := (keeps_moving_migrate r s).last
  have hAllowed := (keeps_migrate (r := r) hIntact).2
  rw [hRun] at hMoving hAllowed
  exact ⟨hMoving, hAllowed rfl⟩

/-- No group shows that did not show before, and none is hidden that did. -/
theorem liveGroups_cleanUp (r : Registry) (s : Process × Faults) :
    (s.1.book.pendingGroups.foldl r.attempt s).1.book.liveGroups = s.1.book.liveGroups := by
  apply Book.liveGroups_eq_of_isLive_eq
  intro g
  cases hPending : s.1.book.isPending g with
  | false =>
      have hOther : g ∉ s.1.book.pendingGroups := by simp [Book.mem_pendingGroups, hPending]
      rw [Book.isLive, (untouched_attempts (r := r) hOther s).book, Book.isLive]
  | true =>
      rw [isLive_of_isPending hPending]
      rcases gone_or_same (r := r) hPending with hGone | hSame
      · exact isLive_of_withheld (Or.inr hGone)
      · apply isLive_of_isPending
        rw [Book.isPending, hSame]
        exact hPending

/-- Once the secrets are moved, an opening works. It leaves the groups alone that are not pending,
their attributes and their secrets. Of a pending group it leaves nothing, or else all that the file
had of it that is not secret, with the mark. It leaves nothing if every save and every call in the
turn of the group succeeds, whatever fails in the turns of the others. -/
theorem openUp_cleans_apart {d : Storage} {book : Book}
    (hFile : AccountFile.load d.file = .ok book) :
    ∃ p, d.start = .ok p ∧ ∀ faults m faults',
      r.migrate.run.run host (p, faults) = (.ok (), m, faults') →
      ∃ q faults'', r.openUp.run.run host (p, faults) = (.ok (), q, faults'') ∧
        AccountFile.load q.file = .ok q.book ∧ q.book.liveGroups = m.book.liveGroups ∧
        (∀ g, book.isPending g = false → q.book.get? g = m.book.get? g ∧
          ∀ key, q.value? r g key = p.kept? r g key) ∧
        (∀ e, (∀ g, book.isPending g = true → e ∉ r.entries g) →
          SortedMap.get? q.vault e = SortedMap.get? m.vault e) ∧
        ∀ g, book.isPending g = true →
          (q.Gone r g ∨ (q.book.isPending g = true ∧ q.book.get? g = m.book.get? g ∧
            ∀ key, r.secrets.isSecretKey key = false → q.book.value? g key = book.value? g key)) ∧
          ((r.finishRemoval g).run.Succeeds host (r.beforeTurn (m, faults') g) → q.Gone r g) := by
  have hStart := start_of_load hFile
  refine ⟨_, hStart, fun faults m faults' hMigrated => ?_⟩
  obtain ⟨hMoving, hIntact⟩ := moving_of_migrate (intact_of_start hStart) hMigrated
  have hClean := run_cleanUp r (m, faults')
  have hLive := liveGroups_cleanUp r (m, faults')
  have hEnd := ((closed_allowed r).cleanUp (m, faults') hIntact).last
  rw [hClean] at hEnd
  have hOpen : r.openUp.run.run host ({ d with book, events := [] }, faults) =
      (.ok (), m.book.pendingGroups.foldl r.attempt (m, faults')) := by
    rw [openUp, run_bind, hMigrated]
    exact hClean
  refine ⟨_, _, hOpen, hEnd.load_file, hLive, fun g hUnmarked => ?_, fun e hOther => ?_,
    fun g hMarked => ?_⟩
  · rw [← (hMoving.sameIn g).isPending] at hUnmarked
    have hOther : g ∉ m.book.pendingGroups := by simp [Book.mem_pendingGroups, hUnmarked]
    refine ⟨(untouched_attempts hOther (m, faults')).book, fun key => ?_⟩
    have hSame := (keeps_sameIn_cleanUp (r := r) (s := (m, faults')) hUnmarked).last
    rw [hClean] at hSame
    rw [← kept?_eq_value? hEnd.allKeys, hSame.kept, (hMoving.sameIn g).kept]
  · refine vault_attempts (fun g hPending => hOther g ?_) (m, faults')
    rw [Book.mem_pendingGroups, (hMoving.sameIn g).isPending] at hPending
    exact hPending
  · have hPending : m.book.isPending g = true := by rwa [(hMoving.sameIn g).isPending]
    refine ⟨?_, gone_of_turn hPending⟩
    apply (gone_or_same (r := r) (s := (m, faults')) hPending).imp_right
    intro hSame
    refine ⟨?_, hSame, fun key hPlain => ?_⟩
    · rw [Book.isPending, hSame]
      exact hPending
    · rw [Book.value?, hSame]
      exact (hMoving.sameIn g).value? hPlain

/-- A group whose removal was cut off. -/
def leftGroup : GroupName := .ofSerial isComponent_localXmpp "keeper" "left" 0

/-- Another one. -/
def leftGroup' : GroupName := .ofSerial isComponent_localXmpp "keeper" "left" 1

/-- A group with a manager and a password. -/
def heldGroup : GroupName := .ofSerial isComponent_localXmpp "keeper" "held" 0

/-- The book with these groups. -/
def clutteredBook : Book :=
  ((Book.write ∅ leftGroup [(pendingKey, "true")]).write leftGroup' [(pendingKey, "true")]).write
    heldGroup [(managerKey, "keeper"), (paramKey "password", "x")]

/-- Storage with this book, where passwords of the first two groups are in the service. -/
def clutteredStorage : Storage :=
  ⟨some (AccountFile.content clutteredBook),
    Vault.put (Vault.put ∅ ⟨"keeper", "keeper/local_xmpp/left0/param-password"⟩ "y")
      ⟨"keeper", "keeper/local_xmpp/left1/param-password"⟩ "z"⟩

theorem load_clutteredStorage : AccountFile.load clutteredStorage.file = .ok clutteredBook := by
  have hMark : KeyFile.IsWritable pendingKey := KeyFile.isWritable_of_isKey isKey_pendingKey
  have hManager : KeyFile.IsWritable managerKey := KeyFile.isWritable_of_isKey (by decide)
  have hPassword : KeyFile.IsWritable (paramKey "password") :=
    KeyFile.isWritable_of_isKey (by decide)
  have hPending : ∀ e ∈ [(pendingKey, "true")], KeyFile.IsWritable e.1 :=
    List.forall_mem_singleton.mpr hMark
  have hHeld : ∀ e ∈ [(managerKey, "keeper"), (paramKey "password", "x")], KeyFile.IsWritable e.1 :=
    List.forall_mem_cons.mpr ⟨hManager, List.forall_mem_singleton.mpr hPassword⟩
  apply AccountFile.load_content
  exact ((Book.allKeys_empty.write hPending).write hPending).write hHeld

/-- The service takes the password and then does not answer the first removal in time. -/
def stumblingFaults : Faults := ⟨[], [.works, .fails .timedOut]⟩

/-- The first of the removals is left for the next time, and the second one is completed. -/
theorem openUp_cleans_apart_of_stumble :
    ∃ p q faults, clutteredStorage.start = .ok p ∧
      ringRegistry.openUp.run.run host (p, stumblingFaults) = (.ok (), q, faults) ∧
      q.book.isPending leftGroup = true ∧ q.Gone ringRegistry leftGroup' ∧
      q.book.liveGroups = [heldGroup] ∧
      q.value? ringRegistry heldGroup (paramKey "password") = some "x" := by
  obtain ⟨p, hStart, hOpens⟩ := openUp_cleans_apart (r := ringRegistry) load_clutteredStorage
  obtain rfl : { clutteredStorage with book := clutteredBook, events := [] } = p := by
    rw [start_of_load load_clutteredStorage] at hStart
    exact Except.ok.inj hStart
  obtain ⟨q, faults, hRun, _, hLive, hKept, _, hPending⟩ :=
    hOpens stumblingFaults _ _ (Prod.ext (by decide +kernel) rfl)
  have hLeft : (ringRegistry.openUp.run.run host
      ({ clutteredStorage with book := clutteredBook, events := [] },
        stumblingFaults)).2.1.book.isPending leftGroup = true := by decide +kernel
  rw [hRun] at hLeft
  refine ⟨_, q, faults, hStart, hRun, hLeft, (hPending leftGroup' (by decide +kernel)).2 ?_, ?_, ?_⟩
  · decide +kernel
  · rw [hLive]
    decide +kernel
  · rw [(hKept heldGroup (by decide +kernel)).2]
    decide +kernel

end Registry
end Accounts
