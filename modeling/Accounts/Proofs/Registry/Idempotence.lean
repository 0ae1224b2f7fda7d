import Accounts.Proofs.Registry.CleanUp
import Accounts.Proofs.Registry.History

/-! Openings that succeed leave nothing to do for the next one. Moving secrets may take groups from
the book and completing removals may take groups that have just been moved, so that both are done
is said of the book at the end and of the file that a process reads back. -/
namespace Accounts.Registry
open Process Accounts.Action

variable {r : Registry} {s : Process × Faults}

/-- With no secret to move and no group pending, an opening looks at the book and does nothing. -/
theorem openUp_idle (hAllowed : s.1.book.AllKeys r.Allows) (hDone : s.1.book.pendingGroups = []) :
    r.openUp.run.run host s = (.ok (), s) ∧ r.openUp.run.cuts host s = [s] := by
  have hClean : r.cleanUp.run.run host s = (.ok (), s) ∧ r.cleanUp.run.cuts host s = [s] := by
    change (s.1.book.pendingGroups.forM r.abandon).run.run host s = _ ∧
      (s.1.book.pendingGroups.forM r.abandon).run.cuts host s = _
    rw [hDone]
    exact ⟨rfl, rfl⟩
  cases hBackend : r.backend.isInline with
  | true =>
      rw [openUp, migrate_inline hBackend, pure_bind]
      exact hClean
  | false =>
      have hPlain := hAllowed.mono fun _ hKey => hKey.2.resolve_left (by simp [hBackend])
      have hNothing : (r.inlineSecrets s.1.book).forM (fun e => r.moveSecret e.1 e.2.1 e.2.2) =
          pure () := by
        rw [inlineSecrets_eq_nil hPlain]
        rfl
      rw [openUp, migrate_eq hBackend, bind_assoc]
      change ((r.inlineSecrets s.1.book).forM (fun e => r.moveSecret e.1 e.2.1 e.2.2) >>=
          fun _ => r.cleanUp).run.run host s = _ ∧
        ((r.inlineSecrets s.1.book).forM (fun e => r.moveSecret e.1 e.2.1 e.2.2) >>=
          fun _ => r.cleanUp).run.cuts host s = _
      rw [hNothing, pure_bind]
      exact hClean

/-- An opening works if every save and every call in it succeeds, and leaves no group pending and no
secret where it does not belong. -/
theorem settled_of_succeeds (hIntact : s.1.Intact KeyFile.IsWritable)
    (hOpen : r.openUp.run.Succeeds host s) :
    ∃ s', r.openUp.run.run host s = (.ok (), s') ∧ s'.1.book.pendingGroups = [] ∧
      s'.1.Intact r.Allows := by
  obtain ⟨hMigrate, hRest⟩ := succeeds_bind.mp hOpen
  obtain ⟨_, hOk⟩ := sure_migrate r s hMigrate
  have hMigrated : r.migrate.run.run host s = (.ok (), (r.migrate.run.run host s).2) :=
    Prod.ext hOk rfl
  have hRun : r.openUp.run.run host s =
      (.ok (), (r.migrate.run.run host s).2.1.book.pendingGroups.foldl r.attempt
        (r.migrate.run.run host s).2) := by
    rw [openUp, run_bind, hMigrated]
    exact run_cleanUp r _
  have hAllowed := intact_of_openUp (r := r) hIntact (congrArg Prod.fst hRun)
  rw [hRun] at hAllowed
  exact ⟨_, hRun, no_pending_of_succeeds (hRest () _ hMigrated), hAllowed⟩

/-- Whatever file can be read and whatever the service holds, an opening in which every save and
every call succeeds works. It leaves no group pending and, with a service, no secret in the file.
The next one has no effect on the file or the service, whatever may be about to fail, and finds
the same groups, attributes and secrets. -/
theorem openUp_idempotent {d : Storage} {book : Book}
    (hFile : AccountFile.load d.file = .ok book) :
    ∃ p, d.start = .ok p ∧ r.openUp.run.Succeeds host (p, .none) ∧
      ∀ faults, r.openUp.run.Succeeds host (p, faults) →
        ∃ q faults', r.openUp.run.run host (p, faults) = (.ok (), q, faults') ∧
          q.book.pendingGroups = [] ∧
          (r.backend.isInline = false →
            q.book.AllKeys fun key => r.secrets.isSecretKey key = false) ∧
          ∃ q', q.toStorage.start = .ok q' ∧ q'.book = q.book ∧ q'.toStorage = q.toStorage ∧
            ∀ faults'', r.openUp.run.run host (q', faults'') = (.ok (), q', faults'') ∧
              r.openUp.run.cuts host (q', faults'') = [(q', faults'')] ∧
              (list.run.run host (q', faults'')).1 = (list.run.run host (q, faults')).1 := by
  have hStart := start_of_load hFile
  refine ⟨_, hStart, Program.succeeds_calm _ _, fun faults hOpen => ?_⟩
  obtain ⟨⟨q, faults'⟩, hRun, hDone, hIntact⟩ := settled_of_succeeds (intact_of_start hStart) hOpen
  refine ⟨q, faults', hRun, hDone, fun hBackend => ?_, { q with events := [] }, ?_, rfl, rfl,
    fun faults'' => ?_⟩
  · exact hIntact.allKeys.mono fun _ hKey => hKey.2.resolve_left (by simp [hBackend])
  · exact start_of_intact hIntact
  · have hIdle := openUp_idle (r := r) (s := ({ q with events := [] }, faults'')) hIntact.allKeys
      hDone
    exact ⟨hIdle.1, hIdle.2, rfl⟩

/-- The first opening removes two groups and moves a password, and the second one does nothing, not
even with a service that no longer answers. -/
theorem openUp_idempotent_of_cluttered :
    ∃ p q faults q', clutteredStorage.start = .ok p ∧
      ringRegistry.openUp.run.run host (p, .none) = (.ok (), q, faults) ∧
      q.toStorage.start = .ok q' ∧ q'.book.keys = [heldGroup] ∧ q'.vault.size = 1 ∧
      ringRegistry.openUp.run.cuts host (q', ⟨[], [.fails .timedOut]⟩) =
        [(q', ⟨[], [.fails .timedOut]⟩)] := by
  obtain ⟨p, hStart, hSucceeds, hOpens⟩ := openUp_idempotent (r := ringRegistry)
    load_clutteredStorage
  obtain ⟨q, faults, hRun, _, _, q', hAgain, hBook, hStorage, hIdle⟩ := hOpens .none hSucceeds
  have hEnd : ((ringRegistry.openUp.run.run host
        ({ clutteredStorage with book := clutteredBook, events := [] }, .none)).2.1.book.keys =
      [heldGroup]) ∧ ((ringRegistry.openUp.run.run host
        ({ clutteredStorage with book := clutteredBook, events := [] }, .none)).2.1.vault.size =
      1) := by decide +kernel
  obtain rfl : { clutteredStorage with book := clutteredBook, events := [] } = p := by
    rw [start_of_load load_clutteredStorage] at hStart
    exact Except.ok.inj hStart
  rw [hRun] at hEnd
  refine ⟨_, q, faults, q', hStart, hRun, hAgain, ?_, ?_, (hIdle _).2.1⟩
  · rw [hBook]
    exact hEnd.1
  · rw [hStorage]
    exact hEnd.2

end Accounts.Registry
