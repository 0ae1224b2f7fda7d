import Accounts.Proofs.Registry.Confidentiality
import Accounts.Proofs.Registry.Ownership
import Accounts.Proofs.Registry.Undisturbed

/-! Crash consistency. An operation that was cut off anywhere is made good by opening the registry
again: the accounts and the secrets are those from before the operation, or those from after it. -/
namespace Accounts

namespace Process

/-- The file keeps up with the book, holds only what it may, and every secret has its group. -/
structure Sound (r : Registry) (p : Process) : Prop where
  intact : p.Intact r.Allows
  owned : p.Owned r

end Process

namespace Registry
open Process Accounts.Action

variable {r : Registry} {g : GroupName} {p q : Process} {s : Process × Faults}

/-! ## Sound storage stays sound -/

theorem stable_sound_openUp (r : Registry) : Stable (Sound r) r.openUp := by
  intro s hSound
  have hIntact := (closed_allowed r).openUp s hSound.intact
  have hSettles := keeps_openUp hSound.owned hSound.intact.allKeys
  exact ⟨fun s' hCut => ⟨hIntact.1 s' hCut, (hSettles.1 s' hCut).owned⟩, trivial⟩

theorem stable_sound_action (op : Operation) : Stable (Sound r) (op.action r) := by
  intro s hSound
  have hIntact := respects_action (P := r.Allows) (fun _ h => h.1) (fun _ => allows_of_writes) op s
    hSound.intact
  have hOwned := stable_owned_action op s hSound.owned
  exact ⟨fun s' hCut => ⟨hIntact.1 s' hCut, hOwned.1 s' hCut⟩, trivial⟩

theorem stable_sound_session (r : Registry) (ops : List Operation) :
    Stable (Sound r) (r.session ops) :=
  (stable_sound_openUp r).bind fun _ => Preserves.forM fun op _ =>
    (Preserves.attempt (stable_sound_action op)).bind fun _ => Preserves.pure _

end Registry

namespace Storage
open Process

variable {r : Registry} {d d' : Storage}

theorem start_of_sound {p : Process} (h : p.Sound r) :
    ∃ q, p.toStorage.start = .ok q ∧ q.Sound r ∧ q.settled r = p.settled r := by
  refine ⟨_, start_of_load h.intact.load_file, ⟨⟨h.intact.load_file, h.intact.allKeys⟩, ?_⟩, rfl⟩
  exact h.owned

theorem start_unused (r : Registry) : ∃ p, Storage.unused.start = .ok p ∧ p.Sound r := by
  refine ⟨_, rfl, ⟨rfl, Book.allKeys_empty⟩, ?_⟩
  intro g _ e _
  rfl

/-- What each process restores for the next one, the last one finds. -/
theorem start_of_chain {J : Process → Prop} {R : Storage → Storage → Prop}
    (hStep : ∀ d d' p, d.start = .ok p → J p → R d d' → ∃ q, d'.start = .ok q ∧ J q)
    (hStart : ∃ p, d.start = .ok p ∧ J p) (h : Relation.ReflTransGen R d d') :
    ∃ p, d'.start = .ok p ∧ J p := by
  induction h with
  | refl => exact hStart
  | tail _ hLast ih =>
      obtain ⟨p, hMiddle, hJ⟩ := ih
      exact hStep _ _ p hMiddle hJ hLast

/-- Processes with one registry leave sound storage to each other. -/
theorem start_of_leaves (h : Relation.ReflTransGen (Storage.Leaves r) Storage.unused d) :
    ∃ p, d.start = .ok p ∧ p.Sound r := by
  refine start_of_chain (fun d d' p hStart hSound hLeaves => ?_) (start_unused r) h
  obtain ⟨p', ops, faults, s, hStart', hCut, rfl⟩ := hLeaves
  rw [hStart] at hStart'
  obtain rfl := Except.ok.inj hStart'
  have hLeft := (Registry.stable_sound_session r ops (p, faults) hSound).1 s hCut
  obtain ⟨q, hQ, hSoundQ, _⟩ := start_of_sound hLeft
  exact ⟨q, hQ, hSoundQ⟩

end Storage

namespace Registry
open Process Accounts.Action

variable {r : Registry} {g : GroupName} {p q : Process} {s : Process × Faults}

/-! ## Before or after -/

/-- Opening a registry with nothing in the way always works, and leaves nothing pending. -/
theorem calm_openUp (hSound : p.Sound r) :
    (r.openUp.calm p).1 = .ok () ∧ (r.openUp.calm p).2.book.pendingGroups = [] ∧
      (r.openUp.calm p).2.Sound r ∧
      ((r.openUp.calm p).2.book, (r.openUp.calm p).2.vault) = p.settled r := by
  have hMigrate : r.migrate.calm p = (.ok (), p) := by
    have hNothing := keeps_migrate_nothing (s := (p, .none)) (I := fun _ => True) trivial
      hSound.intact.allKeys
    exact Prod.ext hNothing.2.1 (congrArg Prod.fst hNothing.2.2)
  have hOpen : r.openUp.calm p = r.cleanUp.calm p := by
    rw [openUp, calm_bind_ok hMigrate]
  have hNone : (r.openUp.calm p).2.book.pendingGroups = [] := by
    rw [hOpen]
    exact pendingGroups_calm_cleanUp p
  refine ⟨?_, hNone, calm_of_stable (stable_sound_openUp r) hSound, ?_⟩
  · rw [hOpen, calm_cleanUp]
  · have hSettles := keeps_openUp (s := (p, .none)) hSound.owned hSound.intact.allKeys
    rw [← settled_of_no_pending (r := r) hNone]
    exact hSettles.last.settled_eq

end Registry

namespace Storage

/-- A process that only opened the registry was cut off somewhere and left `d'` of `d`. -/
def LeavesOpening (r : Registry) (d d' : Storage) : Prop :=
  ∃ p faults s, d.start = .ok p ∧ s ∈ r.openUp.run.cuts Process.host (p, faults) ∧
    s.1.toStorage = d'

end Storage

/-- A process that opened the registry on what others with that registry left, each cut off
somewhere and each with faults of its own, and came to rest between two operations. -/
def Process.Reachable (r : Registry) (p : Process) : Prop :=
  ∃ d p₀ ops faults faults', Relation.ReflTransGen (Storage.Leaves r) Storage.unused d ∧
    d.start = .ok p₀ ∧ (r.session ops).run.run Process.host (p₀, faults) = (.ok (), p, faults')

namespace Registry
open Process Accounts.Action

variable {r : Registry} {p : Process}

theorem sound_of_reachable (h : p.Reachable r) : p.Sound r := by
  obtain ⟨d, p₀, ops, faults, faults', hEarlier, hStart, hRun⟩ := h
  obtain ⟨q, hQ, hSound⟩ := Storage.start_of_leaves hEarlier
  rw [hStart] at hQ
  obtain rfl := Except.ok.inj hQ
  have hLast := (stable_sound_session r ops (p₀, faults) hSound).last
  rw [hRun] at hLast
  exact hLast

/-- Openings that are cut off do not change what is to come. -/
theorem start_of_openings {d : Storage} {s : Process} (hSound : s.Sound r)
    (hOpens : Relation.ReflTransGen (Storage.LeavesOpening r) s.toStorage d) :
    ∃ q, d.start = .ok q ∧ q.Sound r ∧ q.settled r = s.settled r := by
  refine Storage.start_of_chain (J := fun q => q.Sound r ∧ q.settled r = s.settled r)
    (fun d d' q hStart h hOpening => ?_) (Storage.start_of_sound hSound) hOpens
  obtain ⟨hSoundQ, hSettled⟩ := h
  obtain ⟨p', faults, s', hStart', hCut, rfl⟩ := hOpening
  rw [hStart] at hStart'
  obtain rfl := Except.ok.inj hStart'
  have hLeft := (stable_sound_openUp r (q, faults) hSoundQ).1 s' hCut
  have hSettles := (keeps_openUp (s := (q, faults)) hSoundQ.owned
    hSoundQ.intact.allKeys).1 s' hCut
  obtain ⟨x, hX, hSoundX, hSettledX⟩ := Storage.start_of_sound hLeft
  exact ⟨x, hX, hSoundX, (hSettledX.trans hSettles.settled_eq).trans hSettled⟩

/-- An operation that changes an account is cut off anywhere, and so is any number of openings
after it. The first opening that is not leaves no group pending, and all accounts and all secrets
as they were before the operation, or as the whole operation would have left them. -/
theorem before_or_after (hReach : p.Reachable r) (hPending : p.book.pendingGroups = [])
    {op : Operation} (hOp : op.isMutation = true) {s : Process × Faults}
    (hCut : s ∈ (op.action r).run.cuts host (p, .none)) {d : Storage}
    (hOpens : Relation.ReflTransGen (Storage.LeavesOpening r) s.1.toStorage d) :
    ∃ q q', d.start = .ok q ∧ r.openUp.run.run host (q, .none) = (.ok (), q', .none) ∧
      q'.book.pendingGroups = [] ∧ AccountFile.load q'.file = .ok q'.book ∧
      ((q'.book, q'.vault) = (p.book, p.vault) ∨
        (q'.book, q'.vault) =
          (((op.action r).calm p).2.book, ((op.action r).calm p).2.vault)) := by
  have hSound := sound_of_reachable hReach
  have hCutSound := (stable_sound_action op (p, .none) hSound).1 s hCut
  have hCutSettled := ((settles_mutation (s := (p, .none)) hSound.owned hOp).1 s hCut).2
  obtain ⟨q, hStart, hSoundQ, hSettled⟩ := start_of_openings hCutSound hOpens
  obtain ⟨hOk, hNone, hSoundOpen, hEnd⟩ := calm_openUp hSoundQ
  refine ⟨q, (r.openUp.calm q).2, hStart, ?_, hNone, hSoundOpen.intact.load_file, ?_⟩
  · rw [run_eq_calm, hOk]
  · rw [hEnd, hSettled]
    rcases hCutSettled with hBefore | hAfter
    · left
      rw [hBefore, settled_of_no_pending hPending]
    · right
      rw [hAfter]
      exact settled_of_no_pending (no_pending_mutation hPending hOp)

/-- The group of an account. -/
def accountGroup : GroupName :=
  ⟨"keeper", "health", "account0", checkGroup.isComponent_manager, checkGroup.isComponent_protocol,
    by decide⟩

/-- A session that creates the account, with a password. -/
def creation : Action Unit :=
  ringRegistry.session [.create "keeper" "health" (.ofList [("password", .string "old")])]

/-- A process that created the account on unused storage. -/
def accountProcess : Process := (creation.calm { Storage.unused with book := ∅, events := [] }).2

theorem reachable_accountProcess : accountProcess.Reachable ringRegistry := by
  have hOk : (creation.calm { Storage.unused with book := ∅, events := [] }).1 = .ok () := by
    decide +kernel
  refine ⟨Storage.unused, _, _, .none, .none, .refl, rfl, (run_eq_calm creation _).trans ?_⟩
  exact Prod.ext hOk rfl

/-- A removal that is cut off when the group is marked and its password is still there. -/
theorem before_or_after_of_interrupted_removal :
    ∃ s q q', s ∈ ((Operation.remove accountGroup).action ringRegistry).run.cuts host
        (accountProcess, .none) ∧
      s.1.book.pendingGroups = [accountGroup] ∧ s.1.vault.size = 1 ∧
      s.1.toStorage.start = .ok q ∧
      ringRegistry.openUp.run.run host (q, .none) = (.ok (), q', .none) ∧
      q'.book.pendingGroups = [] ∧ AccountFile.load q'.file = .ok q'.book ∧
      ((q'.book, q'.vault) = (accountProcess.book, accountProcess.vault) ∨
        (q'.book, q'.vault) =
          ((((Operation.remove accountGroup).action ringRegistry).calm accountProcess).2.book,
            (((Operation.remove accountGroup).action ringRegistry).calm accountProcess).2.vault)) := by
  have hLength : 1 < (((Operation.remove accountGroup).action ringRegistry).run.cuts host
      (accountProcess, .none)).length := by decide +kernel
  have hCut := List.getElem_mem hLength
  rw [List.getElem_eq_getD (accountProcess, .none)] at hCut
  have hNone : accountProcess.book.pendingGroups = [] := by decide +kernel
  obtain ⟨q, q', hEnd⟩ := before_or_after reachable_accountProcess hNone rfl hCut .refl
  exact ⟨_, q, q', hCut, by decide +kernel, by decide +kernel, hEnd⟩

end Registry
end Accounts
