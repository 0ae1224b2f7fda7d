import Accounts.Proofs.AccountFile
import Accounts.Proofs.Registry.Change

/-! No operation of a registry parts the account file from the book in memory, or puts a key into it
that the registry does not write, whatever fails on the way. -/
namespace Accounts

namespace Registry
open Process Accounts.Action

variable {P : String → Prop} {α : Type}

/-- What an action may not do to the account file, whatever fails. -/
abbrev Respects (P : String → Prop) (a : Action α) : Prop := Stable (Intact P) a

/-- No effect of a registry parts the file from the book. -/
theorem closed_intact {r : Registry} (hP : ∀ key, P key → KeyFile.IsWritable key)
    (hWrites : ∀ key, r.Writes key → P key) : r.Closed (Intact P) := by
  intro p q hChange hI
  cases hChange with
  | write g entries hKeys =>
      exact Intact.save hP p (hI.allKeys.write fun e he => hWrites e.1 (hKeys e he))
  | eraseKey g key => exact Intact.save hP p (hI.allKeys.eraseKey g key)
  | erase g => exact Intact.save hP p (hI.allKeys.erase g)
  | put g e hEntry value => exact ⟨hI.load_file, hI.allKeys⟩
  | remove g e hEntry => exact ⟨hI.load_file, hI.allKeys⟩
  | notify event => exact ⟨hI.load_file, hI.allKeys⟩

theorem closed_writable (r : Registry) : r.Closed (Intact KeyFile.IsWritable) :=
  closed_intact (fun _ h => h) fun _ h => KeyFile.isWritable_of_isKey h.1

theorem closed_allowed (r : Registry) : r.Closed (Intact r.Allows) :=
  closed_intact (fun _ h => h.1) fun _ => allows_of_writes

variable (hP : ∀ key, P key → KeyFile.IsWritable key) {r : Registry}
  (hWrites : ∀ key, r.Writes key → P key)
include hP hWrites

/-- No operation breaks the file, whatever fails during it. -/
theorem respects_action (op : Operation) : Respects P (op.action r) :=
  (closed_intact hP hWrites).action_of_put (fun _ _ _ hI => ⟨hI.load_file, hI.allKeys⟩) op

theorem respects_work (ops : List Operation) : Respects P (r.work ops) :=
  Preserves.forM fun op _ =>
    (Preserves.attempt (respects_action hP hWrites op)).bind fun _ => Preserves.pure _

omit hP hWrites

/-- What a session leaves, wherever it is cut off, can be read again. -/
theorem intact_of_session {r : Registry} {ops : List Operation} {p : Process} {faults : Faults}
    {s : Process × Faults} (hStart : p.Intact KeyFile.IsWritable)
    (hCut : s ∈ (r.session ops).run.cuts host (p, faults)) : s.1.Intact KeyFile.IsWritable := by
  have hSession : Respects KeyFile.IsWritable (r.session ops) :=
    (closed_writable r).openUp.bind fun _ =>
      respects_work (fun _ h => h) (fun _ h => KeyFile.isWritable_of_isKey h.1) ops
  exact (hSession (p, faults) hStart).1 s hCut

end Registry

/-- Storage that a process can start from stays so, whatever the registry of each process is,
whatever fails, and wherever each process is cut off. -/
theorem Storage.load_of_leaves {d d' : Storage} {book : Book}
    (hFile : AccountFile.load d.file = .ok book)
    (hEarlier : Relation.ReflTransGen (fun d d' => ∃ r, Storage.Leaves r d d') d d') :
    ∃ book, AccountFile.load d'.file = .ok book := by
  induction hEarlier with
  | refl => exact ⟨book, hFile⟩
  | tail _ hLast ih =>
      obtain ⟨r, p, ops, faults, s, hStart, hCut, rfl⟩ := hLast
      have hIntact := Registry.intact_of_session (Process.intact_of_start hStart) hCut
      exact ⟨s.1.book, hIntact.load_file⟩

end Accounts
