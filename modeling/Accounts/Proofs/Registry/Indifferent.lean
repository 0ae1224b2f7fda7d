import Accounts.Proofs.Ahead
import Accounts.Proofs.Registry.Basic
import Accounts.Proofs.Registry.Operation

/-! What the registry does without looking. Its mutations and its opening read no secrets, and do
not care whether there was one where they removed it. -/
namespace Accounts

namespace Store
open Accounts.Action

variable (g : GroupName)

theorem indifferent_book : Indifferent book := fun _ => trivial

theorem indifferent_commit (b : Book) : Indifferent (commit b) := by
  intro answer
  cases answer with
  | ok _ => trivial
  | error reason => trivial

theorem indifferent_setMany (entries : List (String × String)) :
    Indifferent (setMany g entries) := by
  unfold setMany
  split
  · exact .throw _
  · exact indifferent_book.bind fun b => indifferent_commit _

theorem indifferent_delete (key : String) : Indifferent (delete g key) := by
  refine indifferent_book.bind fun b => ?_
  split_ifs
  · exact indifferent_commit _
  · exact .pure _

theorem indifferent_deleteGroup : Indifferent (deleteGroup g) := by
  refine indifferent_book.bind fun b => ?_
  split_ifs
  · exact (indifferent_commit _).bind fun _ => .pure _
  · exact .pure _

theorem indifferent_markPending : Indifferent (markPending g) := by
  refine indifferent_book.bind fun b => ?_
  split_ifs
  · exact .throw _
  · exact .pure _
  · exact indifferent_setMany g _

end Store

namespace Backend
open Accounts.Action

theorem indifferent_set (backend : Backend) (g : GroupName) (key value : String) :
    Indifferent (backend.set g key value) := by
  cases backend with
  | inline => exact Store.indifferent_setMany g _
  | keyring ring =>
      intro answer
      cases answer with
      | ok _ => trivial
      | error failure => trivial

theorem indifferent_delete (backend : Backend) (g : GroupName) (key : String) :
    Indifferent (backend.delete g key) := by
  cases backend with
  | inline => exact Store.indifferent_delete g key
  | keyring ring =>
      refine ⟨rfl, fun answer => ?_⟩
      dsimp only
      split
      · trivial
      · trivial
      · trivial

end Backend

namespace Registry
open Accounts.Action

variable (r : Registry)

theorem indifferent_finishRemoval (g : GroupName) : Indifferent (r.finishRemoval g) := by
  rw [finishRemoval_eq]
  refine .tryCatch (.bind (.forM (fun key => r.backend.indifferent_delete g key) _) fun _ => ?_)
    fun e => .throw _
  exact (Store.indifferent_deleteGroup g).bind fun _ => .pure _

theorem indifferent_abandon (g : GroupName) : Indifferent (r.abandon g) :=
  (r.indifferent_finishRemoval g).tryCatch fun _ => .pure _

theorem indifferent_publish (g : GroupName) (secrets : List (String × String)) :
    Indifferent (r.publish g secrets) :=
  .bind (.forM (fun e : String × String => r.backend.indifferent_set g e.1 e.2) secrets) fun _ =>
    Store.indifferent_delete g pendingKey

theorem indifferent_establish (g : GroupName) (a : Attributes) (secrets : List (String × String)) :
    Indifferent (r.establish g a secrets) := by
  refine (Store.indifferent_setMany g _).bind fun _ => .bind ?_ fun _ => ?_
  · refine (r.indifferent_publish g secrets).tryCatch fun e => ?_
    exact (r.indifferent_abandon g).bind fun _ => .throw e
  · exact (Indifferent.emit _).bind fun _ => .pure g

theorem indifferent_create (manager protocol : String) (params : SortedMap String Value) :
    Indifferent (r.create manager protocol params) := by
  rw [create_eq]
  refine Store.indifferent_book.bind fun b => ?_
  split
  · exact .throw _
  · refine Store.indifferent_book.bind fun b' => ?_
    exact (Indifferent.ofExcept _).bind fun g => r.indifferent_establish g _ _

theorem indifferent_write (g : GroupName) (key : String) (value : Value) :
    Indifferent (r.write g key value) := by
  refine .bind (Store.indifferent_book.bind fun b => ?_) fun _ => ?_
  · split_ifs
    · exact .pure _
    · exact .throw _
  · split_ifs
    · exact .throw _
    · exact r.backend.indifferent_set g key _
    · exact Store.indifferent_setMany g _

theorem indifferent_remove (g : GroupName) : Indifferent (r.remove g) := by
  refine Store.indifferent_book.bind fun b => ?_
  split_ifs
  · exact .throw _
  · exact (Store.indifferent_markPending g).bind fun _ =>
      (r.indifferent_finishRemoval g).bind fun _ => .emit _

theorem indifferent_mutation {op : Operation} (h : op.isMutation = true) :
    Indifferent (op.action r) := by
  cases op, h using Operation.mutation_cases with
  | create manager protocol params => exact (r.indifferent_create manager protocol params).map
  | setProperty g key value => exact ((r.indifferent_write g key value).bind fun _ => .emit _).map
  | setEnabled g enabled => exact ((r.indifferent_write g enabledKey _).bind fun _ => .emit _).map
  | remove g => exact (r.indifferent_remove g).map

theorem indifferent_openUp : Indifferent r.openUp := by
  refine .bind ?_ fun _ => Store.indifferent_book.bind fun b => .forM r.indifferent_abandon _
  cases hInline : r.backend.isInline with
  | true =>
      rw [migrate_inline hInline]
      exact .pure _
  | false =>
      rw [migrate_eq hInline]
      refine Store.indifferent_book.bind fun b => .forM (fun e => ?_) _
      exact (r.backend.indifferent_set _ _ _).bind fun _ => Store.indifferent_delete _ _

end Registry
end Accounts
