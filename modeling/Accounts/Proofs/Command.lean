import Accounts.Command.Run
import Accounts.Proofs.Registry.Operation

/-! A command uses the registry for one operation at most, and prints what it makes of the answer. -/
namespace Accounts.Command

/-- The operation that a command asks for, if it asks for one. The text that it gives for a group may
name none. -/
def operation? : Command → Except Error (Option Operation)
  | .list => .ok (some .list)
  | .create manager protocol params =>
    .ok (some (.create manager protocol (.ofList (params.map fun p => (p.1, .string p.2)))))
  | .set group key value =>
    (GroupName.parse group).map fun g => some (.setProperty g key (.string value))
  | .get group key => (GroupName.parse group).map fun g => some (.read g key)
  | .remove group => (GroupName.parse group).map fun g => some (.remove g)
  | .dump _ => .ok (some .dump)
  | .health => .ok (some .check)
  | .configInit => .ok none
  | .version => .ok none

/-- What a command prints of the answer. -/
def output (r : Registry) (path : String) : Command → Reply → String
  | .list, .groups gs => "\n".intercalate (gs.map GroupName.sectionName)
  | .create .., .group g => g.sectionName
  | .get .., .text text => text
  | .dump json, .book book => if json then book.dumpJson else book.dumpText
  | .health, .done => "Accounts: " ++ path ++ " ok\nSecrets (" ++ r.backend.name ++ "): ok"
  | _, _ => ""

/-- An action on the group that a text names. -/
theorem ofExcept_map_bind {α β γ : Type} (x : Except Error α) (f : α → β) (next : β → Action γ) :
    (Action.ofExcept (x.map f) >>= next) = Action.ofExcept x >>= fun a => next (f a) := by
  cases x with
  | ok a => rfl
  | error e => rfl

theorem run_eq (r : Registry) (path : String) (c : Command) :
    c.run r path = Action.ofExcept c.operation? >>= fun op? =>
      match op? with
      | some op => c.output r path <$> op.action r
      | none => pure "" := by
  cases c with
  | list =>
      rw [run, bind_pure_comp]
      exact (Functor.map_map Reply.groups (output r path .list) _).symm
  | create manager protocol params =>
      rw [run, bind_pure_comp]
      exact (Functor.map_map Reply.group (output r path (.create manager protocol params)) _).symm
  | set group key value =>
      rw [operation?, ofExcept_map_bind, run]
      refine bind_congr fun g => ?_
      rw [bind_pure_comp]
      exact (Functor.map_map (fun _ => Reply.done) (output r path (.set group key value)) _).symm
  | get group key =>
      rw [operation?, ofExcept_map_bind, run]
      refine bind_congr fun g => ?_
      rw [← id_map (r.read g key)]
      exact (Functor.map_map Reply.text (output r path (.get group key)) _).symm
  | remove group =>
      rw [operation?, ofExcept_map_bind, run]
      refine bind_congr fun g => ?_
      rw [bind_pure_comp]
      exact (Functor.map_map (fun _ => Reply.done) (output r path (.remove group)) _).symm
  | dump json =>
      rw [run, bind_pure_comp]
      exact (Functor.map_map Reply.book (output r path (.dump json)) _).symm
  | health =>
      rw [run, bind_pure_comp]
      exact (Functor.map_map (fun _ => Reply.done) (output r path .health) _).symm
  | configInit => rfl
  | version => rfl

end Accounts.Command
