import Accounts.Book
import Accounts.Event
import Accounts.Secret.Service

/-! Programs over the account file and a secret service. A program says which effects it wants and
goes on with what each of them answers. A host decides the answers, so failing saves, services that
do not answer and crashes between two effects are all hosts, and none of them is part of a
program. -/
namespace Accounts

/-- A program with a result in `α`. Each node but the first is one effect. -/
inductive Program (α : Type) where
  | done (result : α)
  /-- Look at the book that the store holds in memory. -/
  | book (next : Book → Program α)
  /-- Replace the account file. The store holds the new book only if this succeeds. -/
  | save (book : Book) (next : Except String Unit → Program α)
  /-- Write a secret. -/
  | put (entry : Entry) (value : String) (next : Except CallFailure Unit → Program α)
  /-- Read a secret. -/
  | get (entry : Entry) (next : Except CallFailure String → Program α)
  /-- Remove a secret. -/
  | delete (entry : Entry) (next : Except CallFailure Unit → Program α)
  /-- Give notice of a change. -/
  | emit (event : Event) (next : Program α)

namespace Program

variable {α β γ : Type}

/-- Run `p` and then the program made from its result. -/
def bind (p : Program α) (f : α → Program β) : Program β :=
  match p with
  | .done a => f a
  | .book next => .book fun b => (next b).bind f
  | .save b next => .save b fun r => (next r).bind f
  | .put e v next => .put e v fun r => (next r).bind f
  | .get e next => .get e fun r => (next r).bind f
  | .delete e next => .delete e fun r => (next r).bind f
  | .emit event next => .emit event (next.bind f)

instance : Monad Program where
  pure := .done
  bind := bind

theorem bind_done (p : Program α) : p.bind .done = p := by
  induction p with
  | done a => rfl
  | book next ih => simp only [bind]; congr 1; funext b; exact ih b
  | save b next ih => simp only [bind]; congr 1; funext r; exact ih r
  | put e v next ih => simp only [bind]; congr 1; funext r; exact ih r
  | get e next ih => simp only [bind]; congr 1; funext r; exact ih r
  | delete e next ih => simp only [bind]; congr 1; funext r; exact ih r
  | emit event next ih => simp only [bind]; congr 1

theorem bind_assoc (p : Program α) (f : α → Program β) (g : β → Program γ) :
    (p.bind f).bind g = p.bind fun a => (f a).bind g := by
  induction p with
  | done a => rfl
  | book next ih => simp only [bind]; congr 1; funext b; exact ih b
  | save b next ih => simp only [bind]; congr 1; funext r; exact ih r
  | put e v next ih => simp only [bind]; congr 1; funext r; exact ih r
  | get e next ih => simp only [bind]; congr 1; funext r; exact ih r
  | delete e next ih => simp only [bind]; congr 1; funext r; exact ih r
  | emit event next ih => simp only [bind]; congr 1

instance : LawfulMonad Program :=
  LawfulMonad.mk' Program (fun p => bind_done p) (fun _ _ => rfl) (fun p f g => bind_assoc p f g)

end Program

/-- What carries out the effects of a program, changing a state on the way. -/
structure Host (σ : Type) where
  book : σ → Book
  save : Book → σ → Except String Unit × σ
  put : Entry → String → σ → Except CallFailure Unit × σ
  get : Entry → σ → Except CallFailure String × σ
  delete : Entry → σ → Except CallFailure Unit × σ
  emit : Event → σ → σ

namespace Program

variable {σ α β : Type}

/-- Run a program to its end. -/
def run (host : Host σ) : Program α → σ → α × σ
  | .done a, s => (a, s)
  | .book next, s => (next (host.book s)).run host s
  | .save b next, s => (next (host.save b s).1).run host (host.save b s).2
  | .put e v next, s => (next (host.put e v s).1).run host (host.put e v s).2
  | .get e next, s => (next (host.get e s).1).run host (host.get e s).2
  | .delete e next, s => (next (host.delete e s).1).run host (host.delete e s).2
  | .emit event next, s => next.run host (host.emit event s)

@[simp] theorem run_pure (host : Host σ) (a : α) (s : σ) :
    (pure a : Program α).run host s = (a, s) := rfl

/-- Running one program after the other threads the state through both. -/
@[simp] theorem run_bind (host : Host σ) (p : Program α) (f : α → Program β) (s : σ) :
    (p >>= f).run host s = (f (p.run host s).1).run host (p.run host s).2 := by
  change (p.bind f).run host s = _
  induction p generalizing s with
  | done a => rfl
  | book next ih => exact ih _ _
  | save b next ih => exact ih _ _
  | put e v next ih => exact ih _ _
  | get e next ih => exact ih _ _
  | delete e next ih => exact ih _ _
  | emit event next ih => exact ih _

end Program

/-- A program that ends with a result or with an error. -/
abbrev Action := ExceptT Error Program

/-- An action that has no effects. -/
def Action.ofExcept {α : Type} (r : Except Error α) : Action α := ExceptT.mk (pure r)

/-- Take the outcome of an action as a value, so that what follows happens either way. -/
def Action.attempt {α : Type} (a : Action α) : Action (Except Error α) :=
  ExceptT.mk (a.run >>= fun outcome => pure (.ok outcome))

/-- Give notice of a change. -/
def Action.emit (event : Event) : Action Unit := ExceptT.mk (.emit event (.done (.ok ())))

end Accounts
