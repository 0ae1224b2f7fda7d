import Accounts.Program

/-! Invariants of running programs. A program may be cut off before any of its effects, so an
invariant has to hold in every state that a run passes through and not only at its end. -/
namespace Accounts

namespace Program

variable {σ α β : Type} {host : Host σ} {I : σ → Prop}

/-- The states in which a run may be cut off: the one before each effect on a file or a service,
and the last one. -/
def cuts (host : Host σ) : Program α → σ → List σ
  | .done _, s => [s]
  | .book next, s => (next (host.book s)).cuts host s
  | .save b next, s => s :: (next (host.save b s).1).cuts host (host.save b s).2
  | .put e v next, s => s :: (next (host.put e v s).1).cuts host (host.put e v s).2
  | .get e next, s => s :: (next (host.get e s).1).cuts host (host.get e s).2
  | .delete e next, s => s :: (next (host.delete e s).1).cuts host (host.delete e s).2
  | .emit event next, s => next.cuts host (host.emit event s)

theorem run_mem_cuts (host : Host σ) (p : Program α) (s : σ) : (p.run host s).2 ∈ p.cuts host s := by
  induction p generalizing s with
  | done a => exact List.mem_singleton_self s
  | book next ih => exact ih _ _
  | save b next ih => exact List.mem_cons_of_mem _ (ih _ _)
  | put e v next ih => exact List.mem_cons_of_mem _ (ih _ _)
  | get e next ih => exact List.mem_cons_of_mem _ (ih _ _)
  | delete e next ih => exact List.mem_cons_of_mem _ (ih _ _)
  | emit event next ih => exact ih _

/-- One program after the other is cut off in the first one or in the second one. -/
theorem mem_cuts_bind {p : Program α} {f : α → Program β} {s s' : σ}
    (h : s' ∈ (p >>= f).cuts host s) :
    s' ∈ p.cuts host s ∨ s' ∈ (f (p.run host s).1).cuts host (p.run host s).2 := by
  change s' ∈ (p.bind f).cuts host s at h
  induction p generalizing s with
  | done a => exact Or.inr h
  | book next ih => exact ih _ h
  | save b next ih =>
      rcases List.mem_cons.mp h with rfl | hRest
      · exact Or.inl List.mem_cons_self
      · exact (ih _ hRest).imp_left (List.mem_cons_of_mem _)
  | put e v next ih =>
      rcases List.mem_cons.mp h with rfl | hRest
      · exact Or.inl List.mem_cons_self
      · exact (ih _ hRest).imp_left (List.mem_cons_of_mem _)
  | get e next ih =>
      rcases List.mem_cons.mp h with rfl | hRest
      · exact Or.inl List.mem_cons_self
      · exact (ih _ hRest).imp_left (List.mem_cons_of_mem _)
  | delete e next ih =>
      rcases List.mem_cons.mp h with rfl | hRest
      · exact Or.inl List.mem_cons_self
      · exact (ih _ hRest).imp_left (List.mem_cons_of_mem _)
  | emit event next ih => exact ih h

/-- Started in `s`, the program meets `I` wherever it may be cut off, and ends with a result and a
state in `Q`. -/
def Keeps (host : Host σ) (I : σ → Prop) (p : Program α) (s : σ) (Q : α → σ → Prop) : Prop :=
  (∀ s' ∈ p.cuts host s, I s') ∧ Q (p.run host s).1 (p.run host s).2

namespace Keeps

variable {p : Program α} {s : σ} {Q R : α → σ → Prop}

theorem last (h : Keeps host I p s Q) : I (p.run host s).2 :=
  h.1 _ (run_mem_cuts host p s)

theorem done {a : α} (hI : I s) (hQ : Q a s) : Keeps host I (.done a) s Q := by
  refine ⟨fun s' hCut => ?_, hQ⟩
  rw [List.mem_singleton.mp hCut]
  exact hI

theorem mono (h : Keeps host I p s R) (hImp : ∀ a s', I s' → R a s' → Q a s') :
    Keeps host I p s Q :=
  ⟨h.1, hImp _ _ h.last h.2⟩

theorem imp {I' : σ → Prop} (h : Keeps host I p s Q) (hImp : ∀ s', I s' → I' s') :
    Keeps host I' p s Q :=
  ⟨fun s' hCut => hImp s' (h.1 s' hCut), h.2⟩

theorem bind {f : α → Program β} {Q : β → σ → Prop} (hFirst : Keeps host I p s R)
    (hSecond : ∀ a s', I s' → R a s' → Keeps host I (f a) s' Q) :
    Keeps host I (p >>= f) s Q := by
  have hRest := hSecond _ _ hFirst.last hFirst.2
  constructor
  · intro s' hCut
    rcases mem_cuts_bind hCut with hCut | hCut
    · exact hFirst.1 s' hCut
    · exact hRest.1 s' hCut
  · rw [run_bind]
    exact hRest.2

end Keeps
end Program

namespace Action

variable {σ α β : Type} {host : Host σ} {I : σ → Prop} {s : σ}

theorem run_bind (a : Action α) (f : α → Action β) (s : σ) :
    (a >>= f).run.run host s = match a.run.run host s with
      | (.ok x, s') => (f x).run.run host s'
      | (.error e, s') => (.error e, s') := by
  rw [ExceptT.run_bind, Program.run_bind]
  cases a.run.run host s with
  | mk r s' =>
      cases r with
      | ok x => rfl
      | error e => rfl

theorem run_tryCatch (a : Action α) (handle : Error → Action α) (s : σ) :
    (tryCatch a handle).run.run host s = match a.run.run host s with
      | (.ok x, s') => (.ok x, s')
      | (.error e, s') => (handle e).run.run host s' := by
  rw [ExceptT.run_tryCatch, Program.run_bind]
  cases a.run.run host s with
  | mk r s' =>
      cases r with
      | ok x => rfl
      | error e => rfl

/-- The like for an action, whose result may be an error. -/
def Keeps (host : Host σ) (I : σ → Prop) (a : Action α) (s : σ)
    (Q : Except Error α → σ → Prop) : Prop :=
  Program.Keeps host I a.run s Q

namespace Keeps

variable {a : Action α} {Q R : Except Error α → σ → Prop}

theorem pure {x : α} (hI : I s) (hQ : Q (.ok x) s) : Keeps host I (pure x) s Q :=
  Program.Keeps.done hI hQ

theorem throw {e : Error} (hI : I s) (hQ : Q (.error e) s) : Keeps host I (throw e) s Q :=
  Program.Keeps.done hI hQ

theorem ofExcept {r : Except Error α} (hI : I s) (hQ : Q r s) :
    Keeps host I (Action.ofExcept r) s Q :=
  Program.Keeps.done hI hQ

theorem emit {event : Event} {Q : Except Error Unit → σ → Prop} (hI : I (host.emit event s))
    (hQ : Q (.ok ()) (host.emit event s)) : Keeps host I (Action.emit event) s Q := by
  refine ⟨fun s' hCut => ?_, hQ⟩
  rw [List.mem_singleton.mp hCut]
  exact hI

theorem mono (h : Keeps host I a s R) (hImp : ∀ r s', I s' → R r s' → Q r s') :
    Keeps host I a s Q :=
  Program.Keeps.mono h hImp

theorem imp {I' : σ → Prop} (h : Keeps host I a s Q) (hImp : ∀ s', I s' → I' s') :
    Keeps host I' a s Q :=
  Program.Keeps.imp h hImp

/-- What follows runs only if the first action ends well. -/
theorem bind {f : α → Action β} {Q : Except Error β → σ → Prop} (hFirst : Keeps host I a s R)
    (hOk : ∀ x s', I s' → R (.ok x) s' → Keeps host I (f x) s' Q)
    (hError : ∀ e s', I s' → R (.error e) s' → Q (.error e) s') :
    Keeps host I (a >>= f) s Q := by
  rw [Keeps, ExceptT.run_bind]
  refine Program.Keeps.bind hFirst fun r s' hI hR => ?_
  cases r with
  | ok x => exact hOk x s' hI hR
  | error e => exact Program.Keeps.done hI (hError e s' hI hR)

theorem tryCatch {handle : Error → Action α} (hBody : Keeps host I a s R)
    (hOk : ∀ x s', I s' → R (.ok x) s' → Q (.ok x) s')
    (hError : ∀ e s', I s' → R (.error e) s' → Keeps host I (handle e) s' Q) :
    Keeps host I (tryCatch a handle) s Q := by
  rw [Keeps, ExceptT.run_tryCatch]
  refine Program.Keeps.bind hBody fun r s' hI hR => ?_
  cases r with
  | ok x => exact Program.Keeps.done hI (hOk x s' hI hR)
  | error e => exact hError e s' hI hR

/-- What cleans up after a failure, and fails in its turn, is no other way to succeed. -/
theorem tryCatch_throw {cleanup : Error → Action β} {x : α} {J : σ → Prop}
    (hBody : Keeps host (fun _ => True) a s fun answer s' => answer = .ok x → J s') :
    Keeps host (fun _ => True)
      (MonadExcept.tryCatch a fun e => cleanup e >>= fun _ => MonadExcept.throw e) s
      fun answer s' => answer = .ok x → J s' := by
  refine hBody.tryCatch (fun _ _ _ hEnd => hEnd) fun e s' _ _ => ?_
  refine bind (R := fun _ _ => True) ⟨fun _ _ => trivial, trivial⟩
    (fun _ _ _ _ => throw trivial fun hOk => ?_) fun _ _ _ _ hOk => ?_
  · contradiction
  · contradiction

theorem attempt {Q : Except Error (Except Error α) → σ → Prop} (hBody : Keeps host I a s R)
    (hAny : ∀ r s', I s' → R r s' → Q (.ok r) s') : Keeps host I a.attempt s Q :=
  Program.Keeps.bind hBody fun r s' hI hR => Program.Keeps.done hI (hAny r s' hI hR)

theorem map {f : α → β} {Q : Except Error β → σ → Prop}
    (h : Keeps host I a s fun answer s' => Q (answer.map f) s') : Keeps host I (f <$> a) s Q := by
  rw [← bind_pure_comp]
  exact h.bind (fun _ _ hI hQ => pure hI hQ) fun _ _ _ hQ => hQ

/-- A loop over a list: `R rest` holds before the turns for `rest`. -/
theorem forM {f : β → Action Unit} {xs : List β} {R : List β → σ → Prop}
    {Q : Except Error Unit → σ → Prop} (hI : I s) (hStart : R xs s)
    (hTurn : ∀ x rest s', I s' → R (x :: rest) s' → Keeps host I (f x) s' fun r s'' =>
      match r with
      | .ok () => R rest s''
      | .error e => Q (.error e) s'')
    (hEnd : ∀ s', I s' → R [] s' → Q (.ok ()) s') : Keeps host I (xs.forM f) s Q := by
  induction xs generalizing s with
  | nil => exact pure hI (hEnd s hI hStart)
  | cons x rest ih =>
      exact bind (hTurn x rest s hI hStart) (fun _ s' hI' hRest => ih hI' hRest)
        fun e s' _ hQ => hQ

end Keeps

/-- An action that meets `I` wherever it may be cut off, if only it starts there. -/
def Preserves (host : Host σ) (I : σ → Prop) (a : Action α) : Prop :=
  ∀ s, I s → Keeps host I a s fun _ _ => True

namespace Preserves

variable {a : Action α}

theorem pure (x : α) : Preserves host I (pure x) :=
  fun _ hI => Keeps.pure hI trivial

theorem throw (e : Error) : Preserves host I (throw e : Action α) :=
  fun _ hI => Keeps.throw hI trivial

theorem ofExcept (r : Except Error α) : Preserves host I (Action.ofExcept r) :=
  fun _ hI => Keeps.ofExcept hI trivial

theorem bind {f : α → Action β} (hFirst : Preserves host I a)
    (hSecond : ∀ x, Preserves host I (f x)) : Preserves host I (a >>= f) :=
  fun s hI => (hFirst s hI).bind (fun x s' hI' _ => hSecond x s' hI') fun _ _ _ _ => trivial

theorem map {f : α → β} (h : Preserves host I a) : Preserves host I (f <$> a) :=
  fun s hI => (h s hI).map

theorem tryCatch {handle : Error → Action α} (hBody : Preserves host I a)
    (hHandle : ∀ e, Preserves host I (handle e)) : Preserves host I (tryCatch a handle) :=
  fun s hI => (hBody s hI).tryCatch (fun _ _ _ _ => trivial) fun e s' hI' _ => hHandle e s' hI'

theorem attempt (hBody : Preserves host I a) : Preserves host I a.attempt :=
  fun s hI => (hBody s hI).attempt fun _ _ _ _ => trivial

theorem forM {f : β → Action Unit} {xs : List β} (hTurn : ∀ x ∈ xs, Preserves host I (f x)) :
    Preserves host I (xs.forM f) := by
  induction xs with
  | nil => exact pure ()
  | cons x rest ih =>
      exact bind (hTurn x List.mem_cons_self) fun _ =>
        ih fun y hy => hTurn y (List.mem_cons_of_mem _ hy)

end Preserves
end Action
end Accounts
