import Mathlib.Tactic.Simps.Basic
import Accounts.Proofs.Process

/-! The turns of a keyring. Its calls queue up in the order in which they are issued, and the
service works on one at a time. A caller that loses patience takes its call out of the queue. Once
the call has its turn it goes on without the caller, and the turn is free again when it is over. -/
namespace Accounts

/-- A service that answers in this way to the removal of an entry says that there is none left. -/
def SaysGone (answer : Except ServiceError String) : Prop :=
  ∀ reason, answer ≠ .error (.unavailable reason)

namespace Vault

/-- What a service may answer to a call and make of its secrets. It may do its work or not, whatever
it answers, but it does not say that an entry is gone while there is one. -/
structure Serves (v : Vault) (request : Request) (answer : Except ServiceError String)
    (v' : Vault) : Prop where
  effect : v' = v ∨ v' = (v.serve request).2
  gone : ∀ e, request = .delete e → SaysGone answer → SortedMap.get? v' e = none

theorem serves_serve (v : Vault) (request : Request) :
    v.Serves request (v.serve request).1 (v.serve request).2 := by
  refine ⟨Or.inr rfl, fun e hDelete _ => ?_⟩
  rw [hDelete, serve_delete, SortedMap.get?_erase, if_pos rfl]

theorem serves_unavailable (v : Vault) (request : Request) (reason : String) :
    v.Serves request (.error (.unavailable reason)) v :=
  ⟨Or.inl rfl, fun _ _ hGone => absurd rfl (hGone reason)⟩

/-- No call but a write of an entry puts it there. -/
theorem Serves.get?_eq_none {v v' : Vault} {request : Request}
    {answer : Except ServiceError String} {e : Entry} (h : v.Serves request answer v')
    (hOther : ∀ value, request ≠ .put e value) (hNone : SortedMap.get? v e = none) :
    SortedMap.get? v' e = none := by
  rcases h.effect with rfl | rfl
  · exact hNone
  · cases request with
    | put e' value =>
        have hNe : e' ≠ e := fun hEq => hOther value (by rw [hEq])
        rw [serve, put, SortedMap.get?_insert, if_neg hNe, hNone]
    | get e' => exact hNone
    | delete e' =>
        rw [serve_delete, SortedMap.get?_erase, hNone, ite_self]

end Vault

/-- How far the service is with the call whose turn it is. -/
inductive Progress where
  /-- The call has the turn, but the service has not begun. -/
  | granted
  | running
  /-- The service has done what it does, and has an answer. -/
  | served (answer : Except ServiceError String)

/-- The calls of one keyring. A call is known by its place in the order of issue. -/
structure Turns where
  /-- What every call so far asks for, in the order of issue. -/
  issued : List Request
  /-- The calls that wait for their turn, in that order. -/
  waiting : List Nat
  /-- The call whose turn it is. -/
  turn : Option (Nat × Progress)
  /-- The calls whose turn is over, with what came of them, in the order of their turns. -/
  ended : List (Nat × Except CallFailure String)
  /-- The calls whose callers still wait for an answer. -/
  unanswered : List Nat

/-- What may happen to a call. -/
inductive Moment where
  /-- The call joins the queue. -/
  | issue (n : Nat) (request : Request)
  | take (n : Nat)
  /-- The service begins with the call. -/
  | start (n : Nat)
  /-- The call takes whatever effect it takes. -/
  | serve (n : Nat)
  /-- The turn is over. -/
  | finish (n : Nat) (answer : Except CallFailure String)
  /-- The caller hears an answer, or gives up. -/
  | reply (n : Nat) (answer : Except CallFailure String)

namespace Turns

/-- The keyring before its first call. -/
def idle : Turns := ⟨[], [], none, [], []⟩

@[simps]
def issue (t : Turns) (request : Request) : Turns :=
  { t with
    issued := t.issued ++ [request]
    waiting := t.waiting ++ [t.issued.length]
    unanswered := t.unanswered ++ [t.issued.length] }

/-- The turn passes to the head of the queue. -/
@[simps]
def grant (t : Turns) (n : Nat) : Turns :=
  { t with waiting := t.waiting.tail, turn := some (n, .granted) }

/-- The call whose turn it is gets further. -/
@[simps]
def advance (t : Turns) (n : Nat) (progress : Progress) : Turns :=
  { t with turn := some (n, progress) }

@[simps]
def release (t : Turns) (n : Nat) (answer : Except CallFailure String) : Turns :=
  { t with turn := none, ended := t.ended ++ [(n, answer)] }

@[simps]
def hear (t : Turns) (n : Nat) : Turns :=
  { t with unanswered := t.unanswered.erase n }

/-- The caller gives up. The call leaves the queue if it is still there, and otherwise goes on. -/
@[simps]
def giveUp (t : Turns) (n : Nat) : Turns :=
  { t with waiting := t.waiting.erase n, unanswered := t.unanswered.erase n }

/-- What may happen next. -/
inductive Step (v : Vault) (t : Turns) : Moment → Vault → Turns → Prop
  | issue (request : Request) : Step v t (.issue t.issued.length request) v (t.issue request)
  | take {n : Nat} (hFree : t.turn = none) (hHead : t.waiting.head? = some n) :
      Step v t (.take n) v (t.grant n)
  | start {n : Nat} (hTurn : t.turn = some (n, .granted)) :
      Step v t (.start n) v (t.advance n .running)
  | serve {n : Nat} {request : Request} {answer : Except ServiceError String} {v' : Vault}
      (hTurn : t.turn = some (n, .running)) (hRequest : t.issued[n]? = some request)
      (hServes : v.Serves request answer v') :
      Step v t (.serve n) v' (t.advance n (.served answer))
  | finish {n : Nat} {answer : Except ServiceError String}
      (hTurn : t.turn = some (n, .served answer)) :
      Step v t (.finish n (answer.mapError .refused)) v (t.release n (answer.mapError .refused))
  /-- The task that makes the call dies, at whatever point. -/
  | crash {n : Nat} {progress : Progress} (hTurn : t.turn = some (n, progress)) :
      Step v t (.finish n (.error .crashed)) v (t.release n (.error .crashed))
  | answer {n : Nat} {answer : Except CallFailure String} (hCaller : n ∈ t.unanswered)
      (hEnded : (n, answer) ∈ t.ended) : Step v t (.reply n answer) v (t.hear n)
  | timeOut {n : Nat} (hCaller : n ∈ t.unanswered) :
      Step v t (.reply n (.error .timedOut)) v (t.giveUp n)

/-- A schedule: one moment after the other. -/
inductive Run : Vault → Turns → List Moment → Vault → Turns → Prop
  | done (v : Vault) (t : Turns) : Run v t [] v t
  | step {v v' v'' : Vault} {t t' t'' : Turns} {m : Moment} {ms : List Moment}
      (hStep : Step v t m v' t') (hRest : Run v' t' ms v'' t'') : Run v t (m :: ms) v'' t''

variable {v v' : Vault} {t t' : Turns} {m : Moment} {ms before after : List Moment} {n k : Nat}

theorem Run.trans {v'' : Vault} {t'' : Turns} (hFirst : Run v t before v' t')
    (hSecond : Run v' t' after v'' t'') : Run v t (before ++ after) v'' t'' := by
  induction hFirst with
  | done => exact hSecond
  | step hStep _ ih => exact .step hStep (ih hSecond)

theorem Run.split {v'' : Vault} {t'' : Turns} (h : Run v t (before ++ after) v'' t'') :
    ∃ v' t', Run v t before v' t' ∧ Run v' t' after v'' t'' := by
  induction before generalizing v t with
  | nil => exact ⟨v, t, .done v t, h⟩
  | cons m before ih =>
      cases h with
      | step hStep hRest =>
          obtain ⟨v', t', hBefore, hAfter⟩ := ih hRest
          exact ⟨v', t', .step hStep hBefore, hAfter⟩

theorem Run.split_cons {v'' : Vault} {t'' : Turns} (h : Run v t (before ++ m :: after) v'' t'') :
    ∃ v₁ t₁ v₂ t₂, Run v t before v₁ t₁ ∧ Step v₁ t₁ m v₂ t₂ ∧ Run v₂ t₂ after v'' t'' := by
  obtain ⟨v₁, t₁, hBefore, hRest⟩ := h.split
  cases hRest with
  | step hStep hAfter => exact ⟨v₁, t₁, _, _, hBefore, hStep, hAfter⟩

/-! ## The line -/

/-- The calls that were not dropped, in the order of their turns. -/
def line (t : Turns) : List Nat :=
  t.ended.map Prod.fst ++ ((t.turn.map Prod.fst).toList ++ t.waiting)

theorem line_issue (t : Turns) (request : Request) :
    (t.issue request).line = t.line ++ [t.issued.length] := by
  simp [line]

theorem line_grant (hFree : t.turn = none) (hHead : t.waiting.head? = some n) :
    (t.grant n).line = t.line := by
  obtain ⟨rest, hWaiting⟩ := List.head?_eq_some_iff.mp hHead
  simp [line, hWaiting, hFree]

theorem line_advance {progress progress' : Progress} (hTurn : t.turn = some (n, progress)) :
    (t.advance n progress').line = t.line := by
  simp [line, hTurn]

theorem line_release {progress : Progress} (hTurn : t.turn = some (n, progress))
    (answer : Except CallFailure String) : (t.release n answer).line = t.line := by
  simp [line, hTurn]

theorem line_giveUp (t : Turns) (n : Nat) : (t.giveUp n).line.Sublist t.line := by
  unfold line giveUp
  exact ((List.erase_sublist).append_left _).append_left _

/-- Nobody joins the line but at its end, and nobody comes forward in it. -/
theorem Step.line (h : Step v t m v' t') :
    (t'.issued = t.issued ∧ t'.line.Sublist t.line) ∨
      ∃ request, m = .issue t.issued.length request ∧ t' = t.issue request := by
  cases h with
  | issue request => exact Or.inr ⟨request, rfl, rfl⟩
  | take hFree hHead => exact Or.inl ⟨rfl, by simp [line_grant hFree hHead]⟩
  | start hTurn => exact Or.inl ⟨rfl, by simp [line_advance hTurn]⟩
  | serve hTurn _ _ => exact Or.inl ⟨rfl, by simp [line_advance hTurn]⟩
  | finish hTurn => exact Or.inl ⟨rfl, by simp [line_release hTurn]⟩
  | crash hTurn => exact Or.inl ⟨rfl, by simp [line_release hTurn]⟩
  | answer _ _ => exact Or.inl ⟨rfl, .refl _⟩
  | timeOut _ => exact Or.inl ⟨rfl, line_giveUp t _⟩

/-- The calls in the line stand in the order of their issue. -/
structure Ordered (t : Turns) : Prop where
  increasing : t.line.Pairwise (· < ·)
  bounded : ∀ n ∈ t.line, n < t.issued.length

theorem ordered_idle : idle.Ordered := ⟨.nil, by simp [line, idle]⟩

theorem Ordered.step (h : t.Ordered) (hStep : Step v t m v' t') : t'.Ordered := by
  rcases hStep.line with ⟨hIssued, hLine⟩ | ⟨request, _, rfl⟩
  · refine ⟨h.increasing.sublist hLine, fun n hn => ?_⟩
    rw [hIssued]
    exact h.bounded n (hLine.subset hn)
  · constructor
    · rw [line_issue, List.pairwise_append]
      refine ⟨h.increasing, List.pairwise_singleton _ _, fun n hn k hk => ?_⟩
      rw [List.mem_singleton.mp hk]
      exact h.bounded n hn
    · intro n hn
      rw [line_issue, List.mem_append, List.mem_singleton] at hn
      have hLength : (t.issue request).issued.length = t.issued.length + 1 := by simp
      rcases hn with hn | hn
      · have := h.bounded n hn
        omega
      · omega

theorem Ordered.run (h : t.Ordered) (hRun : Run v t ms v' t') : t'.Ordered := by
  induction hRun with
  | done => exact h
  | step hStep _ ih => exact ih (h.step hStep)

end Turns
end Accounts
