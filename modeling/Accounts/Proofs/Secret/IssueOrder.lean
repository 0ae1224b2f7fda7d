import Mathlib.Tactic.SplitIfs
import Accounts.Proofs.Secret.Turns
import Accounts.Registry.Check

/-! The service works on the calls of a keyring in the order of their issue, one at a time. A call
that was answered is over, and so are all calls before it that will ever run. A removal that was
answered is therefore not undone by a write that was issued before it. -/
namespace Accounts
namespace Turns

variable {v v' v'' : Vault} {t t' t'' : Turns} {m : Moment} {ms before after : List Moment}
  {n k : Nat} {answer : Except CallFailure String} {progress : Progress} {e : Entry}

/-- The turn of the call is over. -/
def Over (t : Turns) (k : Nat) : Prop := ∃ answer, (k, answer) ∈ t.ended

/-- The service has begun with the call. -/
def Begun (t : Turns) (k : Nat) : Prop :=
  t.Over k ∨ ∃ progress, t.turn = some (k, progress) ∧ progress ≠ .granted

/-- The call has taken its effect, if it takes any. -/
def Served (t : Turns) (k : Nat) : Prop :=
  t.Over k ∨ ∃ answer, t.turn = some (k, .served answer)

/-! ## What one moment does -/

theorem Step.issued_iff (h : Step v t m v' t') (k : Nat) (request : Request) :
    t'.issued[k]? = some request ↔ t.issued[k]? = some request ∨ m = .issue k request := by
  cases h with
  | issue request' =>
      simp only [issue_issued, Moment.issue.injEq, List.getElem?_append]
      split_ifs with hOld
      · have hNew : t.issued.length ≠ k := by omega
        simp [hNew]
      · have hNone : t.issued[k]? = none := List.getElem?_eq_none (by omega)
        rw [hNone, List.getElem?_singleton]
        split_ifs with hFirst
        · have hNew : t.issued.length = k := by omega
          simp [hNew]
        · have hNew : t.issued.length ≠ k := by omega
          simp [hNew]
  | take _ _ => simp
  | start _ => simp
  | serve _ _ _ => simp
  | finish _ => simp
  | crash _ => simp
  | answer _ _ => simp
  | timeOut _ => simp

theorem Step.ended_iff (h : Step v t m v' t') (k : Nat) (answer : Except CallFailure String) :
    (k, answer) ∈ t'.ended ↔ (k, answer) ∈ t.ended ∨ m = .finish k answer := by
  cases h with
  | issue _ => simp
  | take _ _ => simp
  | start _ => simp
  | serve _ _ _ => simp
  | finish _ => simp [eq_comm]
  | crash _ => simp [eq_comm]
  | answer _ _ => simp
  | timeOut _ => simp

theorem Step.over (h : Step v t m v' t') (hOver : t.Over k) : t'.Over k := by
  obtain ⟨answer, hEnded⟩ := hOver
  exact ⟨answer, (h.ended_iff k answer).mpr (Or.inl hEnded)⟩

/-- The call whose turn it was keeps its turn, or its turn is over. -/
theorem Step.over_or_turn (h : Step v t m v' t') (hTurn : t.turn = some (k, progress)) :
    t'.Over k ∨ ∃ progress', t'.turn = some (k, progress') ∧
      (progress ≠ .granted → progress' ≠ .granted) ∧
      ((∃ answer, progress = .served answer) → ∃ answer, progress' = .served answer) := by
  cases h with
  | issue _ => exact Or.inr ⟨progress, hTurn, id, id⟩
  | take hFree _ => simp [hFree] at hTurn
  | start hHere =>
      obtain ⟨rfl, rfl⟩ := Prod.mk.inj (Option.some.inj (hHere.symm.trans hTurn))
      exact Or.inr ⟨.running, rfl, by simp, by simp⟩
  | serve hHere _ _ =>
      obtain ⟨rfl, rfl⟩ := Prod.mk.inj (Option.some.inj (hHere.symm.trans hTurn))
      exact Or.inr ⟨.served _, rfl, by simp, by simp⟩
  | finish hHere =>
      obtain ⟨rfl, rfl⟩ := Prod.mk.inj (Option.some.inj (hHere.symm.trans hTurn))
      exact Or.inl ⟨_, List.mem_append_right _ (List.mem_singleton_self _)⟩
  | crash hHere =>
      obtain ⟨rfl, rfl⟩ := Prod.mk.inj (Option.some.inj (hHere.symm.trans hTurn))
      exact Or.inl ⟨_, List.mem_append_right _ (List.mem_singleton_self _)⟩
  | answer _ _ => exact Or.inr ⟨progress, hTurn, id, id⟩
  | timeOut _ => exact Or.inr ⟨progress, hTurn, id, id⟩

theorem Step.begun (h : Step v t m v' t') (hBegun : t.Begun k) : t'.Begun k := by
  rcases hBegun with hOver | ⟨progress, hTurn, hAfter⟩
  · exact Or.inl (h.over hOver)
  · rcases h.over_or_turn hTurn with hOver | ⟨progress', hTurn', hAfter', _⟩
    · exact Or.inl hOver
    · exact Or.inr ⟨progress', hTurn', hAfter' hAfter⟩

theorem Step.served (h : Step v t m v' t') (hServed : t.Served k) : t'.Served k := by
  rcases hServed with hOver | ⟨answer, hTurn⟩
  · exact Or.inl (h.over hOver)
  · rcases h.over_or_turn hTurn with hOver | ⟨progress', hTurn', _, hLater⟩
    · exact Or.inl hOver
    · obtain ⟨answer', rfl⟩ := hLater ⟨answer, rfl⟩
      exact Or.inr ⟨answer', hTurn'⟩

theorem Step.begun_of_start (h : Step v t (.start k) v' t') :
    t.turn = some (k, .granted) ∧ t'.Begun k := by
  cases h with
  | start hTurn => exact ⟨hTurn, Or.inr ⟨.running, rfl, by simp⟩⟩

theorem Step.served_of_serve (h : Step v t (.serve k) v' t') :
    t.turn = some (k, .running) ∧ t'.Served k := by
  cases h with
  | serve hTurn _ _ => exact ⟨hTurn, Or.inr ⟨_, rfl⟩⟩

/-- Only a call that the service begins with, or has begun with, gets any further than that. -/
theorem Step.start_of_turn (h : Step v t m v' t') (hTurn' : t'.turn = some (k, progress))
    (hAfter : progress ≠ .granted) :
    m = .start k ∨ ∃ progress', t.turn = some (k, progress') ∧ progress' ≠ .granted := by
  cases h with
  | issue _ => exact Or.inr ⟨progress, hTurn', hAfter⟩
  | take _ _ =>
      obtain ⟨rfl, rfl⟩ := Prod.mk.inj (Option.some.inj hTurn')
      contradiction
  | start _ =>
      obtain ⟨rfl, rfl⟩ := Prod.mk.inj (Option.some.inj hTurn')
      exact Or.inl rfl
  | serve hTurn _ _ =>
      obtain ⟨rfl, rfl⟩ := Prod.mk.inj (Option.some.inj hTurn')
      exact Or.inr ⟨.running, hTurn, by simp⟩
  | finish _ => simp at hTurn'
  | crash _ => simp at hTurn'
  | answer _ _ => exact Or.inr ⟨progress, hTurn', hAfter⟩
  | timeOut _ => exact Or.inr ⟨progress, hTurn', hAfter⟩

/-! ## What a schedule says of the calls -/

/-- The schedule tells of every call what it has come to. -/
structure Traced (ms : List Moment) (t : Turns) : Prop where
  ordered : t.Ordered
  issued : ∀ k request, .issue k request ∈ ms ↔ t.issued[k]? = some request
  ended : ∀ k answer, .finish k answer ∈ ms ↔ (k, answer) ∈ t.ended
  begun : ∀ k, .start k ∈ ms → t.Begun k
  served : ∀ k, .serve k ∈ ms → t.Served k
  started : ∀ k progress, t.turn = some (k, progress) → progress ≠ .granted → .start k ∈ ms

theorem traced_idle : Traced [] idle :=
  ⟨ordered_idle, by simp [idle], by simp [idle], by simp, by simp, by simp [idle]⟩

theorem Traced.step (h : Traced ms t) (hStep : Step v t m v' t') : Traced (ms ++ [m]) t' := by
  refine ⟨h.ordered.step hStep, fun k request => ?_, fun k answer => ?_, fun k hStart => ?_,
    fun k hServe => ?_, fun k progress hTurn hAfter => ?_⟩
  · rw [List.mem_append, List.mem_singleton, h.issued, hStep.issued_iff, @eq_comm _ m]
  · rw [List.mem_append, List.mem_singleton, h.ended, hStep.ended_iff, @eq_comm _ m]
  · rcases List.mem_append.mp hStart with hOld | hNew
    · exact hStep.begun (h.begun k hOld)
    · obtain rfl := List.mem_singleton.mp hNew
      exact hStep.begun_of_start.2
  · rcases List.mem_append.mp hServe with hOld | hNew
    · exact hStep.served (h.served k hOld)
    · obtain rfl := List.mem_singleton.mp hNew
      exact hStep.served_of_serve.2
  · rcases hStep.start_of_turn hTurn hAfter with rfl | ⟨progress', hTurn', hAfter'⟩
    · exact List.mem_append_right _ (List.mem_singleton_self _)
    · exact List.mem_append_left _ (h.started k progress' hTurn' hAfter')

theorem Traced.run (h : Traced before t) (hRun : Run v t ms v' t') : Traced (before ++ ms) t' := by
  induction hRun generalizing before with
  | done => simpa using h
  | step hStep _ ih => simpa using ih (h.step hStep)

theorem traced_of_run (hRun : Run v idle ms v' t) : Traced ms t :=
  traced_idle.run hRun

/-! ## Who comes before whom -/

theorem mem_line_of_over (h : t.Over k) : k ∈ t.line := by
  obtain ⟨answer, hEnded⟩ := h
  exact List.mem_append_left _ (List.mem_map_of_mem hEnded)

theorem mem_line_of_turn (h : t.turn = some (k, progress)) : k ∈ t.line := by
  simp [line, h]

theorem mem_line_of_begun (h : t.Begun k) : k ∈ t.line := by
  rcases h with hOver | ⟨progress, hTurn, _⟩
  · exact mem_line_of_over hOver
  · exact mem_line_of_turn hTurn

/-- Calls whose turns are over were issued before all others that are in the line. -/
theorem Ordered.lt_of_over (h : t.Ordered) (hOver : t.Over n) (hLine : k ∈ t.line)
    (hNot : ¬t.Over k) : n < k := by
  obtain ⟨answer, hEnded⟩ := hOver
  have hFirst : n ∈ t.ended.map Prod.fst := List.mem_map_of_mem hEnded
  rcases List.mem_append.mp hLine with hEarly | hLate
  · obtain ⟨⟨_, answer'⟩, hEnded', rfl⟩ := List.mem_map.mp hEarly
    exact absurd ⟨answer', hEnded'⟩ hNot
  · exact (List.pairwise_append.mp h.increasing).2.2 n hFirst k hLate

/-- Nobody has a turn twice. -/
theorem Ordered.not_over_of_turn (h : t.Ordered) (hTurn : t.turn = some (k, progress)) :
    ¬t.Over k := by
  rintro ⟨answer, hEnded⟩
  have hFirst : k ∈ t.ended.map Prod.fst := List.mem_map_of_mem hEnded
  have hLate : k ∈ (t.turn.map Prod.fst).toList ++ t.waiting := by simp [hTurn]
  have hBefore := (List.pairwise_append.mp h.increasing).2.2 k hFirst k hLate
  omega

theorem Ordered.lt_turn (h : t.Ordered) (hOver : t.Over n) (hTurn : t.turn = some (k, progress)) :
    n < k :=
  h.lt_of_over hOver (mem_line_of_turn hTurn) (h.not_over_of_turn hTurn)

/-! ## Dropped calls -/

/-- A call that has left the line does not come back. -/
theorem Step.notMem_line (h : Step v t m v' t') (hIssued : k < t.issued.length)
    (hGone : k ∉ t.line) : k < t'.issued.length ∧ k ∉ t'.line ∧ m ≠ .start k := by
  have hStart : m ≠ .start k := by
    rintro rfl
    exact hGone (mem_line_of_turn h.begun_of_start.1)
  rcases h.line with ⟨hSame, hLine⟩ | ⟨request, _, rfl⟩
  · rw [hSame]
    exact ⟨hIssued, fun hk => hGone (hLine.subset hk), hStart⟩
  · refine ⟨?_, ?_, hStart⟩
    · rw [issue_issued, List.length_append]
      omega
    · rw [line_issue, List.mem_append, List.mem_singleton]
      rintro (hk | hk)
      · exact hGone hk
      · omega

theorem Run.start_notMem (hRun : Run v t ms v' t') (hIssued : k < t.issued.length)
    (hGone : k ∉ t.line) : .start k ∉ ms := by
  induction hRun with
  | done => simp
  | step hStep _ ih =>
      obtain ⟨hIssued', hGone', hStart⟩ := hStep.notMem_line hIssued hGone
      rw [List.mem_cons, not_or]
      exact ⟨hStart.symm, ih hIssued' hGone'⟩

/-! ## Removals -/

/-- If the service has said that the entry is gone when it was asked to remove it, then it is. -/
def Cleared (e : Entry) (n : Nat) (v : Vault) (t : Turns) : Prop :=
  ∀ answer, SaysGone answer →
    t.turn = some (n, .served answer) ∨ (n, answer.mapError .refused) ∈ t.ended →
      SortedMap.get? v e = none

theorem mapError_refused_inj {a b : Except ServiceError String}
    (h : a.mapError CallFailure.refused = b.mapError .refused) : a = b := by
  cases a with
  | ok x => cases b with
    | ok y => exact congrArg Except.ok (Except.ok.inj h)
    | error f => contradiction
  | error f => cases b with
    | ok y => contradiction
    | error f' => exact congrArg Except.error (CallFailure.refused.inj (Except.error.inj h))

/-- What was removed stays so as long as no write comes whose turn is later. -/
theorem Step.cleared (h : Step v t m v' t') (hOrdered : t.Ordered)
    (hDelete : ∀ request, t.issued[n]? = some request → request = .delete e)
    (hPut : ∀ k value, t.issued[k]? = some (.put e value) → k < n)
    (hCleared : Cleared e n v t) : Cleared e n v' t' := by
  intro answer hGone hSaid
  cases h with
  | issue _ => exact hCleared answer hGone hSaid
  | take _ _ =>
      rcases hSaid with hTurn' | hEnded
      · simp at hTurn'
      · exact hCleared answer hGone (Or.inr hEnded)
  | start _ =>
      rcases hSaid with hTurn' | hEnded
      · simp at hTurn'
      · exact hCleared answer hGone (Or.inr hEnded)
  | serve hTurn hRequest hServes =>
      rcases hSaid with hTurn' | hEnded
      · obtain ⟨rfl, hAnswer⟩ := Prod.mk.inj (Option.some.inj hTurn')
        obtain rfl := Progress.served.inj hAnswer
        exact hServes.gone e (hDelete _ hRequest) hGone
      · have hLater := hOrdered.lt_turn ⟨_, hEnded⟩ hTurn
        refine hServes.get?_eq_none (fun value hWrite => ?_) (hCleared answer hGone (Or.inr hEnded))
        rw [hWrite] at hRequest
        have hEarlier := hPut _ value hRequest
        omega
  | finish hTurn =>
      rcases hSaid with hTurn' | hEnded
      · contradiction
      · rcases List.mem_append.mp hEnded with hOld | hNew
        · exact hCleared answer hGone (Or.inr hOld)
        · obtain ⟨rfl, hAnswer⟩ := Prod.mk.inj (List.mem_singleton.mp hNew)
          rw [← mapError_refused_inj hAnswer] at hTurn
          exact hCleared answer hGone (Or.inl hTurn)
  | crash _ =>
      rcases hSaid with hTurn' | hEnded
      · contradiction
      · rcases List.mem_append.mp hEnded with hOld | hNew
        · exact hCleared answer hGone (Or.inr hOld)
        · have hAnswer := (Prod.mk.inj (List.mem_singleton.mp hNew)).2
          cases answer with
          | ok _ => contradiction
          | error _ => contradiction
  | answer _ _ => exact hCleared answer hGone hSaid
  | timeOut _ => exact hCleared answer hGone hSaid

theorem Run.issued_mono (hRun : Run v t ms v' t') {request : Request}
    (hIssued : t.issued[k]? = some request) : t'.issued[k]? = some request := by
  induction hRun with
  | done => exact hIssued
  | step hStep _ ih => exact ih ((hStep.issued_iff k request).mpr (Or.inl hIssued))

theorem Run.cleared (hRun : Run v t ms v' t') (hOrdered : t.Ordered)
    (hDelete : t'.issued[n]? = some (.delete e))
    (hPut : ∀ k value, t'.issued[k]? = some (.put e value) → k < n)
    (hCleared : Cleared e n v t) : Cleared e n v' t' := by
  induction hRun with
  | done => exact hCleared
  | step hStep hRest ih =>
      have hWhole := Run.step hStep hRest
      refine ih (hOrdered.step hStep) hDelete hPut (hStep.cleared hOrdered ?_ ?_ hCleared)
      · intro request hIssued
        exact Option.some.inj ((hWhole.issued_mono hIssued).symm.trans hDelete)
      · intro k value hIssued
        exact hPut k value (hWhole.issued_mono hIssued)

end Turns

/-- A host for one call, to which the service answers in the given way. -/
def Host.answering (answer : Except CallFailure String) : Host Unit where
  book _ := ∅
  save _ _ := (.ok (), ())
  put _ _ _ := (answer.map fun _ => (), ())
  get _ _ := (answer, ())
  delete _ _ := (answer.map fun _ => (), ())
  emit _ _ := ()

/-- A removal succeeds only if the service says that the entry is gone. -/
theorem Keyring.saysGone_of_delete {ring : Keyring} {g : GroupName} {key : String}
    {answer : Except CallFailure String}
    (h : ((ring.delete g key).run.run (.answering answer) ()).1 = .ok ()) :
    ∃ said, SaysGone said ∧ answer = said.mapError .refused := by
  cases answer with
  | ok text => exact ⟨.ok text, fun _ hEq => by contradiction, rfl⟩
  | error failure =>
      cases failure with
      | refused error =>
          cases error with
          | noEntry => exact ⟨.error .noEntry, fun _ hEq => by simp at hEq, rfl⟩
          | unavailable reason => contradiction
      | timedOut => contradiction
      | crashed => contradiction

namespace Turns

variable {v v' v'' : Vault} {t t' t'' : Turns} {m : Moment} {ms before after : List Moment}
  {n k : Nat} {answer : Except CallFailure String} {progress : Progress} {e : Entry}

/-- The service is done with one call before it begins with the next, which was issued later. -/
theorem lt_of_starts {between : List Moment}
    (hRun : Run v idle (before ++ .start n :: (between ++ .start k :: after)) v' t') :
    n < k ∧ ∃ answer, .finish n answer ∈ between := by
  obtain ⟨v₁, t₁, v₂, t₂, hBefore, hStart, hRest⟩ := hRun.split_cons
  obtain ⟨v₃, t₃, v₄, t₄, hBetween, hStart', _⟩ := hRest.split_cons
  have hFirst := traced_of_run hBefore
  have hSecond := (hFirst.step hStart).run hBetween
  have hTurn := hStart'.begun_of_start.1
  have hBegun : t₃.Begun n := hSecond.begun n (by simp)
  have hOver : t₃.Over n := by
    rcases hBegun with hOver | ⟨progress, hHere, hAfter⟩
    · exact hOver
    · obtain ⟨_, rfl⟩ := Prod.mk.inj (Option.some.inj (hTurn.symm.trans hHere))
      contradiction
  refine ⟨hSecond.ordered.lt_turn hOver hTurn, ?_⟩
  obtain ⟨answer, hEnded⟩ := hOver
  have hFinish := (hSecond.ended n answer).mpr hEnded
  refine ⟨answer, ?_⟩
  simp only [List.mem_append, List.mem_singleton] at hFinish
  rcases hFinish with (hEarly | hStartEq) | hBetween'
  · have hTooEarly : t₁.Over n := ⟨answer, (hFirst.ended n answer).mp hEarly⟩
    exact absurd hTooEarly (hFirst.ordered.not_over_of_turn hStart.begun_of_start.1)
  · contradiction
  · exact hBetween'

/-- A call takes effect once, while the service works on it. -/
theorem serve_within (hRun : Run v idle (before ++ .serve n :: after) v' t') :
    .start n ∈ before ∧ .serve n ∉ before ∧ ∀ answer, .finish n answer ∉ before := by
  obtain ⟨v₁, t₁, v₂, t₂, hBefore, hServe, _⟩ := hRun.split_cons
  have hTraced := traced_of_run hBefore
  have hTurn := hServe.served_of_serve.1
  have hNot := hTraced.ordered.not_over_of_turn hTurn
  refine ⟨hTraced.started n _ hTurn (by simp), fun hTwice => ?_, fun answer hFinish => ?_⟩
  · rcases hTraced.served n hTwice with hOver | ⟨answer, hTurn'⟩
    · exact hNot hOver
    · simp [hTurn] at hTurn'
  · exact hNot ⟨answer, (hTraced.ended n answer).mp hFinish⟩

/-- A caller that hears anything but that time is up hears what came of its call. Every call before
it is over by then, or the service never begins with it. -/
theorem over_of_reply (hRun : Run v idle (before ++ .reply n answer :: after) v' t')
    (hAnswer : answer ≠ .error .timedOut) :
    .finish n answer ∈ before ∧ ∀ k < n, (∃ answer', .finish k answer' ∈ before) ∨
      .start k ∉ before ++ .reply n answer :: after := by
  obtain ⟨v₁, t₁, v₂, t₂, hBefore, hReply, hAfter⟩ := hRun.split_cons
  have hTraced := traced_of_run hBefore
  have hEnded : (n, answer) ∈ t₁.ended := by
    cases hReply with
    | answer _ hEnded => exact hEnded
    | timeOut _ => contradiction
  refine ⟨(hTraced.ended n answer).mpr hEnded, fun k hk => ?_⟩
  by_cases hOver : t₁.Over k
  · obtain ⟨answer', hEnded'⟩ := hOver
    exact Or.inl ⟨answer', (hTraced.ended k answer').mpr hEnded'⟩
  · right
    have hLine : k ∉ t₁.line := by
      intro hLine
      have := hTraced.ordered.lt_of_over ⟨answer, hEnded⟩ hLine hOver
      omega
    have hIssued : k < t₁.issued.length := by
      have := hTraced.ordered.bounded n (mem_line_of_over ⟨answer, hEnded⟩)
      omega
    rw [List.mem_append, not_or]
    refine ⟨fun hStart => hLine (mem_line_of_begun (hTraced.begun k hStart)), ?_⟩
    exact (Run.step hReply hAfter).start_notMem hIssued hLine

/-- Calls of a keyring, in any schedule. The service works on one at a time, in the order of issue,
and no call takes effect outside its turn or twice. A caller that hears anything but that time is up
hears of a call that is over, and every call before it is over too or never begins. Once a removal
has succeeded the entry is therefore gone for good, whatever became of the writes before it, unless
a write is issued after it. -/
theorem calls_in_order (hRun : Run v idle ms v' t') :
    (∀ before between after n k,
      ms = before ++ .start n :: (between ++ .start k :: after) →
        n < k ∧ ∃ answer, .finish n answer ∈ between) ∧
    (∀ before after n, ms = before ++ .serve n :: after →
      .start n ∈ before ∧ .serve n ∉ before ∧ ∀ answer, .finish n answer ∉ before) ∧
    (∀ before after n answer, ms = before ++ .reply n answer :: after →
      answer ≠ .error .timedOut →
        .finish n answer ∈ before ∧
          ∀ k < n, (∃ answer', .finish k answer' ∈ before) ∨ .start k ∉ ms) ∧
    ∀ (ring : Keyring) g key n answer, .issue n (.delete (ring.entry g key)) ∈ ms →
      .reply n answer ∈ ms →
        ((ring.delete g key).run.run (.answering answer) ()).1 = .ok () →
          (∀ k value, .issue k (.put (ring.entry g key) value) ∈ ms → k < n) →
            SortedMap.get? v' (ring.entry g key) = none := by
  refine ⟨?_, ?_, ?_, fun ring g key n answer hIssue hReply hDelete hPut => ?_⟩
  · rintro before between after n k rfl
    exact lt_of_starts hRun
  · rintro before after n rfl
    exact serve_within hRun
  · rintro before after n answer rfl hAnswer
    exact over_of_reply hRun hAnswer
  · obtain ⟨said, hGone, rfl⟩ := Keyring.saysGone_of_delete hDelete
    have hTraced := traced_of_run hRun
    have hCleared : Cleared (ring.entry g key) n v idle := by
      rintro answer _ (hTurn | hEnded)
      · contradiction
      · contradiction
    have hLast := hRun.cleared ordered_idle ((hTraced.issued n _).mp hIssue)
      (fun k value hIssued => hPut k value ((hTraced.issued k _).mpr hIssued)) hCleared
    obtain ⟨before, after, rfl⟩ := List.append_of_mem hReply
    have hAnswer : said.mapError CallFailure.refused ≠ .error .timedOut := by
      cases said with
      | ok _ => simp [Except.mapError]
      | error _ => simp [Except.mapError]
    have hFinish := (over_of_reply hRun hAnswer).1
    refine hLast said hGone (Or.inr ((hTraced.ended n _).mp ?_))
    exact List.mem_append_left _ hFinish

/-- The collection that a password is written to. -/
def lateRing : Keyring := ⟨"keeper", Keyring.defaultTimeout⟩

/-- The caller gives up while the password is written. The write goes on, and the removal that is
issued meanwhile waits for it. -/
def lateWrite : List Moment :=
  let password := lateRing.entry Registry.checkGroup "param-password"
  [.issue 0 (.put password "late"), .take 0, .start 0, .reply 0 (.error .timedOut),
    .issue 1 (.delete password), .serve 0, .finish 0 (.ok ""), .take 1, .start 1, .serve 1,
    .finish 1 (.ok ""), .reply 1 (.ok "")]

theorem late_write_removed :
    ∃ v t, Run ∅ idle lateWrite v t ∧
      SortedMap.get? v (lateRing.entry Registry.checkGroup "param-password") = none := by
  have hRun : ∃ v t, Run ∅ idle lateWrite v t := by
    refine ⟨_, _, .step (.issue _) <| .step (.take rfl rfl) <| .step (.start rfl) <|
      .step (.timeOut ?_) <| .step (.issue _) <| .step (.serve rfl rfl (Vault.serves_serve _ _)) <|
      .step (@Step.finish _ _ _ (.ok "") rfl) <| .step (.take rfl rfl) <| .step (.start rfl) <|
      .step (.serve rfl rfl (Vault.serves_serve _ _)) <| .step (@Step.finish _ _ _ (.ok "") rfl) <|
      .step (.answer ?_ ?_) <| .done _ _⟩
    · exact List.mem_singleton_self 0
    · exact List.mem_singleton_self 1
    · exact List.mem_append_right _ (List.mem_singleton_self _)
  obtain ⟨v, t, hRun⟩ := hRun
  obtain ⟨_, _, _, hRemoved⟩ := calls_in_order hRun
  refine ⟨v, t, hRun,
    hRemoved lateRing Registry.checkGroup "param-password" 1 (.ok "") ?_ ?_ rfl ?_⟩
  · simp [lateWrite]
  · simp [lateWrite]
  · intro k value hIssue
    have hFirst : k = 0 := by
      simp [lateWrite] at hIssue
      omega
    omega

end Turns
end Accounts
