import Mathlib.Tactic.SplitIfs
import Accounts.Proofs.Secret.Turns
import Accounts.Scenario.World

/-! What a program does with the keyring of a world, clock and all, is a schedule of calls that take
turns. -/
namespace Accounts

namespace Turns

variable {v v' : Vault} {t : Turns} {n : Nat} {request : Request}

/-- The turn passes to the only call in the queue, and the service begins with it. -/
theorem run_begin (hFree : t.turn = none) (hWaiting : t.waiting = [n]) :
    Run v t [.take n, .start n] v ((t.grant n).advance n .running) :=
  .step (.take hFree (by rw [hWaiting]; rfl)) (.step (.start rfl) (.done _ _))

/-- The service does what it does, and the turn is over. -/
theorem run_end {answer : Except ServiceError String} (hTurn : t.turn = some (n, .running))
    (hRequest : t.issued[n]? = some request) (hServes : v.Serves request answer v') :
    Run v t [.serve n, .finish n (answer.mapError .refused)] v'
      ((t.advance n (.served answer)).release n (answer.mapError .refused)) :=
  .step (.serve hTurn hRequest hServes) (.step (.finish rfl) (.done _ _))

theorem run_crash (hTurn : t.turn = some (n, .running)) :
    Run v t [.finish n (.error .crashed)] v (t.release n (.error .crashed)) :=
  .step (.crash hTurn) (.done _ _)

/-- The caller hears what came of the call. -/
theorem run_reply (answer : Except CallFailure String) (hCaller : n ∈ t.unanswered) :
    Run v (t.release n answer) [.reply n answer] v ((t.release n answer).hear n) :=
  .step (.answer hCaller (List.mem_append_right _ (List.mem_singleton_self _))) (.done _ _)

end Turns

namespace Scenario

theorem MemoryService.serves (m : MemoryService) (request : Request) :
    m.vault.Serves request (m.serve request).1 (m.serve request).2.vault := by
  unfold MemoryService.serve
  split_ifs
  · exact Vault.serves_unavailable m.vault request _
  · exact Vault.serves_serve m.vault request

@[simp] theorem MemoryService.serve_script (m : MemoryService) (request : Request) :
    (m.serve request).2.script = m.script := by
  unfold MemoryService.serve
  split_ifs
  · rfl
  · rfl

namespace World

/-- The keyring of the world is as far as the turns are: nobody waits, and the turn is free, or the
service works on a call whose caller gave up. -/
inductive Agrees (w : World) (t : Turns) : Prop
  | free (hWaiting : t.waiting = []) (hTurn : t.turn = none) (hLate : w.late = [])
      (hClock : w.turnFree ≤ w.clock)
  | busy {n : Nat} {request : Request} (hWaiting : t.waiting = [])
      (hTurn : t.turn = some (n, .running)) (hRequest : t.issued[n]? = some request)
      (hLate : w.late = [(w.turnFree, request)]) (hClock : w.clock < w.turnFree)

variable {w w' : World} {t t' : Turns} {request : Request} {time deadline : Nat}

/-! ## The clock -/

theorem advance_of_no_late (h : w.late = []) (time : Nat) :
    w.advance time = { w with clock := max w.clock time } := by
  simp [advance, h]

theorem advance_of_not_due {finish : Nat} (h : w.late = [(finish, request)])
    (hTime : time < finish) : w.advance time = { w with clock := max w.clock time } := by
  have hNot : ¬finish ≤ time := by omega
  simp [advance, h, hNot]

theorem advance_of_due {finish : Nat} (h : w.late = [(finish, request)]) (hTime : finish ≤ time) :
    w.advance time = World.land { w with late := [], clock := max w.clock time } request := by
  simp [advance, h, hTime]

/-! ## A call -/

/-- The last call in the queue waits for the turn, and nothing else is under way. -/
structure Ready (w : World) (t : Turns) (n : Nat) (request : Request) : Prop where
  waiting : t.waiting = [n]
  turn : t.turn = none
  request : t.issued[n]? = some request
  caller : n ∈ t.unanswered
  late : w.late = []
  clock : w.turnFree ≤ w.clock

/-- By the time at which the turn is free, the call that had it has landed. -/
theorem run_advance (h : w.Agrees t) (request : Request) :
    ∃ ms t', Turns.Run w.memory.vault (t.issue request) ms
        (w.advance (max w.clock w.turnFree)).memory.vault t' ∧
      (w.advance (max w.clock w.turnFree)).Ready t' t.issued.length request ∧
      (w.advance (max w.clock w.turnFree)).clock = max w.clock w.turnFree ∧
      (w.advance (max w.clock w.turnFree)).memory.script = w.memory.script := by
  cases h with
  | free hWaiting hTurn hLate hClock =>
      rw [advance_of_no_late hLate]
      refine ⟨[], _, .done _ _, ?_, ?_, rfl⟩
      · exact ⟨by simp [hWaiting], hTurn, by simp, by simp, hLate, by dsimp only; omega⟩
      · dsimp only
        omega
  | @busy n request' hWaiting hTurn hRequest hLate hClock =>
      have hIssued : (t.issue request).issued[n]? = some request' := by
        have hBound := (List.getElem?_eq_some_iff.mp hRequest).1
        simp [List.getElem?_append_left hBound, hRequest]
      have hEnd := Turns.run_end (t := t.issue request) hTurn hIssued (w.memory.serves request')
      rw [advance_of_due hLate (Nat.le_max_right _ _)]
      refine ⟨_, _, hEnd, ?_, ?_, ?_⟩
      · refine ⟨by simp [hWaiting], rfl, by simp, by simp, rfl, ?_⟩
        dsimp only [land]
        omega
      · dsimp only [land]
        omega
      · simp [land]

/-- Whatever comes of a call, its caller hears it and the turn is free. -/
theorem run_answer {n : Nat} {answer : Except ServiceError String} {v : Vault}
    (h : w.Ready t n request) (hServes : w.memory.vault.Serves request answer v) :
    ∃ ms t', Turns.Run w.memory.vault t ms v t' ∧ .reply n (answer.mapError .refused) ∈ ms ∧
      t'.waiting = [] ∧ t'.turn = none := by
  have hBegin := Turns.run_begin (v := w.memory.vault) h.turn h.waiting
  have hEnd := Turns.run_end (t := (t.grant n).advance n .running) rfl h.request hServes
  have hReply := Turns.run_reply (v := v) (answer.mapError .refused)
    (t := ((t.grant n).advance n .running).advance n (.served answer)) h.caller
  refine ⟨_, _, (hBegin.trans hEnd).trans hReply, by simp, ?_, rfl⟩
  simp [h.waiting]

theorem proceed_of_lt (hLate : w.late = []) (h : deadline < w.clock + w.memory.stall) :
    w.proceed deadline request = (.error .timedOut,
      { w with
        turnFree := w.clock + w.memory.stall
        late := [(w.clock + w.memory.stall, request)]
        clock := max w.clock deadline }) := by
  unfold proceed
  dsimp only
  rw [if_pos h, hLate, enqueue, advance_of_not_due rfl h]

theorem proceed_of_le (hLate : w.late = []) (h : w.clock + w.memory.stall ≤ deadline) :
    w.proceed deadline request = ((w.memory.serve request).1.mapError .refused,
      { w with
        turnFree := w.clock + w.memory.stall
        clock := max w.clock (w.clock + w.memory.stall)
        memory := (w.memory.serve request).2 }) := by
  have hNot : ¬deadline < w.clock + w.memory.stall := by omega
  have hAdvance := advance_of_no_late
    (w := { w with turnFree := w.clock + w.memory.stall }) hLate (w.clock + w.memory.stall)
  unfold proceed
  dsimp only
  rw [if_neg hNot, hAdvance]

/-- A call that was let ahead takes its effect before the deadline, or after it. -/
theorem run_proceed {n : Nat} (h : w.Ready t n request) (hDeadline : w.clock ≤ deadline) :
    ∃ ms t', Turns.Run w.memory.vault t ms (w.proceed deadline request).2.memory.vault t' ∧
      .reply n (w.proceed deadline request).1 ∈ ms ∧
      (w.proceed deadline request).2.Agrees t' ∧
      (w.proceed deadline request).2.memory.script = w.memory.script := by
  by_cases hLate : deadline < w.clock + w.memory.stall
  · have hBegin := Turns.run_begin (v := w.memory.vault) h.turn h.waiting
    have hGiveUp : Turns.Run w.memory.vault ((t.grant n).advance n .running)
        [.reply n (.error .timedOut)] w.memory.vault
        (((t.grant n).advance n .running).giveUp n) :=
      .step (.timeOut h.caller) (.done _ _)
    rw [proceed_of_lt h.late hLate]
    refine ⟨_, _, hBegin.trans hGiveUp, by simp, ?_, rfl⟩
    refine .busy (by simp [h.waiting]) rfl h.request rfl ?_
    dsimp only
    omega
  · rw [proceed_of_le h.late (by omega)]
    obtain ⟨ms, t', hRun, hReply, hWaiting, hTurn⟩ := run_answer h (w.memory.serves request)
    refine ⟨ms, t', hRun, hReply, .free hWaiting hTurn h.late ?_, w.memory.serve_script request⟩
    dsimp only
    omega

/-- The rest of a call once it has the turn. -/
def attend (w : World) (deadline : Nat) (request : Request) : Except CallFailure String × World :=
  let scripted := (w.memory.script.head?).getD .proceed
  let w := { w with memory := { w.memory with script := w.memory.script.drop 1 } }
  match scripted, request with
  | .noEntry, _ => (.error (.refused .noEntry), w)
  | .unavailable, _ => (.error (.refused (.unavailable "scripted")), w)
  | .crash, _ => (.error .crashed, w)
  | .value text, .get _ => (.ok text, w)
  | .block, _ => { w with directory := w.directory.block .directory }.proceed deadline request
  | _, _ => w.proceed deadline request

theorem callMemory_of_lt {limit : Nat} (h : w.clock + limit < max w.clock w.turnFree) :
    w.callMemory limit request = (.error .timedOut, w.advance (w.clock + limit)) :=
  if_pos h

theorem callMemory_of_le {limit : Nat} (h : max w.clock w.turnFree ≤ w.clock + limit) :
    w.callMemory limit request =
      (w.advance (max w.clock w.turnFree)).attend (w.clock + limit) request :=
  if_neg (by omega)

/-- Any script will do that does not claim that an entry is gone. -/
theorem run_attend {n : Nat} (h : w.Ready t n request) (hDeadline : w.clock ≤ deadline)
    (hScript : .noEntry ∉ w.memory.script) :
    ∃ ms t', Turns.Run w.memory.vault t ms (w.attend deadline request).2.memory.vault t' ∧
      .reply n (w.attend deadline request).1 ∈ ms ∧ (w.attend deadline request).2.Agrees t' ∧
      .noEntry ∉ (w.attend deadline request).2.memory.script := by
  have hRest : .noEntry ∉ w.memory.script.drop 1 := fun hMem => hScript (List.mem_of_mem_drop hMem)
  have hReady : ∀ directory, World.Ready { w with
      memory := { w.memory with script := w.memory.script.drop 1 }, directory } t n request :=
    fun _ => ⟨h.waiting, h.turn, h.request, h.caller, h.late, h.clock⟩
  have hProceed : ∀ directory, let w' : World := { w with
      memory := { w.memory with script := w.memory.script.drop 1 }, directory }
      ∃ ms t', Turns.Run w.memory.vault t ms (w'.proceed deadline request).2.memory.vault t' ∧
        .reply n (w'.proceed deadline request).1 ∈ ms ∧ (w'.proceed deadline request).2.Agrees t' ∧
        .noEntry ∉ (w'.proceed deadline request).2.memory.script := by
    intro directory
    obtain ⟨ms, t', hRun, hReply, hAgrees, hSame⟩ := run_proceed (hReady directory) hDeadline
    refine ⟨ms, t', hRun, hReply, hAgrees, ?_⟩
    rw [hSame]
    exact hRest
  have hAnswer : ∀ answer, w.memory.vault.Serves request answer w.memory.vault →
      ∃ ms t', Turns.Run w.memory.vault t ms w.memory.vault t' ∧
        .reply n (answer.mapError .refused) ∈ ms ∧
        World.Agrees { w with memory := { w.memory with script := w.memory.script.drop 1 } } t' ∧
        .noEntry ∉ w.memory.script.drop 1 := by
    intro answer hServes
    obtain ⟨ms, t', hRun, hReply, hWaiting, hTurn⟩ := run_answer h hServes
    exact ⟨ms, t', hRun, hReply, .free hWaiting hTurn h.late h.clock, hRest⟩
  unfold attend
  cases hItem : (w.memory.script.head?).getD .proceed with
  | proceed => exact hProceed w.directory
  | noEntry =>
      cases hHead : w.memory.script.head? with
      | none => simp [hHead] at hItem
      | some item =>
          rw [hHead, Option.getD_some] at hItem
          subst hItem
          exact absurd (List.mem_of_head? hHead) hScript
  | unavailable => exact hAnswer _ (w.memory.vault.serves_unavailable request "scripted")
  | crash =>
      have hBegin := Turns.run_begin (v := w.memory.vault) h.turn h.waiting
      have hCrash := Turns.run_crash (v := w.memory.vault) (t := (t.grant n).advance n .running) rfl
      have hReply := Turns.run_reply (v := w.memory.vault) (.error .crashed)
        (t := (t.grant n).advance n .running) h.caller
      refine ⟨_, _, (hBegin.trans hCrash).trans hReply, by simp, ?_, hRest⟩
      exact .free (by simp [h.waiting]) rfl h.late h.clock
  | block => exact hProceed (w.directory.block .directory)
  | value text =>
      cases request with
      | put e value => exact hProceed w.directory
      | get e => exact hAnswer (.ok text) ⟨Or.inl rfl, fun _ hContra => by contradiction⟩
      | delete e => exact hProceed w.directory

/-- A call of a keyring is issued, and its caller hears an answer or gives up. -/
theorem run_callMemory (h : w.Agrees t) (hScript : .noEntry ∉ w.memory.script) (limit : Nat)
    (request : Request) :
    ∃ ms t', Turns.Run w.memory.vault t (.issue t.issued.length request :: ms)
        (w.callMemory limit request).2.memory.vault t' ∧
      .reply t.issued.length (w.callMemory limit request).1 ∈ ms ∧
      (w.callMemory limit request).2.Agrees t' ∧
      .noEntry ∉ (w.callMemory limit request).2.memory.script := by
  have hIssue : Turns.Step w.memory.vault t (.issue t.issued.length request) w.memory.vault
      (t.issue request) := .issue request
  by_cases hDropped : w.clock + limit < max w.clock w.turnFree
  · have hGiveUp : Turns.Run w.memory.vault (t.issue request)
        [.reply t.issued.length (.error .timedOut)] w.memory.vault
        ((t.issue request).giveUp t.issued.length) :=
      .step (.timeOut (by simp)) (.done _ _)
    rw [callMemory_of_lt hDropped]
    cases h with
    | free _ _ _ hClock => omega
    | @busy n request' hWaiting hTurn hRequest hLate hClock =>
        have hTime : w.clock + limit < w.turnFree := by omega
        have hBound := (List.getElem?_eq_some_iff.mp hRequest).1
        rw [advance_of_not_due hLate hTime]
        refine ⟨_, _, .step hIssue hGiveUp, by simp, ?_, hScript⟩
        refine .busy (by simp [hWaiting]) hTurn ?_ hLate (by dsimp only; omega)
        simp [List.getElem?_append_left hBound, hRequest]
  · rw [callMemory_of_le (by omega)]
    obtain ⟨before, t₁, hBefore, hReady, hClock, hSame⟩ := run_advance h request
    have hDeadline : (w.advance (max w.clock w.turnFree)).clock ≤ w.clock + limit := by omega
    obtain ⟨ms, t', hRun, hReply, hAgrees, hRest⟩ := run_attend hReady hDeadline (hSame ▸ hScript)
    exact ⟨before ++ ms, t', .step hIssue (hBefore.trans hRun), List.mem_append_right _ hReply,
      hAgrees, hRest⟩

/-! ## Programs -/

/-- The keyring does not care about the directory, the books that are held, or the notices. -/
theorem Agrees.congr (h : w.Agrees t) (hLate : w'.late = w.late)
    (hFree : w'.turnFree = w.turnFree) (hClock : w'.clock = w.clock) : w'.Agrees t := by
  cases h with
  | free hWaiting hTurn hNone hTime =>
      exact .free hWaiting hTurn (hLate.trans hNone) (by omega)
  | busy hWaiting hTurn hRequest hOne hTime =>
      refine .busy hWaiting hTurn hRequest ?_ (by omega)
      rw [hLate, hOne, hFree]

theorem save_eq (w : World) (handle : Handle) (book : Book) :
    (w.save handle book).2.late = w.late ∧ (w.save handle book).2.turnFree = w.turnFree ∧
      (w.save handle book).2.clock = w.clock ∧ (w.save handle book).2.memory = w.memory := by
  unfold World.save
  split
  · cases handle with
    | main => exact ⟨rfl, rfl, rfl, rfl⟩
    | other => exact ⟨rfl, rfl, rfl, rfl⟩
  · exact ⟨rfl, rfl, rfl, rfl⟩

section
variable {α : Type} (handle : Handle) (limit : Nat)

/-- From wherever the turns are, what the program does with the keyring is a schedule. -/
def TakesTurns (program : Program α) : Prop :=
  ∀ w t, Agrees w t → .noEntry ∉ w.memory.script →
    ∃ ms t', Turns.Run w.memory.vault t ms
        (program.run (host handle .memory limit) w).2.memory.vault t' ∧
      (program.run (host handle .memory limit) w).2.Agrees t'

variable {handle limit}

/-- First the call, and then what is made of its answer. -/
theorem TakesTurns.call {f : Except CallFailure String → Program α}
    (hNext : ∀ answer, TakesTurns handle limit (f answer)) (request : Request)
    (h : w.Agrees t) (hScript : .noEntry ∉ w.memory.script) :
    ∃ ms t', Turns.Run w.memory.vault t ms
        ((f (w.callMemory limit request).1).run (host handle .memory limit)
          (w.callMemory limit request).2).2.memory.vault t' ∧
      ((f (w.callMemory limit request).1).run (host handle .memory limit)
        (w.callMemory limit request).2).2.Agrees t' := by
  obtain ⟨ms, t₁, hRun, _, hAgrees, hRest⟩ := run_callMemory h hScript limit request
  obtain ⟨ms', t₂, hRun', hAgrees'⟩ := hNext (w.callMemory limit request).1 _ _ hAgrees hRest
  exact ⟨_, t₂, hRun.trans hRun', hAgrees'⟩

theorem takesTurns (program : Program α) : TakesTurns handle limit program := by
  induction program with
  | done a => exact fun w t h _ => ⟨[], t, .done _ _, h⟩
  | book next ih => exact fun w => ih _ w
  | save b next ih =>
      intro w t h hScript
      obtain ⟨hLate, hFree, hClock, hMemory⟩ := w.save_eq handle b
      have hNext := ih (w.save handle b).1 _ _ (h.congr hLate hFree hClock) (hMemory ▸ hScript)
      rw [hMemory] at hNext
      exact hNext
  | put e value next ih =>
      intro w t h hScript
      exact TakesTurns.call (f := fun answer => next (answer.map fun _ => ()))
        (fun answer => ih _) (.put e value) h hScript
  | get e next ih => exact fun w t h hScript => TakesTurns.call ih (.get e) h hScript
  | delete e next ih =>
      intro w t h hScript
      exact TakesTurns.call (f := fun answer => next (answer.map fun _ => ()))
        (fun answer => ih _) (.delete e) h hScript
  | emit event next ih =>
      exact fun w t h hScript => ih { w with events := w.events.push event } t
        (h.congr rfl rfl rfl) hScript

/-- The calls that a program makes of a keyring whose turn is free are a schedule, whatever the
service does but to deny entries that it has. -/
theorem schedule_of_program (program : Program α) (hLate : w.late = [])
    (hFree : w.turnFree ≤ w.clock) (hScript : .noEntry ∉ w.memory.script) :
    ∃ ms t, Turns.Run w.memory.vault .idle ms
      (program.run (host handle .memory limit) w).2.memory.vault t := by
  have hIdle : w.Agrees .idle := .free rfl rfl hLate hFree
  obtain ⟨ms, t, hRun, _⟩ := takesTurns program w .idle hIdle hScript
  exact ⟨ms, t, hRun⟩

end

end World
end Scenario
end Accounts
