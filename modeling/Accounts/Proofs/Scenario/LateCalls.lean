import Mathlib.Data.List.InsertIdx
import Mathlib.Data.List.Perm.Basic
import Mathlib.Data.List.TakeWhile
import Accounts.Proofs.Ongoing
import Accounts.Proofs.Scenario.Turns

/-! What a program does in a world with a clock is what it does to a process whose calls may outlast
their limits. The clock decides when they land. -/
namespace Accounts.Scenario

/-- Let calls take effect, one after the other. -/
def MemoryService.serveAll (m : MemoryService) (calls : List (Nat × Request)) : MemoryService :=
  calls.foldl (fun m call => (m.serve call.2).2) m

theorem MemoryService.serveAll_script (m : MemoryService) (calls : List (Nat × Request)) :
    (m.serveAll calls).script = m.script := by
  induction calls generalizing m with
  | nil => rfl
  | cons call rest ih => exact (ih _).trans (m.serve_script call.2)

/-- The item does not have a backend told that an entry is gone, or what a secret is. -/
def Scripted.isHonest : Scripted → Bool
  | .noEntry => false
  | .value _ => false
  | _ => true

namespace World

variable {handle : Handle} {w : World} {s : Ongoing} {request : Request}
  {time finish deadline limit : Nat} {late : List (Nat × Request)}

/-! ## The clock -/

theorem enqueue_cons_of_le {call : Nat × Request} (h : call.1 ≤ finish)
    (rest : List (Nat × Request)) :
    enqueue finish request (call :: rest) = call :: enqueue finish request rest :=
  if_pos h

theorem enqueue_cons_of_lt {call : Nat × Request} (h : finish < call.1)
    (rest : List (Nat × Request)) :
    enqueue finish request (call :: rest) = (finish, request) :: call :: rest :=
  if_neg (by omega)

theorem enqueue_perm (finish : Nat) (request : Request) (late : List (Nat × Request)) :
    (enqueue finish request late).Perm ((finish, request) :: late) := by
  induction late with
  | nil => exact .refl _
  | cons call rest ih =>
      rcases Nat.lt_or_ge finish call.1 with hFirst | hFirst
      · rw [enqueue_cons_of_lt hFirst]
      · rw [enqueue_cons_of_le hFirst]
        exact (ih.cons call).trans (.swap _ _ _)

theorem pairwise_enqueue (h : late.Pairwise fun a b => a.1 ≤ b.1) (finish : Nat)
    (request : Request) : (enqueue finish request late).Pairwise fun a b => a.1 ≤ b.1 := by
  induction late with
  | nil => exact List.pairwise_singleton _ _
  | cons call rest ih =>
      obtain ⟨hHead, hRest⟩ := List.pairwise_cons.mp h
      rcases Nat.lt_or_ge finish call.1 with hFirst | hFirst
      · rw [enqueue_cons_of_lt hFirst]
        refine List.pairwise_cons.mpr ⟨fun other hMem => ?_, h⟩
        rcases List.mem_cons.mp hMem with rfl | hMem
        · omega
        · exact Nat.le_trans (Nat.le_of_lt hFirst) (hHead other hMem)
      · rw [enqueue_cons_of_le hFirst]
        refine List.pairwise_cons.mpr ⟨fun other hMem => ?_, ih hRest⟩
        rcases List.mem_cons.mp ((enqueue_perm _ _ _).mem_iff.mp hMem) with rfl | hMem
        · exact hFirst
        · exact hHead other hMem

/-- The call is over at the time. -/
def isDue (time : Nat) (call : Nat × Request) : Bool := call.1 ≤ time

@[simp] theorem isDue_iff {call : Nat × Request} : isDue time call = true ↔ call.1 ≤ time :=
  decide_eq_true_iff

/-- A call that finishes later does not matter until then. -/
theorem span_enqueue (h : time < finish) (request : Request) (late : List (Nat × Request)) :
    (enqueue finish request late).takeWhile (isDue time) =
        late.takeWhile (isDue time) ∧
      (enqueue finish request late).dropWhile (isDue time) =
        enqueue finish request (late.dropWhile (isDue time)) := by
  induction late with
  | nil => simp [enqueue, h]
  | cons call rest ih =>
      by_cases hDue : call.1 ≤ time
      · rw [enqueue_cons_of_le (by omega)]
        simp [hDue, ih]
      · rcases Nat.lt_or_ge finish call.1 with hFirst | hFirst
        · rw [enqueue_cons_of_lt hFirst]
          simp [hDue, h, enqueue_cons_of_lt hFirst]
        · rw [enqueue_cons_of_le hFirst]
          simp [hDue, enqueue_cons_of_le hFirst]

/-- What is left when everything has landed that is due finishes later. -/
theorem lt_of_mem_dropWhile {call : Nat × Request} (h : late.Pairwise fun a b => a.1 ≤ b.1)
    (hMem : call ∈ late.dropWhile (isDue time)) : time < call.1 := by
  induction late with
  | nil => contradiction
  | cons first rest ih =>
      obtain ⟨hHead, hRest⟩ := List.pairwise_cons.mp h
      by_cases hFirst : first.1 ≤ time
      · rw [List.dropWhile_cons_of_pos (isDue_iff.mpr hFirst)] at hMem
        exact ih hRest hMem
      · rw [List.dropWhile_cons_of_neg (mt isDue_iff.mp hFirst)] at hMem
        rcases List.mem_cons.mp hMem with rfl | hMem
        · omega
        · have := hHead call hMem
          omega

theorem foldl_land (w : World) (calls : List (Nat × Request)) :
    calls.foldl (fun w call => w.land call.2) w =
      { w with memory := w.memory.serveAll calls } := by
  induction calls generalizing w with
  | nil => rfl
  | cons call rest ih => exact ih _

/-- What is due lands, and the rest goes on. -/
theorem advance_eq (w : World) (time : Nat) :
    w.advance time =
      { w with
        late := w.late.dropWhile (isDue time)
        clock := max w.clock time
        memory := w.memory.serveAll (w.late.takeWhile (isDue time)) } := by
  have hDrop := @List.drop_left _ (w.late.takeWhile (isDue time)) (w.late.dropWhile (isDue time))
  rw [List.takeWhile_append_dropWhile] at hDrop
  unfold isDue at *
  rw [advance, foldl_land, hDrop]

/-- A call that finishes later is under way all the time. -/
theorem advance_enqueue (h : time < finish) (w : World) (request : Request) :
    World.advance { w with turnFree := finish, late := enqueue finish request w.late } time =
      { w.advance time with
        turnFree := finish, late := enqueue finish request (w.advance time).late } := by
  obtain ⟨hTake, hDrop⟩ := span_enqueue h request w.late
  rw [advance_eq, advance_eq, hTake, hDrop]

/-! ## The world and a process -/

/-- The calls under way are those that finish later, in the order in which they do, and the script
is an honest one. -/
structure Regular (w : World) : Prop where
  sorted : w.late.Pairwise fun a b => a.1 ≤ b.1
  later : ∀ call ∈ w.late, w.clock < call.1
  honest : ∀ item ∈ w.memory.script, item.isHonest = true

/-- The storage of the process is that of the world, and the calls of the process are those that are
under way there. The one that has the turn finishes at the given time. -/
structure Shows (w : World) (finish : Nat) (s : Ongoing) : Prop where
  file : s.file = w.directory.content
  vault : s.vault = w.memory.vault
  underWay : ∃ strays : List (Nat × Request), strays.map Prod.snd = s.strays ∧
    w.late.Perm ((s.turn.map fun request => (finish, request)).toList ++ strays)
  free : s.turn = none → finish ≤ w.clock

/-- The process is what a program works on in the world through the handle. -/
structure Meets (handle : Handle) (w : World) (s : Ongoing) : Prop extends
    Shows w w.turnFree s where
  book : s.book = (w.held handle).getD ∅

theorem Regular.advance (h : w.Regular) (time : Nat) : (w.advance time).Regular := by
  have hSublist := w.late.dropWhile_sublist (isDue time)
  rw [advance_eq]
  refine ⟨h.sorted.sublist hSublist, fun call hMem => ?_, ?_⟩
  · have hLater := h.later call (hSublist.subset hMem)
    have hDue := lt_of_mem_dropWhile h.sorted hMem
    exact Nat.max_lt.mpr ⟨hLater, hDue⟩
  · dsimp only
    rw [MemoryService.serveAll_script]
    exact h.honest

/-- Nothing has the turn when it is free. -/
theorem Shows.turn_eq_none (h : w.Shows finish s) (hRegular : w.Regular)
    (hTime : finish ≤ w.clock) : s.turn = none := by
  cases hTurn : s.turn with
  | none => rfl
  | some request =>
      obtain ⟨strays, _, hPerm⟩ := h.underWay
      have hLater := hRegular.later (finish, request) (hPerm.mem_iff.mpr (by simp [hTurn]))
      omega

theorem Shows.retime (h : w.Shows finish s) (hTurn : s.turn = none) (hTime : time ≤ w.clock) :
    w.Shows time s := by
  obtain ⟨strays, hStrays, hPerm⟩ := h.underWay
  exact ⟨h.file, h.vault, ⟨strays, hStrays, by simpa [hTurn] using hPerm⟩, fun _ => hTime⟩

theorem vault_land (w : World) (request : Request) :
    (w.land request).memory.vault =
      if !w.memory.offline then (w.memory.vault.serve request).2 else w.memory.vault := by
  unfold land MemoryService.serve
  cases w.memory.offline with
  | true => rfl
  | false => rfl

/-- What finishes first in the world lands in the process, if the service can be reached. -/
theorem Shows.land {rest : List (Nat × Request)}
    (h : Shows { w with late := (time, request) :: rest } finish s) (hTime : time ≤ w.clock) :
    ∃ l : Landing, Shows { w.land request with late := rest } finish (s.land l) := by
  obtain ⟨strays, hStrays, hPerm⟩ := h.underWay
  dsimp only at hPerm
  have hMem := hPerm.mem_iff.mp (List.mem_cons_self)
  have hVault := w.vault_land request
  rw [← h.vault] at hVault
  rcases List.mem_append.mp hMem with hHead | hStray
  · obtain ⟨request', hTurn, hEq⟩ := Option.map_eq_some_iff.mp (Option.mem_toList.mp hHead)
    obtain ⟨rfl, rfl⟩ := Prod.mk.inj hEq
    have hRest : rest.Perm strays := by simpa only [hTurn, Option.map_some, Option.toList_some,
      List.singleton_append, List.perm_cons] using hPerm
    refine ⟨.turn (!w.memory.offline), ?_⟩
    rw [Ongoing.land_turn hTurn]
    split_ifs at hVault ⊢
    · exact ⟨h.file, hVault.symm, ⟨strays, hStrays, hRest⟩, fun _ => hTime⟩
    · exact ⟨h.file, hVault.symm, ⟨strays, hStrays, hRest⟩, fun _ => hTime⟩
  · obtain ⟨place, hBound, hPlace⟩ := List.getElem_of_mem hStray
    have hThere : s.strays[place]? = some request := by
      rw [← hStrays, List.getElem?_map, List.getElem?_eq_getElem hBound, hPlace]
      rfl
    have hRest : rest.Perm ((s.turn.map fun request => (finish, request)).toList ++
        strays.eraseIdx place) := by
      have hFront := (List.getElem_cons_eraseIdx_perm hBound).symm
      rw [hPlace] at hFront
      exact ((hPerm.trans (hFront.append_left _)).trans List.perm_middle).cons_inv
    have hStrays' : (strays.eraseIdx place).map Prod.snd = s.strays.eraseIdx place := by
      rw [← List.eraseIdx_map, hStrays]
    refine ⟨.stray place (!w.memory.offline), ?_⟩
    rw [Ongoing.land_stray hThere]
    split_ifs at hVault ⊢
    · exact ⟨h.file, hVault.symm, ⟨_, hStrays', hRest⟩, h.free⟩
    · exact ⟨h.file, hVault.symm, ⟨_, hStrays', hRest⟩, h.free⟩

theorem Shows.landAll {due rest : List (Nat × Request)}
    (h : Shows { w with late := due ++ rest } finish s) (hDue : ∀ call ∈ due, call.1 ≤ w.clock) :
    ∃ ls : List Landing, Shows { w with memory := w.memory.serveAll due, late := rest } finish
      (ls.foldl Ongoing.land s) := by
  induction due generalizing w s with
  | nil => exact ⟨[], h⟩
  | cons call due ih =>
      obtain ⟨l, hLanded⟩ := h.land (hDue call List.mem_cons_self)
      obtain ⟨ls, hRest⟩ := ih hLanded fun other hMem => hDue other (List.mem_cons_of_mem _ hMem)
      exact ⟨l :: ls, hRest⟩

theorem Shows.advance (h : w.Shows finish s) (time : Nat) :
    ∃ ls : List Landing, (w.advance time).Shows finish (ls.foldl Ongoing.land s) := by
  have hLate := List.takeWhile_append_dropWhile (p := isDue time) (l := w.late)
  have hClock : w.clock ≤ max w.clock time := Nat.le_max_left _ _
  have hNow : Shows { w with
      late := w.late.takeWhile (isDue time) ++ w.late.dropWhile (isDue time)
      clock := max w.clock time } finish s := by
    rw [hLate]
    exact ⟨h.file, h.vault, h.underWay, fun hTurn => Nat.le_trans (h.free hTurn) hClock⟩
  obtain ⟨ls, hLanded⟩ := hNow.landAll (w := { w with clock := max w.clock time }) fun call hMem =>
    Nat.le_trans (isDue_iff.mp (List.mem_takeWhile_imp hMem)) (Nat.le_max_right _ _)
  rw [advance_eq]
  exact ⟨ls, hLanded⟩

theorem Meets.advance (h : w.Meets handle s) (time : Nat) :
    ∃ ls : List Landing, (w.advance time).Meets handle (ls.foldl Ongoing.land s) := by
  obtain ⟨ls, hShows⟩ := h.toShows.advance time
  have hBook := h.book
  refine ⟨ls, ⟨?_, ?_⟩⟩
  · rw [advance_eq] at hShows ⊢
    exact hShows
  · rw [Ongoing.landAll_book, hBook, advance_eq]
    cases handle with
    | main => rfl
    | other => rfl

/-- Once its time has come, the turn is free. -/
theorem Meets.await (h : w.Meets handle s) (hRegular : w.Regular) (hTime : w.clock ≤ time)
    (hFree : w.turnFree ≤ time) :
    (w.advance time).Regular ∧ (w.advance time).clock = time ∧ ∃ ls : List Landing,
      (w.advance time).Meets handle (ls.foldl Ongoing.land s) ∧
        (ls.foldl Ongoing.land s).turn = none := by
  obtain ⟨ls, hMeets⟩ := h.advance time
  have hRegular' := hRegular.advance time
  have hClock : (w.advance time).clock = time := by
    rw [advance_eq]
    exact Nat.max_eq_right hTime
  have hTurnFree : (w.advance time).turnFree = w.turnFree := by rw [advance_eq]
  have hNone := hMeets.turn_eq_none hRegular' (by rwa [hClock, hTurnFree])
  exact ⟨hRegular', hClock, ls, hMeets, hNone⟩

/-! ## Calls -/

/-- The call takes a course in the process, and that is what happens in the world. -/
def TakesCourse (handle : Handle) (s : Ongoing) (request : Request)
    (ended : Except CallFailure String × World) : Prop :=
  ended.2.Regular ∧ ∃ course : Course,
    let outcome := (course.landings.foldl Ongoing.land s).call course.ending request
    outcome.1 = ended.1 ∧ ended.2.Meets handle outcome.2

/-- A call that is let ahead and lasts too long has the turn until it lands. -/
theorem takesCourse_of_lt (h : w.Meets handle s) (hRegular : w.Regular) (hTurn : s.turn = none)
    (hTime : w.clock ≤ deadline) (hLong : deadline < w.clock + w.memory.stall) :
    TakesCourse handle s request (w.proceed deadline request) := by
  have hFree := Nat.le_trans (h.free hTurn) hTime
  obtain ⟨hRegular', hClock, ls, hMeets, hNone⟩ := h.await hRegular hTime hFree
  have hProceed : w.proceed deadline request = (.error .timedOut,
      { w.advance deadline with
        turnFree := w.clock + w.memory.stall
        late := enqueue (w.clock + w.memory.stall) request (w.advance deadline).late }) := by
    unfold proceed
    dsimp only
    rw [if_pos hLong, advance_enqueue hLong]
  rw [hProceed]
  -- The call has no effect before the deadline, so what lands until then may land before it begins.
  generalize w.clock + w.memory.stall = finish at hLong
  generalize w.advance deadline = w' at *
  refine ⟨⟨pairwise_enqueue hRegular'.sorted _ _, fun call hMem => ?_, hRegular'.honest⟩,
    ⟨ls, .lingers⟩, ?_⟩
  · rcases List.mem_cons.mp ((enqueue_perm _ _ _).mem_iff.mp hMem) with rfl | hMem
    · exact hClock ▸ hLong
    · exact hRegular'.later call hMem
  · obtain ⟨strays, hStrays, hPerm⟩ := hMeets.underWay
    rw [hNone] at hPerm
    rw [Ongoing.call_lingers hNone]
    refine ⟨rfl, ⟨hMeets.file, hMeets.vault, ⟨strays, hStrays, ?_⟩, fun hSome => ?_⟩, hMeets.book⟩
    · exact (enqueue_perm _ _ _).trans (hPerm.cons _)
    · contradiction

/-- What the service answers is heard. -/
theorem Meets.serve (h : w.Meets handle s) (hTurn : s.turn = none) (request : Request) :
    ∃ fate, let outcome := s.call (.heard fate) request
      outcome.1 = (w.memory.serve request).1.mapError .refused ∧
        Meets handle { w with memory := (w.memory.serve request).2 } outcome.2 := by
  unfold MemoryService.serve
  split_ifs
  · refine ⟨.fails (.refused (.unavailable "service offline")), ?_⟩
    rw [Ongoing.call_fails hTurn (by simp)]
    exact ⟨rfl, h⟩
  · refine ⟨.works, ?_⟩
    rw [Ongoing.call_works hTurn, h.vault]
    exact ⟨rfl, ⟨h.file, congrArg (fun v => (v.serve request).2) h.vault, h.underWay, h.free⟩,
      h.book⟩

/-- A call that is let ahead and ends in time is heard. -/
theorem takesCourse_of_le (h : w.Meets handle s) (hRegular : w.Regular) (hTurn : s.turn = none)
    (hShort : w.clock + w.memory.stall ≤ deadline) :
    TakesCourse handle s request (w.proceed deadline request) := by
  let finish := w.clock + w.memory.stall
  have hTime : w.clock ≤ finish := Nat.le_add_right _ _
  have hFree := Nat.le_trans (h.free hTurn) hTime
  obtain ⟨hRegular', hClock, ls, hMeets, hNone⟩ := h.await hRegular hTime hFree
  have hEnded : World.Meets handle { w.advance finish with turnFree := finish }
      (ls.foldl Ongoing.land s) := by
    have hRetimed := hMeets.toShows.retime hNone (Nat.le_of_eq hClock.symm)
    exact ⟨⟨hRetimed.file, hRetimed.vault, hRetimed.underWay, hRetimed.free⟩, hMeets.book⟩
  have hProceed : w.proceed deadline request =
      let served := (w.advance finish).memory.serve request
      (served.1.mapError .refused,
        { w.advance finish with turnFree := finish, memory := served.2 }) := by
    unfold proceed
    dsimp only
    rw [if_neg (by omega), advance_eq, advance_eq]
  obtain ⟨fate, hAnswer, hServed⟩ := hEnded.serve hNone request
  rw [hProceed]
  refine ⟨⟨hRegular'.sorted, hRegular'.later, ?_⟩, ⟨ls, .heard fate⟩, hAnswer, hServed⟩
  rw [MemoryService.serve_script]
  exact hRegular'.honest

theorem takesCourse_proceed (h : w.Meets handle s) (hRegular : w.Regular) (hTurn : s.turn = none)
    (hTime : w.clock ≤ deadline) : TakesCourse handle s request (w.proceed deadline request) := by
  rcases Nat.lt_or_ge deadline (w.clock + w.memory.stall) with hLong | hShort
  · exact takesCourse_of_lt h hRegular hTurn hTime hLong
  · exact takesCourse_of_le h hRegular hTurn hShort

/-- Whatever an honest script has in store for a call is a course of it. -/
theorem takesCourse_attend (h : w.Meets handle s) (hRegular : w.Regular) (hTurn : s.turn = none)
    (hTime : w.clock ≤ deadline) : TakesCourse handle s request (w.attend deadline request) := by
  have hRest : ∀ directory, directory.content = w.directory.content →
      let w' : World :=
        { w with memory := { w.memory with script := w.memory.script.drop 1 }, directory }
      w'.Meets handle s ∧ w'.Regular := by
    intro directory hContent
    refine ⟨⟨⟨h.file.trans hContent.symm, h.vault, h.underWay, h.free⟩, h.book⟩,
      hRegular.sorted, hRegular.later, fun item hMem => ?_⟩
    exact hRegular.honest item (List.mem_of_mem_drop hMem)
  obtain ⟨hMeets, hRegular'⟩ := hRest w.directory rfl
  have hFails : ∀ cause : CallFailure, cause ≠ .refused .noEntry →
      TakesCourse handle s request (.error cause,
        { w with memory := { w.memory with script := w.memory.script.drop 1 } }) := by
    intro cause hCause
    refine ⟨hRegular', ⟨[], .heard (.fails cause)⟩, ?_⟩
    dsimp only [List.foldl_nil]
    rw [Ongoing.call_fails hTurn hCause]
    exact ⟨rfl, hMeets⟩
  have hHonest : ((w.memory.script.head?).getD .proceed).isHonest = true := by
    cases hHead : w.memory.script.head? with
    | none => rfl
    | some item => exact hRegular.honest item (List.mem_of_head? hHead)
  unfold attend
  cases hItem : (w.memory.script.head?).getD .proceed with
  | proceed => exact takesCourse_proceed hMeets hRegular' hTurn hTime
  | unavailable => exact hFails _ (by simp)
  | crash => exact hFails _ (by simp)
  | block =>
      obtain ⟨hBlocked, hRegular''⟩ := hRest (w.directory.block .directory) (by
        unfold Directory.block
        split_ifs <;> rfl)
      exact takesCourse_proceed hBlocked hRegular'' hTurn hTime
  | noEntry =>
      rw [hItem] at hHonest
      contradiction
  | value text =>
      rw [hItem] at hHonest
      contradiction

/-- A call waits for the turn, and is dropped if its limit comes first. -/
theorem takesCourse_callMemory (h : w.Meets handle s) (hRegular : w.Regular) (limit : Nat)
    (request : Request) : TakesCourse handle s request (w.callMemory limit request) := by
  rcases Nat.lt_or_ge (w.clock + limit) (max w.clock w.turnFree) with hDropped | hAhead
  · obtain ⟨ls, hMeets⟩ := h.advance (w.clock + limit)
    rw [callMemory_of_lt hDropped]
    refine ⟨hRegular.advance _, ⟨ls, .lingers⟩, ?_⟩
    dsimp only
    cases hTurn : (ls.foldl Ongoing.land s).turn with
    | none =>
        have hFree := hMeets.free hTurn
        rw [advance_eq] at hFree
        dsimp only at hFree
        omega
    | some other =>
        rw [Ongoing.call_of_turn hTurn]
        exact ⟨rfl, hMeets⟩
  · obtain ⟨hRegular', hClock, ls, hMeets, hNone⟩ := h.await hRegular
      (Nat.le_max_left _ w.turnFree) (Nat.le_max_right _ _)
    rw [callMemory_of_le hAhead]
    have hAttend : TakesCourse handle (ls.foldl Ongoing.land s) request _ :=
      takesCourse_attend hMeets hRegular' hNone (hClock.trans_le hAhead)
    obtain ⟨hRegular'', ⟨landings, ending⟩, hOutcome⟩ := hAttend
    refine ⟨hRegular'', ⟨ls ++ landings, ending⟩, ?_⟩
    dsimp only
    rw [List.foldl_append]
    exact hOutcome

/-! ## Programs -/

/-- A save succeeds in the process if it does in the world. -/
theorem Meets.save (h : w.Meets handle s) (hRegular : w.Regular) (b : Book) :
    (w.save handle b).2.Regular ∧ ∃ fate s', (w.save handle b).2.Meets handle s' ∧
      ∀ saves courses, Ongoing.host.save b (s, ⟨fate :: saves, courses⟩) =
        ((w.save handle b).1, s', ⟨saves, courses⟩) := by
  unfold World.save Directory.save
  split_ifs
  · exact ⟨⟨hRegular.sorted, hRegular.later, hRegular.honest⟩, some Directory.blockedReason, s, h,
      fun _ _ => rfl⟩
  · let s' : Ongoing := { s with toProcess := s.toProcess.save b }
    cases handle with
    | main =>
        exact ⟨⟨hRegular.sorted, hRegular.later, hRegular.honest⟩, none, s',
          ⟨⟨rfl, h.vault, h.underWay, h.free⟩, rfl⟩, fun _ _ => rfl⟩
    | other =>
        exact ⟨⟨hRegular.sorted, hRegular.later, hRegular.honest⟩, none, s',
          ⟨⟨rfl, h.vault, h.underWay, h.free⟩, rfl⟩, fun _ _ => rfl⟩

section
variable {α : Type}

/-- What becomes of the program in the world becomes of it in the process, with some schedule. -/
def IsScheduled (handle : Handle) (limit : Nat) (program : Program α) : Prop :=
  ∀ w s, Meets handle w s → w.Regular → ∃ schedule,
    let ended := program.run (host handle .memory limit) w
    let outcome := program.run Ongoing.host (s, schedule)
    outcome.1 = ended.1 ∧ ended.2.Meets handle outcome.2.1 ∧ ended.2.Regular

/-- First the call, and then what is made of its answer. -/
theorem IsScheduled.call {f : Except CallFailure String → Program α}
    (hNext : ∀ answer, IsScheduled handle limit (f answer)) (h : w.Meets handle s)
    (hRegular : w.Regular) (request : Request) : ∃ schedule,
      let called := w.callMemory limit request
      let ended := (f called.1).run (host handle .memory limit) called.2
      let heard := Ongoing.nextCall (s, schedule) request
      let outcome := (f heard.1).run Ongoing.host heard.2
      outcome.1 = ended.1 ∧ ended.2.Meets handle outcome.2.1 ∧ ended.2.Regular := by
  obtain ⟨hRegular', course, hAnswer, hMeets⟩ := takesCourse_callMemory h hRegular limit request
  obtain ⟨schedule, hRest⟩ := hNext (w.callMemory limit request).1 _ _ hMeets hRegular'
  refine ⟨⟨schedule.saves, course :: schedule.courses⟩, ?_⟩
  simp only [Ongoing.nextCall, List.head?_cons, Option.getD_some, List.tail_cons, hAnswer]
  exact hRest

/-- The schedule is made up as the program goes on. -/
theorem isScheduled (handle : Handle) (limit : Nat) (program : Program α) :
    IsScheduled handle limit program := by
  induction program with
  | done a => exact fun w s h hRegular => ⟨.calm, rfl, h, hRegular⟩
  | book next ih =>
      intro w s h hRegular
      obtain ⟨schedule, hRest⟩ := ih s.book w s h hRegular
      refine ⟨schedule, ?_⟩
      have hNext : next ((host handle .memory limit).book w) = next s.book :=
        congrArg next h.book.symm
      rw [Program.run, Program.run, hNext]
      exact hRest
  | save b next ih =>
      intro w s h hRegular
      obtain ⟨hRegular', fate, s', hMeets, hSave⟩ := h.save hRegular b
      obtain ⟨schedule, hRest⟩ := ih (w.save handle b).1 _ _ hMeets hRegular'
      refine ⟨⟨fate :: schedule.saves, schedule.courses⟩, ?_⟩
      rw [Program.run, Program.run, hSave]
      exact hRest
  | put e value next ih =>
      intro w s h hRegular
      exact IsScheduled.call (f := fun answer => next (answer.map fun _ => ())) (fun answer => ih _)
        h hRegular (.put e value)
  | get e next ih => exact fun w s h hRegular => IsScheduled.call ih h hRegular (.get e)
  | delete e next ih =>
      intro w s h hRegular
      exact IsScheduled.call (f := fun answer => next (answer.map fun _ => ())) (fun answer => ih _)
        h hRegular (.delete e)
  | emit event next ih =>
      intro w s h hRegular
      exact ih { w with events := w.events.push event }
        { s with toProcess := s.toProcess.notify event }
        ⟨⟨h.file, h.vault, h.underWay, h.free⟩, h.book⟩
        ⟨hRegular.sorted, hRegular.later, hRegular.honest⟩

end

end World
end Accounts.Scenario
