import Accounts.Proofs.Ongoing

/-! A process with calls that may outlast their limits, and another one without such calls that is
ahead of it: it has written already whatever the keyring in use may yet write. So what is known of
processes without such calls holds of those with them, but for what earlier keyrings write late.
Main statement: `Program.exists_follows`. -/
namespace Accounts

/-- Another process keeps the same book, and has done already what the call that has the turn is
still to do. So it has all entries that are there or may yet be written, but for those that were
written late by earlier keyrings. Of these only the calls after the first `n` to take effect are
taken into account. -/
structure Ongoing.Covered (n : Nat) (s : Ongoing) (q : Process) : Prop where
  file : q.file = s.file
  book : q.book = s.book
  past : n ≤ s.served.length
  vault : ∀ e, s.vault.contains e = true → s.LooseSince n e ∨ q.vault.contains e = true
  turn : ∀ e, s.HasWrite e → q.vault.contains e = true

namespace Ongoing

variable {n : Nat} {s : Ongoing} {q : Process} {request : Request}

theorem covered_idle (p : Process) : (idle p).Covered 0 p :=
  ⟨rfl, rfl, Nat.zero_le _, fun _ h => .inr h, fun _ h => absurd h (not_hasWrite_of_free rfl)⟩

/-- One process that is ahead has made the write that has the turn, and nothing else. -/
theorem exists_covered (s : Ongoing) : ∃ q, s.Covered s.served.length q := by
  by_cases hWrite : ∃ e, s.HasWrite e
  · obtain ⟨e, value, hTurn⟩ := hWrite
    refine ⟨s.toProcess.withVault (s.vault.put e value), rfl, rfl, Nat.le_refl _, ?_, ?_⟩
    · intro e' hThere
      exact .inr ((contains_serve_iff (.put e value)).mpr (.inr ⟨hThere, by simp⟩))
    · rintro e' ⟨value', hTurn'⟩
      obtain ⟨rfl, rfl⟩ := Request.put.inj (Option.some.inj (hTurn.symm.trans hTurn'))
      exact (contains_put _ e e value).trans (by simp)
  · exact ⟨s.toProcess, rfl, rfl, Nat.le_refl _, fun _ h => .inr h,
      fun e hHasWrite => absurd ⟨e, hHasWrite⟩ hWrite⟩

/-- Until something lands that is loose, the process has nothing that the other one has not. -/
theorem Covered.contains_of_not_looseSince {e : Entry} (h : s.Covered n q)
    (hNot : ¬s.LooseSince n e) (hNone : q.vault.contains e = false) :
    s.vault.contains e = false := by
  rw [← Bool.not_eq_true]
  intro hThere
  rcases h.vault e hThere with hLoose | hAhead
  · exact hNot hLoose
  · simp [hNone] at hAhead

/-! ## Late calls -/

theorem Covered.past_serve (h : s.Covered n q) (isStray : Bool) :
    n ≤ (s.serve isStray request).served.length :=
  Nat.le_trans h.past (by simp [Ongoing.serve])

/-- An entry that a call leaves there, and does not write, is loose as before, or the other process
has it. -/
theorem Covered.left (h : s.Covered n q) (isStray : Bool) {e : Entry} (hNot : ¬request.Writes e)
    (hThere : (s.vault.serve request).2.contains e = true) :
    (s.serve isStray request).LooseSince n e ∨
      q.vault.contains e = true ∧ request ≠ .delete e := by
  obtain ⟨hOld, hKept⟩ := ((contains_serve_iff _).mp hThere).resolve_left hNot
  refine (h.vault e hOld).imp (fun hLoose => ?_) fun hAhead => ⟨hAhead, hKept⟩
  exact (looseSince_serve h.past isStray).mpr (.inr ⟨hLoose, not_or.mpr ⟨hNot, hKept⟩⟩)

/-- A call takes effect that the other process has been ahead of. -/
theorem Covered.serve (h : s.Covered n q) (request : Request)
    (hAhead : ∀ e, request.Writes e → q.vault.contains e = true) :
    (s.serve false request).Covered n q := by
  refine ⟨h.file, h.book, h.past_serve false, fun e hThere => ?_, h.turn⟩
  by_cases hWrites : request.Writes e
  · exact .inr (hAhead e hWrites)
  · exact (h.left false hWrites hThere).imp_right And.left

/-- A late write makes its entry loose, whether the other process has it or not. -/
theorem Covered.stray (h : s.Covered n q) (request : Request) :
    (s.serve true request).Covered n q := by
  refine ⟨h.file, h.book, h.past_serve true, fun e hThere => ?_, h.turn⟩
  by_cases hWrites : request.Writes e
  · exact .inl ((looseSince_serve h.past true).mpr (.inl ⟨rfl, hWrites⟩))
  · exact (h.left true hWrites hThere).imp_right And.left

theorem Covered.land (h : s.Covered n q) (l : Landing) : (s.land l).Covered n q := by
  cases l with
  | turn works =>
      cases hTurn : s.turn with
      | none => simpa only [Ongoing.land, hTurn] using h
      | some request =>
          have hFree : ({ s with turn := none } : Ongoing).Covered n q :=
            ⟨h.file, h.book, h.past, h.vault, fun _ hWrite =>
              absurd hWrite (not_hasWrite_of_free rfl)⟩
          have hServed := hFree.serve request fun e hWrites =>
            h.turn e (hWrites.imp fun value hPut => hTurn.trans (congrArg some hPut))
          rw [land_turn hTurn]
          split_ifs
          · exact hServed
          · exact hFree
  | stray place works =>
      cases hStray : s.strays[place]? with
      | none => simpa only [Ongoing.land, hStray] using h
      | some request =>
          have hRest : ({ s with strays := s.strays.eraseIdx place } : Ongoing).Covered n q :=
            ⟨h.file, h.book, h.past, h.vault, h.turn⟩
          rw [land_stray hStray]
          split_ifs
          · exact hRest.stray request
          · exact hRest

theorem Covered.landAll (h : s.Covered n q) (ls : List Landing) :
    (ls.foldl Ongoing.land s).Covered n q := by
  induction ls generalizing s with
  | nil => exact h
  | cons l ls ih => exact ih (h.land l)

/-! ## What the other process does meanwhile -/

/-- Both processes make the call. -/
theorem Covered.both (h : s.Covered n q) (hTurn : s.turn = none) (request : Request) :
    (s.serve false request).Covered n (q.withVault (q.vault.serve request).2) := by
  refine ⟨h.file, h.book, h.past_serve false, fun e hThere => ?_,
    fun e hWrite => absurd hWrite (not_hasWrite_of_free hTurn)⟩
  by_cases hWrites : request.Writes e
  · exact .inr ((contains_serve_iff _).mpr (.inl hWrites))
  · refine (h.left false hWrites hThere).imp_right fun hLeft => ?_
    exact (contains_serve_iff _).mpr (.inr hLeft)

/-- One more fault concerns one more call. -/
theorem call_cons (q : Process) (saves : List (Option String)) (fate : CallFate)
    (calls : List CallFate) (request : Request) :
    Process.call (q, ⟨saves, fate :: calls⟩) request =
      ((Process.call (q, ⟨[], [fate]⟩) request).1, (Process.call (q, ⟨[], [fate]⟩) request).2.1,
        ⟨saves, calls⟩) := by
  simp only [Process.call, List.head?_cons, Option.getD_some, List.tail_cons]
  split <;> rfl

/-- The other process writes at once what is going to be written, and fails to write what is
dropped. -/
theorem Covered.put (h : s.Covered n q) (ending : CallEnd) (e : Entry) (value : String) :
    ∃ fate,
      let ended := Process.call (q, ⟨[], [fate]⟩) (.put e value)
      ended.1 = (s.call ending (.put e value)).1 ∧
        (s.call ending (.put e value)).2.Covered n ended.2.1 := by
  cases hTurn : s.turn with
  | some request =>
      rw [call_of_turn hTurn]
      exact ⟨.fails .timedOut, rfl, h⟩
  | none =>
      cases ending with
      | lingers =>
          rw [call_lingers hTurn]
          refine ⟨.lands .timedOut, rfl, h.file, h.book, h.past, fun e' hThere => ?_, ?_⟩
          · exact (h.vault e' hThere).imp_right fun hAhead =>
              (contains_serve_iff (.put e value)).mpr (.inr ⟨hAhead, by simp⟩)
          · rintro e' ⟨value', hPut⟩
            obtain ⟨rfl, _⟩ := Request.put.inj (Option.some.inj hPut)
            exact (contains_serve_iff (.put e value)).mpr (.inl ⟨value, rfl⟩)
      | heard fate =>
          have hBoth := h.both hTurn (.put e value)
          refine ⟨fate, ?_⟩
          simp only [call, hTurn, CallFate.forRequest, Process.call, List.head?_cons,
            Option.getD_some]
          cases fate with
          | works => exact ⟨rfl, hBoth⟩
          | fails cause => exact ⟨rfl, h⟩
          | lands cause => exact ⟨rfl, hBoth⟩

/-- An answer to a removal by which the entry is gone, whether it was there or not. -/
def SaysRemoved (answer : Except CallFailure String) : Prop :=
  answer = .ok "" ∨ answer = .error (.refused .noEntry)

theorem saysRemoved (there : Bool) :
    SaysRemoved ((if there then .ok "" else .error .noEntry : Except ServiceError String).mapError
      .refused) := by
  cases there with
  | true => exact .inl rfl
  | false => exact .inr rfl

/-- Answers to a removal between which it makes no difference which one is heard. -/
def SameNews (a b : Except CallFailure String) : Prop := a = b ∨ SaysRemoved a ∧ SaysRemoved b

/-- The other process removes an entry when it is heard that it is gone. -/
theorem Covered.delete (h : s.Covered n q) (ending : CallEnd) (e : Entry) :
    ∃ fate,
      let ended := Process.call (q, ⟨[], [fate]⟩) (.delete e)
      SameNews ended.1 (s.call ending (.delete e)).1 ∧
        (s.call ending (.delete e)).2.Covered n ended.2.1 := by
  cases hTurn : s.turn with
  | some request =>
      rw [call_of_turn hTurn]
      exact ⟨.fails .timedOut, .inl rfl, h⟩
  | none =>
      cases ending with
      | lingers =>
          rw [call_lingers hTurn]
          refine ⟨.fails .timedOut, .inl rfl, h.file, h.book, h.past, h.vault, ?_⟩
          rintro e' ⟨value, hPut⟩
          cases hPut
      | heard fate =>
          have hBoth := h.both hTurn (.delete e)
          refine ⟨fate, ?_⟩
          simp only [call, hTurn, Process.call, List.head?_cons, Option.getD_some]
          cases CallFate.forRequest (.delete e) fate with
          | works =>
              simp only [Vault.serve_delete] at hBoth ⊢
              exact ⟨.inr ⟨saysRemoved _, saysRemoved _⟩, hBoth⟩
          | fails cause => exact ⟨.inl rfl, h⟩
          | lands cause => exact ⟨.inl rfl, hBoth⟩

theorem Covered.save (h : s.Covered n q) (b : Book) :
    ({ s with toProcess := s.toProcess.save b } : Ongoing).Covered n (q.save b) :=
  ⟨rfl, rfl, h.past, h.vault, h.turn⟩

/-! ## One effect on both processes -/

theorem Covered.hostSave (h : s.Covered n q) (b : Book) (schedule : Schedule) :
    ∃ fate q', (host.save b (s, schedule)).2.1.Covered n q' ∧ ∀ saves calls,
      Process.host.save b (q, ⟨fate :: saves, calls⟩) =
        ((host.save b (s, schedule)).1, q', ⟨saves, calls⟩) := by
  obtain ⟨saves, courses⟩ := schedule
  cases saves with
  | nil => exact ⟨none, _, h.save b, fun _ _ => rfl⟩
  | cons fate rest =>
      cases fate with
      | none => exact ⟨none, _, h.save b, fun _ _ => rfl⟩
      | some reason => exact ⟨some reason, _, h, fun _ _ => rfl⟩

theorem Covered.hostPut (h : s.Covered n q) (e : Entry) (value : String)
    (schedule : Schedule) :
    ∃ fate q', (host.put e value (s, schedule)).2.1.Covered n q' ∧ ∀ saves calls,
      Process.host.put e value (q, ⟨saves, fate :: calls⟩) =
        ((host.put e value (s, schedule)).1, q', ⟨saves, calls⟩) := by
  let course := schedule.courses.head?.getD .calm
  obtain ⟨fate, hAnswer, hEnd⟩ := (h.landAll course.landings).put course.ending e value
  refine ⟨fate, _, hEnd, fun saves calls => ?_⟩
  have hCall := call_cons q saves fate calls (.put e value)
  simp only [Process.host, hCall, hAnswer]
  rfl

theorem Covered.hostDelete (h : s.Covered n q) (e : Entry) (schedule : Schedule) :
    ∃ fate answer q', SameNews answer (nextCall (s, schedule) (.delete e)).1 ∧
      (host.delete e (s, schedule)).2.1.Covered n q' ∧ ∀ saves calls,
        Process.host.delete e (q, ⟨saves, fate :: calls⟩) =
          (answer.map fun _ => (), q', ⟨saves, calls⟩) := by
  let course := schedule.courses.head?.getD .calm
  obtain ⟨fate, hNews, hEnd⟩ := (h.landAll course.landings).delete course.ending e
  refine ⟨fate, _, _, hNews, hEnd, fun saves calls => ?_⟩
  have hCall := call_cons q saves fate calls (.delete e)
  simp only [Process.host, hCall]

end Ongoing

/-! ## Programs that do not look -/

namespace Program

variable {α β : Type}

/-- A program that reads no secrets, and does not care whether there was anything where it removed
something. -/
def Indifferent : Program α → Prop
  | .done _ => True
  | .book next => ∀ b, (next b).Indifferent
  | .save _ next => ∀ r, (next r).Indifferent
  | .put _ _ next => ∀ r, (next r).Indifferent
  | .get _ _ => False
  | .delete _ next =>
    next (.ok ()) = next (.error (.refused .noEntry)) ∧ ∀ r, (next r).Indifferent
  | .emit _ next => next.Indifferent

theorem Indifferent.bind {p : Program α} {f : α → Program β} (hFirst : p.Indifferent)
    (hSecond : ∀ a, (f a).Indifferent) : (p >>= f).Indifferent := by
  change (p.bind f).Indifferent
  induction p with
  | done a => exact hSecond a
  | book next ih => exact fun b => ih b (hFirst b)
  | save b next ih => exact fun r => ih r (hFirst r)
  | put e value next ih => exact fun r => ih r (hFirst r)
  | get e next ih => exact hFirst.elim
  | delete e next ih =>
      exact ⟨congrArg (·.bind f) hFirst.1, fun r => ih r (hFirst.2 r)⟩
  | emit event next ih => exact ih hFirst

theorem Indifferent.next_eq {e : Entry} {next : Except CallFailure Unit → Program α}
    (h : (Program.delete e next).Indifferent) {a b : Except CallFailure String}
    (hNews : Ongoing.SameNews a b) : next (a.map fun _ => ()) = next (b.map fun _ => ()) := by
  have hRemoved : ∀ {a}, Ongoing.SaysRemoved a → next (a.map fun _ => ()) = next (.ok ()) := by
    rintro a (rfl | rfl)
    · rfl
    · exact h.1.symm
  rcases hNews with rfl | ⟨ha, hb⟩
  · rfl
  · rw [hRemoved ha, hRemoved hb]

section Cuts

variable {n : Nat}

/-- Each of the states is covered by one of the others. -/
def AllCovered (n : Nat) (xs : List (Ongoing × Schedule))
    (ys : List (Process × Faults)) : Prop :=
  ∀ x ∈ xs, ∃ y ∈ ys, x.1.Covered n y.1

theorem AllCovered.cons {x : Ongoing × Schedule} {y : Process × Faults}
    {xs : List (Ongoing × Schedule)} {ys : List (Process × Faults)} (hHead : x.1.Covered n y.1)
    (hRest : AllCovered n xs ys) : AllCovered n (x :: xs) (y :: ys) := by
  intro x' hMem
  rcases List.mem_cons.mp hMem with rfl | hMem
  · exact ⟨y, List.mem_cons_self, hHead⟩
  · obtain ⟨y', hMem', hCovered⟩ := hRest x' hMem
    exact ⟨y', List.mem_cons_of_mem _ hMem', hCovered⟩

/-- On the other process the program gives the same answer, and that process is ahead at the end and
wherever this one may be cut off. -/
structure Follows (n : Nat) (p : Program α) (x : Ongoing × Schedule)
    (y : Process × Faults) : Prop where
  cuts : AllCovered n (p.cuts Ongoing.host x) (p.cuts Process.host y)
  answer : (p.run Process.host y).1 = (p.run Ongoing.host x).1
  last : (p.run Ongoing.host x).2.1.Covered n (p.run Process.host y).2.1

/-- One effect more, in front. -/
theorem Follows.effect {p next : Program α} {x x' : Ongoing × Schedule} {y y' : Process × Faults}
    (h : Follows n next x' y') (hHead : x.1.Covered n y.1)
    (hThis : p.cuts Ongoing.host x = x :: next.cuts Ongoing.host x' ∧
      p.run Ongoing.host x = next.run Ongoing.host x')
    (hOther : p.cuts Process.host y = y :: next.cuts Process.host y' ∧
      p.run Process.host y = next.run Process.host y') : Follows n p x y := by
  constructor
  · rw [hThis.1, hOther.1]
    exact h.cuts.cons hHead
  · rw [hThis.2, hOther.2]
    exact h.answer
  · rw [hThis.2, hOther.2]
    exact h.last

/-- With some faults the other process stays ahead. They are made up as the program goes on. -/
theorem exists_follows {p : Program α} (hIndifferent : p.Indifferent) {s : Ongoing} {q : Process}
    (h : s.Covered n q) (schedule : Schedule) :
    ∃ faults, Follows n p (s, schedule) (q, faults) := by
  induction p generalizing s q schedule with
  | done a =>
      refine ⟨.none, fun x hCut => ⟨(q, .none), List.mem_singleton_self _, ?_⟩, rfl, h⟩
      rw [List.mem_singleton.mp hCut]
      exact h
  | book next ih =>
      obtain ⟨faults, hRest⟩ := ih s.book (hIndifferent s.book) h schedule
      have hNext : next (Process.host.book (q, faults)) = next s.book := congrArg next h.book
      refine ⟨faults, ?_, ?_, ?_⟩
      · rw [cuts, cuts, hNext]
        exact hRest.cuts
      · rw [run, run, hNext]
        exact hRest.answer
      · rw [run, run, hNext]
        exact hRest.last
  | save b next ih =>
      obtain ⟨fate, q', hEnd, hSave⟩ := h.hostSave b schedule
      obtain ⟨faults, hRest⟩ := ih (Ongoing.host.save b (s, schedule)).1 (hIndifferent _) hEnd
        (Ongoing.host.save b (s, schedule)).2.2
      refine ⟨⟨fate :: faults.saves, faults.calls⟩, hRest.effect h ⟨rfl, rfl⟩ ?_⟩
      rw [cuts, run, hSave]
      exact ⟨rfl, rfl⟩
  | put e value next ih =>
      obtain ⟨fate, q', hEnd, hPut⟩ := h.hostPut e value schedule
      obtain ⟨faults, hRest⟩ := ih (Ongoing.host.put e value (s, schedule)).1 (hIndifferent _) hEnd
        (Ongoing.host.put e value (s, schedule)).2.2
      refine ⟨⟨faults.saves, fate :: faults.calls⟩, hRest.effect h ⟨rfl, rfl⟩ ?_⟩
      rw [cuts, run, hPut]
      exact ⟨rfl, rfl⟩
  | get e next ih => exact hIndifferent.elim
  | delete e next ih =>
      obtain ⟨fate, answer, q', hNews, hEnd, hDelete⟩ := h.hostDelete e schedule
      obtain ⟨faults, hRest⟩ := ih (Ongoing.host.delete e (s, schedule)).1 (hIndifferent.2 _) hEnd
        (Ongoing.host.delete e (s, schedule)).2.2
      refine ⟨⟨faults.saves, fate :: faults.calls⟩, hRest.effect h ⟨rfl, rfl⟩ ?_⟩
      rw [cuts, run, hDelete, hIndifferent.next_eq hNews]
      exact ⟨rfl, rfl⟩
  | emit event next ih =>
      have hNotified : Ongoing.Covered n { s with toProcess := s.toProcess.notify event }
          (q.notify event) := ⟨h.file, h.book, h.past, h.vault, h.turn⟩
      obtain ⟨faults, hRest⟩ := ih hIndifferent hNotified schedule
      exact ⟨faults, hRest.cuts, hRest.answer, hRest.last⟩

end Cuts
end Program

namespace Action

variable {α β : Type}

/-- The like for an action. -/
def Indifferent (a : Action α) : Prop := Program.Indifferent a.run

namespace Indifferent

variable {a : Action α}

theorem pure (x : α) : Indifferent (pure x) := trivial

theorem throw (e : Error) : Indifferent (throw e : Action α) := trivial

theorem ofExcept (r : Except Error α) : Indifferent (Action.ofExcept r) := trivial

theorem emit (event : Event) : Indifferent (Action.emit event) := trivial

theorem bind {f : α → Action β} (hFirst : Indifferent a) (hSecond : ∀ x, Indifferent (f x)) :
    Indifferent (a >>= f) := by
  rw [Indifferent, ExceptT.run_bind]
  refine Program.Indifferent.bind hFirst fun answer => ?_
  cases answer with
  | ok x => exact hSecond x
  | error e => trivial

theorem map {f : α → β} (h : Indifferent a) : Indifferent (f <$> a) := by
  rw [← bind_pure_comp]
  exact h.bind fun x => pure (f x)

theorem tryCatch {handle : Error → Action α} (hBody : Indifferent a)
    (hHandle : ∀ e, Indifferent (handle e)) : Indifferent (tryCatch a handle) := by
  rw [Indifferent, ExceptT.run_tryCatch]
  refine Program.Indifferent.bind hBody fun answer => ?_
  cases answer with
  | ok x => trivial
  | error e => exact hHandle e

theorem forM {f : β → Action Unit} (hTurn : ∀ x, Indifferent (f x)) (xs : List β) :
    Indifferent (xs.forM f) := by
  induction xs with
  | nil => exact pure ()
  | cons x rest ih => exact (hTurn x).bind fun _ => ih

end Indifferent
end Action
end Accounts
