import Mathlib.Tactic.SplitIfs
import Accounts.Proofs.Process
import Accounts.Proofs.Since

/-! Processes whose calls to the secret service may outlast their limits. A keyring makes one call
at a time. A call that is given up while it runs keeps the turn, and a call that does not get the
turn within its limit is dropped. A registry that is opened anew has a keyring of its own, which
does not wait for the calls of earlier ones. Main statement: an entry may hold what an earlier
keyring wrote late only if a call to write it was still under way (`Evolves.astray`). -/
namespace Accounts

/-- The call puts something in the entry. -/
def Request.Writes (e : Entry) (request : Request) : Prop := ∃ value, request = .put e value

/-- The call decides what is in the entry. -/
def Request.Settles (e : Entry) (request : Request) : Prop := request.Writes e ∨ request = .delete e

/-- A call that took its effect. -/
structure Effect where
  request : Request
  /-- The call was one of an earlier keyring. -/
  isStray : Bool
  deriving DecidableEq

/-- A process and its calls that were given up while they ran. -/
structure Ongoing extends Process where
  /-- The call that has the turn of the keyring in use. -/
  turn : Option Request
  /-- The calls of earlier keyrings that are still under way. -/
  strays : List Request
  /-- The calls so far that took their effects, in the order in which they did. -/
  served : List Effect
  deriving DecidableEq

/-- The end of a call that was given up, with its effect or without it. -/
inductive Landing where
  /-- The call that has the turn is over. -/
  | turn (works : Bool)
  /-- The call at this place among those of earlier keyrings is over. -/
  | stray (place : Nat) (works : Bool)
  deriving DecidableEq, Repr

/-- How a call ends that gets the turn. -/
inductive CallEnd where
  /-- Its caller hears what becomes of it. -/
  | heard (fate : CallFate)
  /-- Its caller gives up while it runs. -/
  | lingers
  deriving DecidableEq, Repr

/-- The course of one call: what lands while it waits for the turn, and how it ends if it gets
it. -/
structure Course where
  landings : List Landing
  ending : CallEnd
  deriving DecidableEq, Repr

/-- A call that does not have to wait and works. -/
def Course.calm : Course := ⟨[], .heard .works⟩

/-- What is to become of the coming saves and calls. Those for which nothing is listed work. -/
structure Schedule where
  /-- For each of the coming saves, why it fails if it does. -/
  saves : List (Option String)
  courses : List Course
  deriving DecidableEq

def Schedule.calm : Schedule := ⟨[], []⟩

namespace Ongoing

/-- A process with a new keyring and no calls of earlier ones. -/
def idle (p : Process) : Ongoing := { p with turn := none, strays := [], served := [] }

/-- The process after a call takes its effect. -/
def serve (s : Ongoing) (isStray : Bool) (request : Request) : Ongoing :=
  { s with vault := (s.vault.serve request).2, served := s.served ++ [⟨request, isStray⟩] }

/-- The process after a call is over that was given up. -/
def land (s : Ongoing) : Landing → Ongoing
  | .turn works =>
    match s.turn with
    | none => s
    | some request =>
      if works then { s with turn := none }.serve false request else { s with turn := none }
  | .stray place works =>
    let rest := s.strays.eraseIdx place
    match s.strays[place]? with
    | none => s
    | some request =>
      if works then { s with strays := rest }.serve true request else { s with strays := rest }

theorem land_turn {s : Ongoing} {request : Request} (h : s.turn = some request) (works : Bool) :
    s.land (.turn works) =
      if works then { s with turn := none }.serve false request else { s with turn := none } := by
  simp only [land, h]

theorem land_stray {s : Ongoing} {place : Nat} {request : Request}
    (h : s.strays[place]? = some request) (works : Bool) :
    s.land (.stray place works) =
      if works then { s with strays := s.strays.eraseIdx place }.serve true request
      else { s with strays := s.strays.eraseIdx place } := by
  simp only [land, h]

@[simp] theorem land_book (s : Ongoing) (l : Landing) : (s.land l).book = s.book := by
  unfold land serve
  split
  · split
    · rfl
    · split_ifs <;> rfl
  · dsimp only
    split
    · rfl
    · split_ifs <;> rfl

theorem landAll_book (s : Ongoing) (ls : List Landing) : (ls.foldl land s).book = s.book := by
  induction ls generalizing s with
  | nil => rfl
  | cons l ls ih => exact (ih _).trans (s.land_book l)

/-- A call of the keyring in use. It is dropped if it does not get the turn. -/
def call (s : Ongoing) (ending : CallEnd) (request : Request) :
    Except CallFailure String × Ongoing :=
  match s.turn, ending with
  | some _, _ => (.error .timedOut, s)
  | none, .lingers => (.error .timedOut, { s with turn := some request })
  | none, .heard fate =>
    match CallFate.forRequest request fate with
    | .works => ((s.vault.serve request).1.mapError .refused, s.serve false request)
    | .fails cause => (.error cause, s)
    | .lands cause => (.error cause, s.serve false request)

theorem call_of_turn {s : Ongoing} {other : Request} (h : s.turn = some other) (ending : CallEnd)
    (request : Request) : s.call ending request = (.error .timedOut, s) := by
  simp only [call, h]

theorem call_lingers {s : Ongoing} (h : s.turn = none) (request : Request) :
    s.call .lingers request = (.error .timedOut, { s with turn := some request }) := by
  simp only [call, h]

theorem call_works {s : Ongoing} (h : s.turn = none) (request : Request) :
    s.call (.heard .works) request =
      ((s.vault.serve request).1.mapError .refused, s.serve false request) := by
  have hFate : CallFate.forRequest request .works = .works := by
    cases request with
    | put e value => rfl
    | get e => rfl
    | delete e => rfl
  simp only [call, h, hFate]

theorem call_fails {s : Ongoing} {cause : CallFailure} (h : s.turn = none)
    (hCause : cause ≠ .refused .noEntry) (request : Request) :
    s.call (.heard (.fails cause)) request = (.error cause, s) := by
  simp only [call, h, CallFate.forRequest_fails hCause]

/-- The next call of a schedule. -/
def nextCall (s : Ongoing × Schedule) (request : Request) :
    Except CallFailure String × Ongoing × Schedule :=
  let course := s.2.courses.head?.getD .calm
  let (answer, o) := (course.landings.foldl land s.1).call course.ending request
  (answer, o, { s.2 with courses := s.2.courses.tail })

/-- A process with calls that may outlast their limits as a host. -/
def host : Host (Ongoing × Schedule) where
  book s := s.1.book
  save b s :=
    let (answer, p, faults) := Process.host.save b (s.1.toProcess, ⟨s.2.saves, []⟩)
    (answer, { s.1 with toProcess := p }, { s.2 with saves := faults.saves })
  put e value s := ((nextCall s (.put e value)).1.map fun _ => (), (nextCall s (.put e value)).2)
  get e s := nextCall s (.get e)
  delete e s := ((nextCall s (.delete e)).1.map fun _ => (), (nextCall s (.delete e)).2)
  emit event s := ({ s.1 with toProcess := s.1.toProcess.notify event }, s.2)

/-- The registry is opened anew: `p` is what was read from the file. -/
def reopen (s : Ongoing) (p : Process) : Ongoing :=
  { p with turn := none, strays := s.strays ++ s.turn.toList, served := s.served }

/-! ## Late writes -/

/-- A write of the entry has the turn. -/
def HasWrite (s : Ongoing) (e : Entry) : Prop := ∃ value, s.turn = some (.put e value)

/-- A write of the entry by an earlier keyring is still under way. -/
def HasStray (s : Ongoing) (e : Entry) : Prop := ∃ value, .put e value ∈ s.strays

/-- Of the calls after the first `n` to take effect, the last one that decided what is in the entry
was a write of an earlier keyring. -/
def LooseSince (n : Nat) (s : Ongoing) (e : Entry) : Prop :=
  Since (fun x : Effect => x.isStray = true ∧ x.request.Writes e)
    (fun x : Effect => x.request.Settles e) (s.served.drop n)

/-- What is in the entry was written late by an earlier keyring. -/
def Loose (s : Ongoing) (e : Entry) : Prop := s.LooseSince 0 e

/-- What is in the entry was written late by an earlier keyring, or may yet be. -/
def Astray (s : Ongoing) (e : Entry) : Prop := s.Loose e ∨ s.HasStray e

variable {s t u : Ongoing} {n : Nat} {request : Request} {e : Entry}

theorem not_hasWrite_of_free (hFree : s.turn = none) : ¬s.HasWrite e := by
  rintro ⟨value, hWrite⟩
  rw [hFree] at hWrite
  contradiction

theorem contains_put (v : Vault) (e e' : Entry) (value : String) :
    (v.put e value).contains e' = (decide (e = e') || v.contains e') := by
  rw [SortedMap.contains, Vault.put, SortedMap.get?_insert]
  by_cases hEq : e = e'
  · simp [hEq]
  · simp [hEq, SortedMap.contains]

/-- An entry is there after a call that writes it, or if it was there and the call does not remove
it. -/
theorem contains_serve_iff {v : Vault} (request : Request) :
    (v.serve request).2.contains e = true ↔
      request.Writes e ∨ v.contains e = true ∧ request ≠ .delete e := by
  cases request with
  | put e' value => simp [Vault.serve, contains_put, Request.Writes]
  | get e' => simp [Vault.serve, Request.Writes]
  | delete e' =>
      rw [Vault.serve_delete, SortedMap.contains, SortedMap.get?_erase]
      by_cases hEq : e' = e
      · simp [hEq, Request.Writes]
      · simp [hEq, Request.Writes, SortedMap.contains]

theorem looseSince_serve (h : n ≤ s.served.length) (isStray : Bool) :
    (s.serve isStray request).LooseSince n e ↔
      isStray = true ∧ request.Writes e ∨ s.LooseSince n e ∧ ¬request.Settles e := by
  rw [LooseSince, serve, List.drop_append_of_le_length h, since_snoc]
  rfl

theorem not_looseSince_length : ¬s.LooseSince s.served.length e := by
  rw [LooseSince, List.drop_length]
  exact since_nil

/-- What may happen to the secrets and the calls until the registry is opened anew. -/
inductive Evolves (s : Ongoing) : Ongoing → Prop
  | refl : Evolves s s
  | serve {t : Ongoing} (h : Evolves s t) (request : Request) : Evolves s (t.serve false request)
  | stray {t : Ongoing} (h : Evolves s t) {request : Request} (hStray : request ∈ t.strays) :
      Evolves s (t.serve true request)
  | other {t u : Ongoing} (h : Evolves s t) (hVault : u.vault = t.vault)
      (hServed : u.served = t.served) (hStrays : u.strays ⊆ t.strays) : Evolves s u

namespace Evolves

theorem land (h : Evolves s t) (l : Landing) : Evolves s (t.land l) := by
  cases l with
  | turn works =>
      cases hTurn : t.turn with
      | none => simpa only [Ongoing.land, hTurn] using h
      | some request =>
          have hFree : Evolves s { t with turn := none } := h.other rfl rfl (fun _ h => h)
          rw [land_turn hTurn]
          split_ifs
          · exact hFree.serve request
          · exact hFree
  | stray place works =>
      cases hStray : t.strays[place]? with
      | none => simpa only [Ongoing.land, hStray] using h
      | some request =>
          have hRest : t.strays.eraseIdx place ⊆ t.strays := fun _ => List.mem_of_mem_eraseIdx
          rw [land_stray hStray]
          split_ifs
          · exact (h.stray (List.mem_of_getElem? hStray)).other rfl rfl hRest
          · exact h.other rfl rfl hRest

theorem landAll (h : Evolves s t) (ls : List Landing) : Evolves s (ls.foldl Ongoing.land t) := by
  induction ls generalizing t with
  | nil => exact h
  | cons l ls ih => exact ih (h.land l)

theorem call (h : Evolves s t) (ending : CallEnd) (request : Request) :
    Evolves s (t.call ending request).2 := by
  unfold Ongoing.call
  split
  · exact h
  · exact h.other rfl rfl (fun _ h => h)
  · split
    · exact h.serve request
    · exact h
    · exact h.serve request

theorem save (h : Evolves s t) (b : Book) (schedule : Schedule) :
    Evolves s (host.save b (t, schedule)).2.1 := by
  rcases Process.host_save b (t.toProcess, ⟨schedule.saves, []⟩) with ⟨_, hEnd⟩ | ⟨_, hEnd⟩
  · exact h.other (congrArg (·.vault) hEnd) rfl (fun _ h => h)
  · exact h.other (congrArg (·.vault) hEnd) rfl (fun _ h => h)

theorem nextCall (h : Evolves s t) (schedule : Schedule) (request : Request) :
    Evolves s (Ongoing.nextCall (t, schedule) request).2.1 :=
  (h.landAll _).call _ request

/-- That is all that may happen while a program runs. -/
theorem cuts {α : Type} {p : Program α} {x x' : Ongoing × Schedule} (h : Evolves s x.1)
    (hCut : x' ∈ p.cuts host x) : Evolves s x'.1 := by
  induction p generalizing x with
  | done a =>
      rw [List.mem_singleton.mp hCut]
      exact h
  | book next ih => exact ih _ h hCut
  | save b next ih =>
      rcases List.mem_cons.mp hCut with rfl | hCut
      · exact h
      · exact ih _ (h.save b x.2) hCut
  | put e value next ih =>
      rcases List.mem_cons.mp hCut with rfl | hCut
      · exact h
      · exact ih _ (h.nextCall x.2 (.put e value)) hCut
  | get e next ih =>
      rcases List.mem_cons.mp hCut with rfl | hCut
      · exact h
      · exact ih _ (h.nextCall x.2 (.get e)) hCut
  | delete e next ih =>
      rcases List.mem_cons.mp hCut with rfl | hCut
      · exact h
      · exact ih _ (h.nextCall x.2 (.delete e)) hCut
  | emit event next ih =>
      have hNotified : Evolves s (host.emit event x).1 := h.other rfl rfl (fun _ h => h)
      exact ih hNotified hCut

theorem length_served_le (h : Evolves s t) : s.served.length ≤ t.served.length := by
  induction h with
  | refl => exact Nat.le_refl _
  | serve _ request ih => exact Nat.le_trans ih (by simp [Ongoing.serve])
  | stray _ hStray ih => exact Nat.le_trans ih (by simp [Ongoing.serve])
  | other _ hVault hServed hStrays ih => exact hServed ▸ ih

theorem strays_subset (h : Evolves s t) : t.strays ⊆ s.strays := by
  induction h with
  | refl => exact fun _ h => h
  | serve _ request ih => exact ih
  | stray _ hStray ih => exact ih
  | other _ hVault hServed hStrays ih => exact fun _ hMem => ih (hStrays hMem)

/-- What comes to be written late was under way before. -/
theorem looseSince (h : Evolves s t) (hPast : n ≤ s.served.length) (hLoose : t.LooseSince n e) :
    s.LooseSince n e ∨ s.HasStray e := by
  induction h with
  | refl => exact .inl hLoose
  | serve hBefore request ih =>
      have hLength := Nat.le_trans hPast hBefore.length_served_le
      rcases (looseSince_serve hLength false).mp hLoose with ⟨hFalse, _⟩ | ⟨hBefore, _⟩
      · contradiction
      · exact ih hBefore
  | stray hBefore hStray ih =>
      have hLength := Nat.le_trans hPast hBefore.length_served_le
      rcases (looseSince_serve hLength true).mp hLoose with ⟨_, value, rfl⟩ | ⟨hLoose', _⟩
      · exact .inr ⟨value, hBefore.strays_subset hStray⟩
      · exact ih hLoose'
  | other _ hVault hServed hStrays ih =>
      rw [LooseSince, hServed] at hLoose
      exact ih hLoose

theorem hasStray (h : Evolves s t) (hStray : t.HasStray e) : s.HasStray e :=
  hStray.imp fun _ hMem => h.strays_subset hMem

theorem astray (h : Evolves s t) (hAstray : t.Astray e) : s.Astray e := by
  rcases hAstray with hLoose | hStray
  · exact h.looseSince (Nat.zero_le _) hLoose
  · exact .inr (h.hasStray hStray)

/-- What was written late is there, until it is written anew or removed. -/
theorem contains_of_loose (h : Evolves s t) (hThere : s.Loose e → s.vault.contains e = true)
    (hLoose : t.Loose e) : t.vault.contains e = true := by
  induction h with
  | refl => exact hThere hLoose
  | serve _ request ih =>
      rcases (looseSince_serve (Nat.zero_le _) false).mp hLoose with ⟨hFalse, _⟩ | ⟨hBefore, hNot⟩
      · contradiction
      · exact (contains_serve_iff _).mpr (.inr ⟨ih hBefore, fun hDelete => hNot (.inr hDelete)⟩)
  | stray _ hStray ih =>
      rcases (looseSince_serve (Nat.zero_le _) true).mp hLoose with ⟨_, hWrites⟩ | ⟨hBefore, hNot⟩
      · exact (contains_serve_iff _).mpr (.inl hWrites)
      · exact (contains_serve_iff _).mpr (.inr ⟨ih hBefore, fun hDelete => hNot (.inr hDelete)⟩)
  | other _ hVault hServed hStrays ih =>
      rw [Loose, LooseSince, hServed] at hLoose
      rw [hVault]
      exact ih hLoose

end Evolves

theorem not_loose_idle (p : Process) : ¬(idle p).Loose e := since_nil

theorem not_astray_idle (p : Process) : ¬(idle p).Astray e := by
  rintro (hLoose | ⟨value, hMem⟩)
  · exact not_loose_idle p hLoose
  · contradiction

/-- As the registry is opened anew, the call that has the turn becomes one of an earlier keyring. -/
theorem hasStray_reopen {p : Process} (h : (s.reopen p).HasStray e) :
    s.HasStray e ∨ s.HasWrite e := by
  obtain ⟨value, hMem⟩ := h
  rcases List.mem_append.mp hMem with hStray | hTurn
  · exact .inl ⟨value, hStray⟩
  · exact .inr ⟨value, by simpa using hTurn⟩

theorem astray_reopen {p : Process} (h : (s.reopen p).Astray e) : s.Astray e ∨ s.HasWrite e := by
  rcases h with hLoose | hStray
  · exact .inl (.inl hLoose)
  · exact (hasStray_reopen hStray).imp_left .inr

end Ongoing
end Accounts
