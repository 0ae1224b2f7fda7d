import Mathlib.Data.List.Pairwise
import Accounts.Machine.Launch
import Accounts.Proofs.CollectionFile
import Accounts.Proofs.Machine.Files

/-! The collection that the program uses for an account directory, from start to start. What is
configured is used and nothing else happens. Otherwise an identifier that is remembered is used. The
first start that finds none makes one up and remembers it, and every start after that finds it. -/
namespace Accounts.Machine
open CollectionFile

/-- What an account directory remembers, or why that cannot be found out. -/
def remembered? (m : Machine) (dir : String) : Except String (Option String) :=
  ((m.files.read (Path.join dir CollectionFile.name)).mapError Obstacle.message).bind
    CollectionFile.remembered?

/-- The machine after a try to have an account directory remember an identifier. -/
def remember (m : Machine) (dir id : String) : Except Obstacle Unit × Machine :=
  let written := m.files.writeIn dir (Path.join dir CollectionFile.name) (CollectionFile.content id)
  (written.1, { m with files := written.2 })

/-- What is done about a choice of the collection. Only an identifier that is to be remembered makes
for a write. -/
def carryOut (m : Machine) (dir : String) :
    Except String (String × Bool) → Except String String × Machine
  | .error reason => (.error reason, m)
  | .ok (id, false) => (.ok id, m)
  | .ok (id, true) =>
    (((m.remember dir id).1.mapError Obstacle.message).map fun _ => id, (m.remember dir id).2)

theorem isTrimmed_of_known {m : Machine} {dir id : String}
    (h : m.remembered? dir = .ok (some id)) : IsTrimmed id := by
  unfold remembered? at h
  cases hRead : m.files.read (Path.join dir CollectionFile.name) with
  | error obstacle =>
      rw [hRead] at h
      contradiction
  | ok saved =>
      rw [hRead] at h
      exact isTrimmed_of_remembered h

/-- Either an identifier is remembered from then on, or no file changes. -/
theorem remember_cases {id : String} (hPlain : IsPlain id) (m : Machine) (dir : String) :
    ((m.remember dir id).1 = .ok () ∧ (m.remember dir id).2.remembered? dir = .ok (some id) ∧
      (m.remember dir id).2.files.read (Path.join dir CollectionFile.name) =
        .ok (some (content id))) ∨
    ((∃ obstacle, (m.remember dir id).1 = .error obstacle) ∧
      m.files.SameFiles (m.remember dir id).2.files) := by
  refine (m.files.writeIn_cases dir (Path.join dir CollectionFile.name) (content id)).imp_left ?_
  rintro ⟨hOk, hRead⟩
  refine ⟨hOk, ?_, hRead⟩
  rw [remembered?, remember, hRead]
  exact remembered?_content hPlain

/-- A start of the program, as far as it matters to the collection. -/
structure Start where
  config : Config
  /-- The identifier that is made up if one is needed. -/
  fresh : String

namespace Start

variable {start : Start} {dir id : String} {m : Machine}

/-- The collection that is configured, if one is. -/
def configured? (start : Start) : Option String := start.config.secrets.collection

/-- The start with an account directory, and the collection that it uses. -/
def run (dir : String) (start : Start) (m : Machine) : Except String String × Machine :=
  (collection start.config dir start.fresh).run m

/-- A start chooses, and carries out its choice. -/
theorem run_eq (dir : String) (start : Start) (m : Machine) :
    start.run dir m = m.carryOut dir (choose start.configured?
      ((m.files.read (Path.join dir CollectionFile.name)).mapError Obstacle.message)
      start.fresh) := by
  have hRun : ∀ choice : Except String (String × Bool),
      (Job.ofExcept (fun reason => reason) choice >>= fun chosen => do
        if chosen.2 then
          writeFile dir (Path.join dir CollectionFile.name) (CollectionFile.content chosen.1)
        return chosen.1 : Job String).run m = m.carryOut dir choice := by
    rintro (reason | ⟨id, isNew⟩)
    · rfl
    · cases isNew with
      | false => rfl
      | true =>
          change (ExceptT.bindCont (fun _ => pure id)
            ((m.remember dir id).1.mapError Obstacle.message) : StateM Machine _)
              (m.remember dir id).2 = _
          rw [carryOut]
          cases (m.remember dir id).1 with
          | error obstacle => rfl
          | ok _ => rfl
  exact hRun _

theorem run_of_configured (h : start.configured? = some id) (dir : String) (m : Machine) :
    start.run dir m = (.ok id, m) := by
  rw [run_eq, h, choose]
  rfl

/-- A start without a configured collection does as the directory remembers. -/
theorem run_of_not_configured (h : start.configured? = none) (dir : String) (m : Machine) :
    start.run dir m = m.carryOut dir
      ((m.remembered? dir).map fun known => (known.getD start.fresh, known.isNone)) := by
  rw [run_eq, h, choose_none]
  rfl

/-- What is remembered is used as it is. -/
theorem run_of_known (h : start.configured? = none) (hKnown : m.remembered? dir = .ok (some id)) :
    start.run dir m = (.ok id, m) := by
  rw [run_of_not_configured h, hKnown]
  rfl

theorem run_of_unreadable {reason : String} (h : start.configured? = none)
    (hFault : m.remembered? dir = .error reason) : start.run dir m = (.error reason, m) := by
  rw [run_of_not_configured h, hFault]
  rfl

/-- If nothing is remembered, a new identifier is used if it can be remembered. -/
theorem run_of_unknown (h : start.configured? = none) (hNone : m.remembered? dir = .ok none) :
    start.run dir m =
      (((m.remember dir start.fresh).1.mapError Obstacle.message).map fun _ => start.fresh,
        (m.remember dir start.fresh).2) := by
  rw [run_of_not_configured h, hNone]
  rfl

end Start

/-- A start that took place. -/
structure Visit where
  start : Start
  before : Machine
  answer : Except String String
  after : Machine

/-- The start, as it takes place on a machine. -/
def Start.visit (dir : String) (start : Start) (m : Machine) : Visit :=
  ⟨start, m, (start.run dir m).1, (start.run dir m).2⟩

/-- Starts in turn with one account directory, each on the machine that the one before it left. -/
def visits (dir : String) : List Start → Machine → List Visit
  | [], _ => []
  | start :: rest, m => start.visit dir m :: visits dir rest (start.visit dir m).after

namespace Visit

variable {start : Start} {dir id : String} {m : Machine} {v w : Visit}

/-- The start found its collection without being told. -/
def Found (v : Visit) (id : String) : Prop :=
  v.start.configured? = none ∧ v.answer = .ok id

/-- The start had to make up an identifier, and saved it. -/
def Wrote (dir : String) (v : Visit) : Prop :=
  v.before.remembered? dir = .ok none ∧ v.Found v.start.fresh

/-- What every start does for itself. -/
structure Sound (dir : String) (v : Visit) : Prop where
  /-- What is configured is used, and nothing changes. -/
  configured : ∀ id, v.start.configured? = some id → v.answer = .ok id ∧ v.after = v.before
  /-- What is remembered is used otherwise, and nothing changes. -/
  known : v.start.configured? = none → ∀ id, v.before.remembered? dir = .ok (some id) →
    v.answer = .ok id ∧ v.after = v.before
  /-- There is no collection only if the file cannot be read, or is needed and cannot be written. -/
  failed : ∀ reason, v.answer = .error reason → v.before.remembered? dir = .error reason ∨
    v.before.remembered? dir = .ok none ∧
      ∃ obstacle, (v.before.remember dir v.start.fresh).1 = .error obstacle
  wrote : v.Wrote dir → v.after.files.read (Path.join dir CollectionFile.name) =
    .ok (some (content v.start.fresh))
  kept : ¬v.Wrote dir → v.before.files.SameFiles v.after.files

/-- What an earlier start means to a later one: the later one finds what the earlier one found, and
they do not both write. -/
def Binds (dir : String) (v w : Visit) : Prop :=
  (∀ id, v.Found id → w.start.configured? = none → w.answer = .ok id ∧ w.after = w.before) ∧
    ¬(v.Wrote dir ∧ w.Wrote dir)

theorem Sound.eq_of_found {id' : String} (hSound : v.Sound dir)
    (hKnown : v.before.remembered? dir = .ok (some id)) (h : v.Found id') : id' = id :=
  Except.ok.inj (h.2.symm.trans (hSound.known h.1 id hKnown).1)

theorem binds_of_not_found (h : ∀ id, ¬v.Found id) (w : Visit) : v.Binds dir w :=
  ⟨fun id hFound => absurd hFound (h id), fun hBoth => h _ hBoth.1.2⟩

theorem binds_of_known (hFound : ∀ id', v.Found id' → id' = id) (hSound : w.Sound dir)
    (hKnown : w.before.remembered? dir = .ok (some id)) : v.Binds dir w := by
  refine ⟨fun id' hEarlier hNone => ?_, fun hBoth => ?_⟩
  · rw [hFound id' hEarlier]
    exact hSound.known hNone id hKnown
  · cases hKnown.symm.trans hBoth.2.1

end Visit

namespace Start
open Visit

variable {start : Start} {dir id : String} {m : Machine}

theorem sound_visit_of_configured (h : start.configured? = some id) (dir : String) (m : Machine) :
    (start.visit dir m).Sound dir := by
  rw [visit, run_of_configured h]
  exact {
    configured := fun id' h' => ⟨congrArg Except.ok (Option.some.inj (h.symm.trans h')), rfl⟩
    known := fun h' => by cases h.symm.trans h'
    failed := fun reason hFailed => by cases hFailed
    wrote := fun hWrote => by cases h.symm.trans hWrote.2.1
    kept := fun _ => Files.SameFiles.refl m.files }

theorem sound_visit_of_unreadable {reason : String} (h : start.configured? = none)
    (hFault : m.remembered? dir = .error reason) : (start.visit dir m).Sound dir := by
  rw [visit, run_of_unreadable h hFault]
  exact {
    configured := fun id h' => by cases h.symm.trans h'
    known := fun _ id hKnown => by cases hFault.symm.trans hKnown
    failed := fun reason' hFailed => by
      cases hFailed
      exact Or.inl hFault
    wrote := fun hWrote => by cases hFault.symm.trans hWrote.1
    kept := fun _ => Files.SameFiles.refl m.files }

theorem sound_visit_of_known (h : start.configured? = none)
    (hKnown : m.remembered? dir = .ok (some id)) : (start.visit dir m).Sound dir := by
  rw [visit, run_of_known h hKnown]
  exact {
    configured := fun id' h' => by cases h.symm.trans h'
    known := fun _ id' hKnown' =>
      ⟨congrArg Except.ok (Option.some.inj (Except.ok.inj (hKnown.symm.trans hKnown'))), rfl⟩
    failed := fun reason hFailed => by cases hFailed
    wrote := fun hWrote => by cases hKnown.symm.trans hWrote.1
    kept := fun _ => Files.SameFiles.refl m.files }

theorem sound_visit_of_unknown (hPlain : IsPlain start.fresh) (h : start.configured? = none)
    (hNone : m.remembered? dir = .ok none) : (start.visit dir m).Sound dir := by
  rw [visit, run_of_unknown h hNone]
  rcases remember_cases hPlain m dir with ⟨hOk, _, hRead⟩ | ⟨⟨obstacle, hError⟩, hSame⟩
  · rw [hOk]
    exact {
      configured := fun id h' => by cases h.symm.trans h'
      known := fun _ id hKnown => by cases hNone.symm.trans hKnown
      failed := fun reason hFailed => by cases hFailed
      wrote := fun _ => hRead
      kept := fun hKept => absurd ⟨hNone, h, rfl⟩ hKept }
  · rw [hError]
    exact {
      configured := fun id h' => by cases h.symm.trans h'
      known := fun _ id hKnown => by cases hNone.symm.trans hKnown
      failed := fun _ _ => Or.inr ⟨hNone, obstacle, hError⟩
      wrote := fun hWrote => by cases hWrote.2.2
      kept := fun _ => hSame }

theorem sound_visit (hPlain : IsPlain start.fresh) (dir : String) (m : Machine) :
    (start.visit dir m).Sound dir := by
  cases h : start.configured? with
  | some id => exact sound_visit_of_configured h dir m
  | none =>
      cases hSaved : m.remembered? dir with
      | error reason => exact sound_visit_of_unreadable h hSaved
      | ok known =>
          cases known with
          | some id => exact sound_visit_of_known h hSaved
          | none => exact sound_visit_of_unknown hPlain h hSaved

/-- What a start finds is remembered from then on. -/
theorem known_of_found (hPlain : IsPlain start.fresh) (h : (start.visit dir m).Found id) :
    (start.visit dir m).after.remembered? dir = .ok (some id) := by
  obtain ⟨hNone, hFound⟩ := h
  rw [visit] at hNone hFound ⊢
  dsimp only at hNone hFound ⊢
  cases hSaved : m.remembered? dir with
  | error reason =>
      rw [run_of_unreadable hNone hSaved] at hFound
      contradiction
  | ok known =>
      cases known with
      | some id' =>
          rw [run_of_known hNone hSaved] at hFound ⊢
          obtain rfl := Except.ok.inj hFound
          exact hSaved
      | none =>
          rw [run_of_unknown hNone hSaved] at hFound ⊢
          rcases remember_cases hPlain m dir with ⟨hOk, hKnown, _⟩ | ⟨⟨obstacle, hError⟩, _⟩
          · rw [hOk] at hFound
            obtain rfl := Except.ok.inj hFound
            exact hKnown
          · rw [hError] at hFound
            contradiction

end Start

/-! ## Many starts -/

section
open Visit

variable {starts : List Start} {dir id : String} {m : Machine} {v w : Visit}

theorem mem_visits (h : v ∈ visits dir starts m) :
    ∃ start ∈ starts, ∃ before, v = start.visit dir before := by
  induction starts generalizing m with
  | nil => cases h
  | cons start rest ih =>
      rcases List.mem_cons.mp h with rfl | hRest
      · exact ⟨start, List.mem_cons_self, m, rfl⟩
      · obtain ⟨start', hStart, before, hVisit⟩ := ih hRest
        exact ⟨start', List.mem_cons_of_mem _ hStart, before, hVisit⟩

/-- Once an identifier is remembered, every start leaves the machine as it is. -/
theorem visits_of_known (hPlain : ∀ start ∈ starts, IsPlain start.fresh)
    (hKnown : m.remembered? dir = .ok (some id)) (hVisit : v ∈ visits dir starts m) :
    v.before = m ∧ v.after = m := by
  induction starts with
  | nil => cases hVisit
  | cons start rest ih =>
      have hSame : (start.visit dir m).after = m := by
        have hSound := start.sound_visit (hPlain start List.mem_cons_self) dir m
        cases h : start.configured? with
        | some id' => exact (hSound.configured id' h).2
        | none => exact (hSound.known h id hKnown).2
      rcases List.mem_cons.mp hVisit with rfl | hRest
      · exact ⟨rfl, hSame⟩
      · rw [hSame] at hRest
        exact ih (fun start' h => hPlain start' (List.mem_cons_of_mem _ h)) hRest

/-- Either no start finds a collection, or from the first one that does the same is remembered. -/
theorem visits_cases (hPlain : ∀ start ∈ starts, IsPlain start.fresh) (dir : String) (m : Machine) :
    (∀ v ∈ visits dir starts m, ∀ id, ¬v.Found id) ∨
      ∃ early first rest id, visits dir starts m = early ++ first :: visits dir rest first.after ∧
        rest ⊆ starts ∧ (∀ v ∈ early, ∀ id, ¬v.Found id) ∧ first.Found id ∧
        first.after.remembered? dir = .ok (some id) := by
  induction starts generalizing m with
  | nil => exact Or.inl (by simp [visits])
  | cons start rest ih =>
      by_cases hFound : ∃ id, (start.visit dir m).Found id
      · obtain ⟨id, hFound⟩ := hFound
        exact Or.inr ⟨[], start.visit dir m, rest, id, rfl, List.subset_cons_self start rest,
          by simp, hFound, start.known_of_found (hPlain start List.mem_cons_self) hFound⟩
      · have hHead := not_exists.mp hFound
        rcases ih (fun start' h => hPlain start' (List.mem_cons_of_mem _ h))
          (start.visit dir m).after with hNone | ⟨early, first, later, id, hSplit, hSub, hEarly, hFirst⟩
        · exact Or.inl (List.forall_mem_cons.mpr ⟨hHead, hNone⟩)
        · refine Or.inr ⟨start.visit dir m :: early, first, later, id, ?_,
            List.subset_cons_of_subset start hSub, List.forall_mem_cons.mpr ⟨hHead, hEarly⟩, hFirst⟩
          rw [visits, hSplit]
          rfl

/-- Of any starts with one account directory, whatever is in it, those that find a collection without
being told find the same one, which is not blank and has no white space at its ends. From the first
of them on all find it and change nothing. What is configured is used as it is and changes nothing.
At most one start writes the file. -/
theorem collection_stable (hPlain : ∀ start ∈ starts, IsPlain start.fresh) (dir : String)
    (m : Machine) :
    (∀ v ∈ visits dir starts m, v.Sound dir) ∧
      (∀ v ∈ visits dir starts m, ∀ id, v.Found id → IsTrimmed id ∧
        ∀ w ∈ visits dir starts m, ∀ id', w.Found id' → id' = id) ∧
      (visits dir starts m).Pairwise (Visit.Binds dir) := by
  have hSound : ∀ v ∈ visits dir starts m, v.Sound dir := by
    intro v hv
    obtain ⟨start, hStart, before, rfl⟩ := mem_visits hv
    exact start.sound_visit (hPlain start hStart) dir before
  refine ⟨hSound, ?_⟩
  rcases visits_cases hPlain dir m with
    hNone | ⟨early, first, rest, id, hSplit, hSub, hEarly, hFirst, hKnown⟩
  · refine ⟨fun v hv id hFound => absurd hFound (hNone v hv id), ?_⟩
    exact List.pairwise_of_forall_mem_list fun v hv w _ => binds_of_not_found (hNone v hv) w
  · rw [hSplit] at hSound ⊢
    have hFirstMem : first ∈ early ++ first :: visits dir rest first.after := by simp
    have hLateMem : ∀ v ∈ visits dir rest first.after,
        v ∈ early ++ first :: visits dir rest first.after := fun v hv =>
      List.mem_append_right _ (List.mem_cons_of_mem _ hv)
    have hLate : ∀ v ∈ visits dir rest first.after, v.before.remembered? dir = .ok (some id) := by
      intro v hv
      rw [(visits_of_known (fun start h => hPlain start (hSub h)) hKnown hv).1]
      exact hKnown
    have hOne : ∀ v ∈ early ++ first :: visits dir rest first.after,
        ∀ id', v.Found id' → id' = id := by
      intro v hv id' hFound
      rcases List.mem_append.mp hv with hv | hv
      · exact absurd hFound (hEarly v hv id')
      rcases List.mem_cons.mp hv with rfl | hv
      · exact Except.ok.inj (hFound.2.symm.trans hFirst.2)
      · exact (hSound v (hLateMem v hv)).eq_of_found (hLate v hv) hFound
    constructor
    · intro v hv id' hFound
      rw [hOne v hv id' hFound]
      exact ⟨isTrimmed_of_known hKnown, hOne⟩
    · refine List.pairwise_append.mpr ⟨?_, List.pairwise_cons.mpr ⟨fun w hw => ?_, ?_⟩, ?_⟩
      · exact List.pairwise_of_forall_mem_list fun v hv w _ => binds_of_not_found (hEarly v hv) w
      · exact binds_of_known (hOne first hFirstMem) (hSound w (hLateMem w hw)) (hLate w hw)
      · exact List.pairwise_of_forall_mem_list fun v hv w hw =>
          binds_of_known (hOne v (hLateMem v hv)) (hSound w (hLateMem w hw)) (hLate w hw)
      · exact fun v hv w _ => binds_of_not_found (hEarly v hv) w

end

/-- Starts with and without a configured collection, each with a number for an identifier. -/
def mixedStarts : List Start :=
  [(some "login", 1), (none, 2), (none, 3), (some " ", 4), (none, 5)].map fun s =>
    ⟨{ Config.default with secrets := { SecretConfig.default with collection := s.1 } },
      identifier s.2⟩

/-- A machine on which there is no account directory yet. -/
def bareMachine : Machine := ⟨.bare "/home/keeper", ∅⟩

/-- The second start makes up an identifier, and the third and the fifth find it again. -/
theorem collection_stable_of_mixed_starts :
    (visits "accounts" mixedStarts bareMachine).map (fun v => v.answer.toOption) =
        [some "login", some (identifier 2), some (identifier 2), some " ", some (identifier 2)] ∧
      (∀ start ∈ mixedStarts, IsPlain start.fresh) ∧
      (visits "accounts" mixedStarts bareMachine).Pairwise (Visit.Binds "accounts") := by
  have hPlain : ∀ start ∈ mixedStarts, IsPlain start.fresh := by
    intro start hStart
    obtain ⟨s, _, rfl⟩ := List.mem_map.mp hStart
    exact isPlain_identifier s.2
  exact ⟨by decide +kernel, hPlain, (collection_stable hPlain "accounts" bareMachine).2.2⟩

end Accounts.Machine
