import Mathlib.Data.List.Induction
import Accounts.Proofs.Registry.LateCalls
import Accounts.Proofs.Scenario.LateCalls
import Accounts.Scenario.Session

/-! Sessions in which accounts are changed and the registry is opened anew, while calls of it may
still be under way. -/
namespace Accounts.Scenario

/-- The registry that is opened with the settings. -/
def Settings.registry (settings : Settings) : Registry := ⟨settings.toBackend, settings.secrets⟩

/-- Steps that change accounts or open the registry anew, let time pass, or switch faults on and
off. -/
inductive Step.IsUse (settings : Settings) : Step → Prop
  | create (manager protocol : String) (params : SortedMap String Value) :
      IsUse settings (.registry (.create manager protocol params))
  | set (group key : String) (value : Value) : IsUse settings (.registry (.set group key value))
  | setEnabled (group : String) (enabled : Bool) :
      IsUse settings (.registry (.setEnabled group enabled))
  | remove (group : String) : IsUse settings (.registry (.remove group))
  | reopen {change : Settings → Settings} (h : change settings = settings) :
      IsUse settings (.reopen change)
  | sleep (time : Nat) : IsUse settings (.sleep time)
  | available (on : Bool) : IsUse settings (.service (.available on))
  | stall (time : Nat) : IsUse settings (.service (.stall time))
  | script {items : List Scripted} (h : ∀ item ∈ items, item.isHonest = true) :
      IsUse settings (.service (.script items))
  | block (how : Blockage) : IsUse settings (.block how)
  | unblock : IsUse settings .unblock

namespace Session

variable {α : Type} {settings : Settings} {sess : Session} {t : Ongoing}

/-- The process is as far as the session. While the registry is not open, its book does not
matter. -/
structure Tracks (settings : Settings) (sess : Session) (t : Ongoing) : Prop where
  same : sess.settings = settings
  registry : ∀ r ∈ sess.registry, r = settings.registry
  regular : sess.world.Regular
  shows : ∃ finish, sess.world.Shows finish t
  meets : sess.registry ≠ none → sess.world.Meets .main t

theorem act_snd (sess : Session) (handle : Handle) (action : Action α) (answer : α → Answer) :
    (sess.act handle action answer).2 =
      { sess with
        world := (action.run.run
          (World.host handle sess.settings.service sess.settings.timeout) sess.world).2 } := by
  unfold act
  dsimp only
  split
  · rename_i hRun
    rw [hRun]
  · rename_i hRun
    rw [hRun]

/-- A group that no text names is not acted on. -/
theorem actOn_snd (sess : Session) (handle : Handle) (group : String)
    (action : GroupName → Action α) (answer : α → Answer) :
    (sess.actOn handle group action answer).2 =
      match GroupName.parse group with
      | .ok g => (sess.act handle (action g) answer).2
      | .error _ => sess := by
  unfold actOn
  rw [act_snd]
  cases GroupName.parse group with
  | ok g => exact (act_snd sess handle (action g) answer).symm
  | error e => rfl

/-- What the session does with the open registry, the process does with some schedule. -/
theorem Tracks.act (hMemory : settings.backend = .memory) (h : sess.Tracks settings t)
    (hOpen : sess.registry ≠ none) (action : Action α) (answer : α → Answer) :
    ∃ schedule, (sess.act .main action answer).2.Tracks settings
      (action.run.run Ongoing.host (t, schedule)).2.1 := by
  obtain ⟨schedule, _, hMeets, hRegular⟩ := World.isScheduled .main
    sess.settings.timeout action.run sess.world t (h.meets hOpen) h.regular
  have hService : sess.settings.service = .memory := by
    rw [h.same, Settings.service, hMemory]
  refine ⟨schedule, ?_⟩
  rw [act_snd, hService]
  exact ⟨h.same, h.registry, hRegular, ⟨_, hMeets.toShows⟩, fun _ => hMeets⟩

/-! ## Steps -/

/-- The session has come to what the process may come to when its registry is opened anew at these
times. -/
def Reaches (settings : Settings) (t : Ongoing) (times : List Ongoing) (sess : Session) : Prop :=
  ∃ t', t.Lasts settings.registry times t' ∧ sess.Tracks settings t'

section
variable (h : sess.Tracks settings t)
include h

/-- One operation of the open registry is one of the process. -/
theorem Tracks.operation (hMemory : settings.backend = .memory) (hOpen : sess.registry ≠ none)
    {op : Operation} (hOp : op.isMutation = true) {a : Action α} {f : α → Reply}
    (hAction : op.action settings.registry = f <$> a) (answer : α → Answer) :
    Reaches settings t [] (sess.act .main a answer).2 := by
  obtain ⟨schedule, hTracks⟩ := h.act hMemory hOpen a answer
  exact ⟨_, Ongoing.Lasts.refl.finish hOp hAction schedule, hTracks⟩

theorem Tracks.operationOn (hMemory : settings.backend = .memory) (hOpen : sess.registry ≠ none)
    (group : String) {op : GroupName → Operation} (hOp : ∀ g, (op g).isMutation = true)
    {a : GroupName → Action α} {f : α → Reply}
    (hAction : ∀ g, (op g).action settings.registry = f <$> a g) (answer : α → Answer) :
    Reaches settings t [] (sess.actOn .main group a answer).2 := by
  rw [actOn_snd]
  cases GroupName.parse group with
  | ok g => exact h.operation hMemory hOpen (hOp g) (hAction g) answer
  | error e => exact ⟨t, .refl, h⟩

/-- What is due by the end of a pause lands in the process. -/
theorem Tracks.sleep (time : Nat) :
    Reaches settings t [] { sess with world := sess.world.advance time } := by
  have hRegular := h.regular.advance time
  by_cases hOpen : sess.registry = none
  · obtain ⟨finish, hShows⟩ := h.shows
    obtain ⟨ls, hShows'⟩ := hShows.advance time
    exact ⟨_, Ongoing.Lasts.refl.landAll ls, h.same, h.registry, hRegular, ⟨finish, hShows'⟩,
      fun hNot => absurd hOpen hNot⟩
  · obtain ⟨ls, hMeets⟩ := (h.meets hOpen).advance time
    exact ⟨_, Ongoing.Lasts.refl.landAll ls, h.same, h.registry, hRegular, ⟨_, hMeets.toShows⟩,
      fun _ => hMeets⟩

/-- The process knows nothing of switches. -/
theorem Tracks.switch {memory : MemoryService} {directory : Directory}
    (hVault : memory.vault = sess.world.memory.vault)
    (hContent : directory.content = sess.world.directory.content)
    (hHonest : ∀ item ∈ memory.script, item.isHonest = true) :
    Reaches settings t []
      { sess with world := { sess.world with memory, directory } } := by
  have hShows : ∀ {finish}, sess.world.Shows finish t →
      World.Shows { sess.world with memory, directory } finish t := fun hNow =>
    ⟨hNow.file.trans hContent.symm, hNow.vault.trans hVault.symm, hNow.underWay, hNow.free⟩
  obtain ⟨finish, hNow⟩ := h.shows
  exact ⟨t, .refl, h.same, h.registry, ⟨h.regular.sorted, h.regular.later, hHonest⟩,
    ⟨finish, hShows hNow⟩, fun hOpen => ⟨hShows (h.meets hOpen).toShows, (h.meets hOpen).book⟩⟩

end

/-! ## Openings -/

/-- The session after its store and its registry were closed. -/
def closed (sess : Session) : Session :=
  { sess with
    registry := none
    world := { sess.world with store := none, turnFree := 0, events := .empty } }

theorem openAll_of_error {e : Error} (h : sess.world.directory.load = .error e) :
    sess.openAll.2 = sess.closed := by
  unfold openAll
  dsimp only
  rw [h]
  rfl

/-- To list the accounts afterwards changes nothing. -/
theorem run_openUp_list {σ : Type} (host : Host σ) (r : Registry) (x : σ) :
    ((do r.openUp; Registry.list : Action (List GroupName)).run.run host x).2 =
      (r.openUp.run.run host x).2 := by
  rw [Action.run_bind]
  cases r.openUp.run.run host x with
  | mk answer x' =>
      cases answer with
      | ok _ => rfl
      | error e => rfl

/-- Opening runs the opening of the registry with the book from the file. -/
theorem openAll_of_ok {book : Book} (h : sess.world.directory.load = .ok book) :
    ∃ registry : Option Registry, (∀ r ∈ registry, r = sess.settings.registry) ∧
      sess.openAll.2 =
        { sess with
          registry
          world := (sess.settings.registry.openUp.run.run
            (World.host .main sess.settings.service sess.settings.timeout)
            (sess.closed.world.hold .main (some book))).2 } := by
  let opened : Session := { sess.closed with world := sess.closed.world.hold .main (some book) }
  have hEnd := opened.act_snd .main (do sess.settings.registry.openUp; Registry.list) .opened
  rw [run_openUp_list] at hEnd
  unfold openAll
  dsimp only
  rw [h]
  dsimp only
  split
  · rename_i accounts sess' hAct
    obtain rfl : sess' = _ := (congrArg Prod.snd hAct).symm.trans hEnd
    exact ⟨some sess.settings.registry, by simp, rfl⟩
  · rename_i answer sess' hOther hAct
    obtain rfl : sess' = _ := (congrArg Prod.snd hAct).symm.trans hEnd
    exact ⟨none, by simp, rfl⟩

/-- The process after the registry is closed, as it is in the world: what had the turn has it no
longer. -/
theorem Tracks.meets_reopen (h : sess.Tracks settings t) {p : Process} (hFile : p.file = t.file)
    (hVault : p.vault = t.vault) :
    World.Meets .main (sess.closed.world.hold .main (some p.book)) (t.reopen p) := by
  obtain ⟨finish, hShows⟩ := h.shows
  obtain ⟨strays, hStrays, hPerm⟩ := hShows.underWay
  refine ⟨⟨hFile.trans hShows.file, hVault.trans hShows.vault,
    ⟨strays ++ (t.turn.map fun request => (finish, request)).toList, ?_,
      hPerm.trans List.perm_append_comm⟩, fun _ => Nat.zero_le _⟩, rfl⟩
  rw [List.map_append, hStrays]
  cases hTurn : t.turn with
  | none => simp [Ongoing.reopen, hTurn]
  | some request => simp [Ongoing.reopen, hTurn]

/-- To open the registry anew is an opening of the process, unless the file cannot be read. -/
theorem Tracks.openAll (hMemory : settings.backend = .memory) (h : sess.Tracks settings t) :
    Reaches settings t [] sess.openAll.2 ∨
      Reaches settings t [t] sess.openAll.2 := by
  obtain ⟨finish, hShows⟩ := h.shows
  have hRegular : sess.closed.world.Regular := ⟨h.regular.sorted, h.regular.later, h.regular.honest⟩
  cases hBook : sess.world.directory.load with
  | error e =>
      rw [openAll_of_error hBook]
      exact .inl ⟨t, .refl, h.same, by simp [closed], hRegular,
        ⟨finish, hShows.file, hShows.vault, hShows.underWay, hShows.free⟩,
        fun hOpen => absurd rfl hOpen⟩
  | ok book =>
      have hLoad : AccountFile.load t.file = .ok book := by
        rw [hShows.file]
        unfold Directory.load at hBook
        split_ifs at hBook
        exact hBook
      have hStart := Process.start_of_load hLoad
      let p : Process := { t.toStorage with book, events := [] }
      have hMeets : World.Meets .main _ (t.reopen p) := h.meets_reopen rfl rfl
      have hHeld : (sess.closed.world.hold .main (some book)).Regular :=
        ⟨hRegular.sorted, hRegular.later, hRegular.honest⟩
      obtain ⟨schedule, _, hMeets', hRegular'⟩ := World.isScheduled .main settings.timeout
        settings.registry.openUp.run _ _ hMeets hHeld
      obtain ⟨registry, hRegistry, hEnd⟩ := openAll_of_ok hBook
      have hService : sess.settings.service = .memory := by
        rw [h.same, Settings.service, hMemory]
      rw [hService, h.same] at hEnd
      rw [hEnd]
      refine .inr ⟨_, Ongoing.Lasts.refl.opening hStart (Program.run_mem_cuts _ _ (_, schedule)), rfl,
        fun r hMem => ?_, hRegular', ⟨_, hMeets'.toShows⟩, fun _ => hMeets'⟩
      rw [hRegistry r hMem, h.same]

/-! ## All steps -/

theorem Tracks.registryStep (hMemory : settings.backend = .memory) (h : sess.Tracks settings t)
    {step : RegistryStep}
    (hUse : (Step.registry step).IsUse settings) :
    Reaches settings t [] (sess.registryStep step).2 := by
  unfold Session.registryStep
  split
  · exact ⟨t, .refl, h⟩
  · rename_i r hRegistry
    have hOpen : sess.registry ≠ none := by simp [hRegistry]
    obtain rfl := h.registry r hRegistry
    cases hUse with
    | create manager protocol params =>
        have hOp : (Operation.create manager protocol params).isMutation = true := rfl
        exact h.operation hMemory hOpen hOp rfl _
    | set group key value =>
        have hOp : ∀ g, (Operation.setProperty g key value).isMutation = true := fun _ => rfl
        exact h.operationOn hMemory hOpen group hOp (fun _ => rfl) _
    | setEnabled group enabled =>
        have hOp : ∀ g, (Operation.setEnabled g enabled).isMutation = true := fun _ => rfl
        exact h.operationOn hMemory hOpen group hOp (fun _ => rfl) _
    | remove group =>
        have hOp : ∀ g, (Operation.remove g).isMutation = true := fun _ => rfl
        exact h.operationOn hMemory hOpen group hOp (fun _ => rfl) _

/-- A step takes the process further, and has the registry opened anew in it only if it is a
reopening. -/
theorem Tracks.step (hMemory : settings.backend = .memory) (h : sess.Tracks settings t)
    {step : Step} (hUse : step.IsUse settings) :
    Reaches settings t [] (sess.step step).2 ∨
      (∃ change, step = .reopen change) ∧
        Reaches settings t [t] (sess.step step).2 := by
  cases step with
  | registry step => exact .inl (h.registryStep hMemory hUse)
  | reopen change =>
      cases hUse with
      | reopen hChange =>
          have hSame : { sess with settings := change sess.settings } = sess := by
            rw [h.same, hChange, ← h.same]
          rw [Session.step, hSame]
          exact (h.openAll hMemory).imp_right fun hAnew => ⟨⟨change, rfl⟩, hAnew⟩
  | sleep time => exact .inl (h.sleep _)
  | service step =>
      cases hUse with
      | available on => exact .inl (h.switch rfl rfl h.regular.honest)
      | stall time => exact .inl (h.switch rfl rfl h.regular.honest)
      | script hHonest => exact .inl (h.switch rfl rfl hHonest)
  | block how =>
      have hContent : (sess.world.directory.block how).content = sess.world.directory.content := by
        unfold Directory.block
        split_ifs <;> rfl
      exact .inl (h.switch rfl hContent h.regular.honest)
  | unblock => exact .inl (h.switch rfl rfl h.regular.honest)
  | store handle step => cases hUse
  | backend step => cases hUse
  | openOther => cases hUse
  | writeFile content => cases hUse
  | removeFile => cases hUse
  | listDirectory => cases hUse
  | fileMode => cases hUse

/-! ## Sessions -/

/-- The session after steps. -/
def after (sess : Session) (steps : List Step) : Session :=
  steps.foldl (fun sess step => (sess.step step).2) sess

theorem after_snoc (sess : Session) (steps : List Step) (step : Step) :
    sess.after (steps ++ [step]) = ((sess.after steps).step step).2 :=
  List.foldl_append

/-- The entry is empty, and no write of it is under way. -/
def IsClear (sess : Session) (e : Entry) : Prop :=
  sess.world.memory.vault.contains e = false ∧
    ∀ finish value, (finish, .put e value) ∉ sess.world.late

/-- A write of the entry was under way when the registry was opened anew, and the entry has not been
clear since. -/
def LeftBehind (sess : Session) (steps : List Step) (e : Entry) : Prop :=
  ∃ before change later, steps = before ++ .reopen change :: later ∧
    (∃ finish value, (finish, .put e value) ∈ (sess.after before).world.late) ∧
    ∀ between rest, later = between ++ rest →
      ¬(sess.after (before ++ .reopen change :: between)).IsClear e

theorem LeftBehind.snoc {steps : List Step} {e : Entry} (h : sess.LeftBehind steps e) {step : Step}
    (hNow : ¬(sess.after (steps ++ [step])).IsClear e) :
    sess.LeftBehind (steps ++ [step]) e := by
  obtain ⟨before, change, later, rfl, hLate, hSince⟩ := h
  refine ⟨before, change, later ++ [step], by simp, hLate, fun between rest hSplit => ?_⟩
  rcases List.eq_nil_or_concat' rest with rfl | ⟨rest', last, rfl⟩
  · obtain rfl : between = later ++ [step] := by simpa using hSplit.symm
    simpa using hNow
  · rw [← List.append_assoc] at hSplit
    exact hSince between rest' (List.append_inj' hSplit rfl).1

section
variable {e : Entry} (h : sess.Tracks settings t)
include h

/-- A call that has the turn is under way in the session, and so is every call of an earlier
keyring. -/
theorem Tracks.exists_late {request : Request}
    (hUnderWay : t.turn = some request ∨ request ∈ t.strays) :
    ∃ finish, (finish, request) ∈ sess.world.late := by
  obtain ⟨finish, hShows⟩ := h.shows
  obtain ⟨strays, hStrays, hPerm⟩ := hShows.underWay
  rcases hUnderWay with hTurn | hStray
  · exact ⟨finish, hPerm.mem_iff.mpr (by simp [hTurn])⟩
  · rw [← hStrays] at hStray
    obtain ⟨call, hMem, rfl⟩ := List.mem_map.mp hStray
    exact ⟨call.1, hPerm.mem_iff.mpr (List.mem_append_right _ hMem)⟩

theorem Tracks.not_isClear (hThere : t.Loose e → t.vault.contains e = true)
    (hAstray : t.Astray e) : ¬sess.IsClear e := by
  rintro ⟨hEmpty, hNone⟩
  rcases hAstray with hLoose | ⟨value, hStray⟩
  · obtain ⟨_, hShows⟩ := h.shows
    have hContains := hThere hLoose
    rw [hShows.vault, hEmpty] at hContains
    contradiction
  · obtain ⟨finish, hLate⟩ := h.exists_late (.inr hStray)
    exact hNone finish value hLate

end

/-- All steps take the process further. What is astray in it is left behind in the session. -/
theorem Tracks.steps (hMemory : settings.backend = .memory) (h : sess.Tracks settings t)
    (hNone : ∀ e, ¬t.Astray e) {steps : List Step} (hUse : ∀ step ∈ steps, step.IsUse settings) :
    ∃ times t', t.Lasts settings.registry times t' ∧ (sess.after steps).Tracks settings t' ∧
      ∀ e, t'.Astray e → sess.LeftBehind steps e := by
  induction steps using List.reverseRecOn with
  | nil => exact ⟨[], t, .refl, h, fun e hAstray => absurd hAstray (hNone e)⟩
  | append_singleton steps step ih =>
      obtain ⟨times, t₁, hLasts, hTracks, hLeft⟩ := ih fun step hMem =>
        hUse step (List.mem_append_left _ hMem)
      rw [after_snoc]
      have hClear : ∀ {later t₂ e}, t₁.Lasts settings.registry later t₂ →
          ((sess.after steps).step step).2.Tracks settings t₂ → t₂.Astray e →
            ¬(sess.after (steps ++ [step])).IsClear e := by
        intro later t₂ e hLasts₂ hTracks₂ hAstray
        rw [after_snoc]
        refine hTracks₂.not_isClear (fun hLoose => ?_) hAstray
        refine (hLasts.trans hLasts₂).contains_of_loose (fun hNever => ?_) hLoose
        exact absurd (.inl hNever) (hNone e)
      rcases hTracks.step hMemory (hUse step (by simp)) with
        ⟨t₂, hLasts₂, hTracks₂⟩ | ⟨⟨change, rfl⟩, t₂, hLasts₂, hTracks₂⟩
      · refine ⟨_, t₂, hLasts.trans hLasts₂, hTracks₂, fun e hAstray => ?_⟩
        rcases hLasts₂.astray hAstray with hBefore | ⟨_, hMem, _⟩
        · exact (hLeft e hBefore).snoc (hClear hLasts₂ hTracks₂ hAstray)
        · contradiction
      · refine ⟨_, t₂, hLasts.trans hLasts₂, hTracks₂, fun e hAstray => ?_⟩
        have hNow := hClear hLasts₂ hTracks₂ hAstray
        rcases hLasts₂.astray hAstray with hBefore | ⟨t', hMem, value, hTurn⟩
        · exact (hLeft e hBefore).snoc hNow
        · obtain rfl := List.mem_singleton.mp hMem
          obtain ⟨finish, hLate⟩ := hTracks.exists_late (.inl hTurn)
          refine ⟨steps, change, [], rfl, ⟨finish, value, hLate⟩, fun between rest hSplit => ?_⟩
          rw [(List.append_eq_nil_iff.mp hSplit.symm).1]
          exact hNow

/-- The process before the registry is opened for the first time. -/
def unopened (file : Option Content) (vault : Vault) : Process :=
  { file, vault, book := ∅, events := [] }

theorem tracks_start (settings : Settings) (file : Option Content) (vault : Vault) :
    (start settings file vault).Tracks settings (.idle (unopened file vault)) := by
  have hContent : (start settings file vault).world.directory.content = file := by
    cases file with
    | none => rfl
    | some content => rfl
  refine ⟨rfl, by simp [start], ⟨.nil, by simp [start], by simp [start]⟩, ⟨0, ?_⟩,
    fun hOpen => absurd rfl hOpen⟩
  exact ⟨hContent.symm, rfl, ⟨[], rfl, .refl _⟩, fun _ => Nat.le_refl _⟩

/-- Nothing is astray after the first opening. -/
theorem reaches_opened (hMemory : settings.backend = .memory) (file : Option Content)
    (vault : Vault) :
    ∃ times t, (Ongoing.idle (unopened file vault)).Lasts settings.registry times t ∧
      (start settings file vault).openAll.2.Tracks settings t ∧ ∀ e, ¬t.Astray e := by
  have hNone : ∀ {times t}, (∀ t' ∈ times, t' = .idle (unopened file vault)) →
      (Ongoing.idle (unopened file vault)).Lasts settings.registry times t → ∀ e, ¬t.Astray e := by
    intro times t hTimes hLasts e hAstray
    rcases hLasts.astray hAstray with hNever | ⟨t', hMem, value, hTurn⟩
    · exact Ongoing.not_astray_idle _ hNever
    · obtain rfl := hTimes t' hMem
      contradiction
  rcases (tracks_start settings file vault).openAll hMemory with
    ⟨t, hLasts, hTracks⟩ | ⟨t, hLasts, hTracks⟩
  · exact ⟨_, t, hLasts, hTracks, hNone (by simp) hLasts⟩
  · exact ⟨_, t, hLasts, hTracks, hNone (by simp) hLasts⟩

/-- On an empty account file and an empty collection a session uses the registry and opens it anew.
At the end the file can be read, and an entry of the collection is a secret of a group in the file,
unless a write of it was under way when the registry was opened anew, and the entry has not been
clear since. -/
theorem nothing_else_left (hMemory : settings.backend = .memory) {file : Option Content}
    (hFile : AccountFile.load file = .ok ∅) {vault : Vault}
    (hEmpty : ∀ key, SortedMap.get? vault ⟨settings.collection, key⟩ = none) {steps : List Step}
    (hUse : ∀ step ∈ steps, step.IsUse settings) :
    let opened := (start settings file vault).openAll.2
    let sess := opened.after steps
    ∃ book, AccountFile.load sess.world.directory.content = .ok book ∧
      (sess.registry ≠ none → (sess.world.held .main).getD ∅ = book) ∧
      ∀ e, e.collection = settings.collection → sess.world.memory.vault.contains e = true →
        (∃ g key, e = Keyring.entry ⟨settings.collection, settings.timeout⟩ g key ∧
          settings.secrets.isSecretKey key = true ∧ book.contains g = true) ∨
        opened.LeftBehind steps e := by
  intro opened sess
  have hBackend : settings.registry.backend = .keyring ⟨settings.collection, settings.timeout⟩ := by
    rw [Settings.registry, Settings.toBackend, hMemory]
  have hTidy : Process.Tidy settings.registry ⟨settings.collection, settings.timeout⟩
      (unopened file vault) :=
    Process.tidy_of_empty (d := ⟨file, vault⟩) hBackend hFile hEmpty
  obtain ⟨times₀, t₀, hLasts₀, hTracks₀, hNone⟩ := reaches_opened hMemory file vault
  obtain ⟨times, t, hLasts, hTracks, hLeft⟩ := hTracks₀.steps hMemory hNone hUse
  have hAll := hLasts₀.trans hLasts
  obtain ⟨_, hShows⟩ := hTracks.shows
  obtain ⟨q, hTidyQ, hAhead⟩ := Ongoing.exists_tidy_of_lasts hAll hTidy (Ongoing.covered_idle _)
  have hLoad : AccountFile.load t.file = .ok t.book := by
    rw [← hAhead.file, ← hAhead.book]
    exact hTidyQ.sound.intact.load_file
  refine ⟨t.book, hShows.file ▸ hLoad, fun hOpen => (hTracks.meets hOpen).book.symm, ?_⟩
  intro e hCollection hThere
  rw [← hShows.vault] at hThere
  exact (Ongoing.listed_or_loose hBackend hTidy hAll hCollection hThere).imp_right fun hLoose =>
    hLeft e (.inl hLoose)

/-- The write of a password was given up, and lands after the opening that cleaned up after it. -/
example :
    let opened := (start ⟨.memory, "test", 60, .default⟩ none ∅).openAll.2
    let sess := opened.after [.service (.stall 300),
      .registry (.create "m" "p" (.ofList [("password", .string "late")])),
      .service (.stall 0), .reopen id, .sleep 350]
    sess.world.late = [] ∧ sess.world.store = some ∅ ∧
      sess.world.memory.vault.toList = [(⟨"test", "m/p/account0/param-password"⟩, "late")] := by
  decide +kernel

end Session
end Accounts.Scenario
