import Accounts.Proofs.Registry.Migration

/-! Runs of a registry with openings in between. Opening changes nothing that shows, also when it
moves the secrets of the account file to a service, so a whole run answers what the ledger tells. -/
namespace Accounts
namespace Registry
open Process Accounts.Action

variable {r : Registry} {p : Process} {m : Book}

/-- Start a process and open the registry, with nothing in the way. -/
def launch (r : Registry) (d : Storage) : Except Error Process :=
  match d.start with
  | .error e => .error e
  | .ok p => match r.openUp.calm p with
    | (.error e, _) => .error e
    | (.ok (), q) => .ok q

/-- What the registry answers to steps in turn, with nothing in the way. Openings start a new
process on what the last one leaves, and end the run if they fail. -/
def answers : Registry → Process → List Step → List (Except Error Reply)
  | _, _, [] => []
  | r, p, .call op :: rest =>
    ((op.action r).calm p).1 :: Registry.answers r ((op.action r).calm p).2 rest
  | r, p, .reopen ring? :: rest =>
    match (r.moveTo ring?).launch p.toStorage with
    | .error e => [.error e]
    | .ok q => .ok .done :: Registry.answers (r.moveTo ring?) q rest

/-- What a registry answers to steps if it begins on unused storage. -/
def trial (r : Registry) (steps : List Step) : Except Error (List (Except Error Reply)) :=
  (r.launch Storage.unused).map fun p => r.answers p steps

theorem moveTo_secrets (r : Registry) (ring? : Option Keyring) :
    (r.moveTo ring?).secrets = r.secrets := by
  unfold moveTo
  split
  · rfl
  · split
    · rfl
    · rfl

theorem inline_of_moveTo {ring? : Option Keyring} (h : (r.moveTo ring?).backend = .inline) :
    r.backend = .inline := by
  unfold moveTo at h
  split at h
  · exact h
  · split at h
    · contradiction
    · exact h

/-- A registry that is opened anew shows what it showed before, and so does one that moves its
secrets. -/
theorem shows_launch (h : p.Shows r m) (hProper : Ledger.Proper m) (hIntact : p.Intact r.Allows)
    (ring? : Option Keyring) :
    ∃ q, (r.moveTo ring?).launch p.toStorage = .ok q ∧ q.Shows (r.moveTo ring?) m ∧
      q.Intact (r.moveTo ring?).Allows := by
  have hStart := start_of_load hIntact.load_file
  have hCarries := h.carries_moveTo hIntact.allKeys ring?
  have hWritable := hIntact.mono fun _ hKey => hKey.1
  obtain ⟨q, hOpen, hShows, hAllowed⟩ := shows_openUp
    (p := { p.toStorage with book := p.book, events := [] })
    ⟨hCarries.contains, hCarries.found, hCarries.book⟩ hProper
    (fun hInline => h.vault (inline_of_moveTo hInline)) ⟨hWritable.load_file, hWritable.allKeys⟩
  refine ⟨q, ?_, hShows, hAllowed⟩
  rw [launch, hStart]
  dsimp only
  rw [hOpen]

/-! ## Whole runs -/

/-- A run answers what the ledger tells, step by step. -/
theorem answers_follow_ledger (hSecrets : r.secrets.Storable) (h : p.Shows r m)
    (hProper : Ledger.Proper m) (hIntact : p.Intact r.Allows) {steps : List Step}
    (hSteps : ∀ step ∈ steps, step.isRecorded r.secrets = true) :
    List.Forall₂ (Ledger.Tells r.secrets) (Ledger.answers r.secrets m steps)
      (r.answers p steps) := by
  induction steps generalizing r p m with
  | nil => exact .nil
  | cons step rest ih =>
      have hRest : ∀ step ∈ rest, step.isRecorded r.secrets = true := by
        intro step' hStep
        exact hSteps step' (List.mem_cons_of_mem step hStep)
      cases step with
      | call op =>
          have hObeys := obeys_apply hSecrets h hProper (hSteps (.call op) List.mem_cons_self)
          have hLeft := calm_of_stable (respects_action (P := r.Allows) (fun _ hKey => hKey.1)
            (fun _ => allows_of_writes) op) hIntact
          rw [answers, Ledger.answers]
          cases hApply : Ledger.apply r.secrets m op with
          | ok outcome =>
              rw [hApply] at hObeys
              obtain ⟨reply, q, hRun, hTells, hShows, hProper'⟩ := hObeys
              rw [hRun] at hLeft ⊢
              exact .cons hTells (ih hSecrets hShows hProper' hLeft hRest)
          | error e =>
              rw [hApply] at hObeys
              rw [show (op.action r).calm p = (.error e, p) from hObeys]
              exact .cons (.error e) (ih hSecrets h hProper hIntact hRest)
      | reopen ring? =>
          obtain ⟨q, hLaunch, hShows, hAllowed⟩ := shows_launch h hProper hIntact ring?
          rw [answers, Ledger.answers, hLaunch]
          rw [← moveTo_secrets r ring?] at hSecrets hRest ⊢
          exact .cons .done (ih hSecrets hShows hProper hAllowed hRest)

/-- A process that has just started on unused storage shows the empty ledger. -/
theorem shows_unused (r : Registry) :
    Process.Shows r ∅ { Storage.unused with book := ∅, events := [] } := by
  refine ⟨fun _ => rfl, fun g key => ?_, fun _ => rfl⟩
  unfold value?
  cases r.slot g key with
  | none => rfl
  | some e => rfl

theorem exists_trial (hSecrets : r.secrets.Storable) {steps : List Step}
    (hSteps : ∀ step ∈ steps, step.isRecorded r.secrets = true) :
    ∃ replies, r.trial steps = .ok replies ∧
      List.Forall₂ (Ledger.Tells r.secrets) (Ledger.answers r.secrets ∅ steps) replies := by
  have hShows := shows_unused r
  obtain ⟨q, hLaunch, hShown, hAllowed⟩ :=
    shows_launch hShows Ledger.proper_empty ⟨rfl, Book.allKeys_empty⟩ none
  have hStart : r.launch Storage.unused = .ok q := hLaunch
  refine ⟨r.answers q steps, ?_, answers_follow_ledger hSecrets hShown Ledger.proper_empty hAllowed
    hSteps⟩
  rw [trial, hStart]
  rfl

/-- Whatever the backend, a registry that begins on unused storage answers every run as the ledger
tells, across any number of openings and a move of the secrets to a service. The ledger leaves it no
choice of answers, and what it stores for a value spells that value. -/
theorem trial_follows_ledger (r : Registry) (hSecrets : r.secrets.Storable) (steps : List Step)
    (hSteps : ∀ step ∈ steps, step.isRecorded r.secrets = true) :
    (∃ replies, r.trial steps = .ok replies ∧
      List.Forall₂ (Ledger.Tells r.secrets) (Ledger.answers r.secrets ∅ steps) replies) ∧
    (∀ backend, { r with backend }.trial steps = r.trial steps) ∧
    (∀ told reply reply', Ledger.Tells r.secrets told reply → Ledger.Tells r.secrets told reply' →
      reply = reply') ∧
    ∀ v : Value, v.Spells v.encode := by
  have hTrial := exists_trial hSecrets hSteps
  refine ⟨hTrial, fun backend => ?_, fun _ _ _ => Ledger.Tells.unique, Value.spells_encode⟩
  obtain ⟨replies, hRun, hTells⟩ := hTrial
  obtain ⟨replies', hRun', hTells'⟩ := exists_trial (r := { r with backend }) hSecrets hSteps
  have hUnique : Relator.RightUnique (Ledger.Tells r.secrets) := fun _ _ _ => Ledger.Tells.unique
  rw [hRun, hRun', hUnique.forall₂ hTells' hTells]

/-- The group of the account that the run below creates. -/
def workGroup : GroupName :=
  ⟨"fakecm", "fakeprotocol", "me_40site0", by decide, by decide, by decide⟩

/-- An account is created with its password in the account file. The password moves to a service,
and all of it is still there afterwards, until the account is removed. The port is no boolean. -/
def movedRun : List Step :=
  let creation := Operation.create "fakecm" "fakeprotocol"
    (.ofList [("account", .string "me@site"), ("hosts", .list ["a;b", ""]),
      ("password", .string "secrecy"), ("port", .uint 5222)])
  [.call creation,
    .call (.setProperty workGroup "DisplayName" (.string "Work")),
    .reopen (some ⟨"keeper", Keyring.defaultTimeout⟩),
    .call (.getSecret workGroup "param-password"),
    .reopen none,
    .call (.getParam workGroup "port" .uint),
    .call (.getParam workGroup "hosts" .list),
    .call (.getParam workGroup "port" .bool),
    .call (.account workGroup),
    .call (.read workGroup "DisplayName"),
    .call creation,
    .call (.remove workGroup),
    .call (.getSecret workGroup "param-password"),
    .call .list]

theorem trial_movedRun :
    Ledger.answers .default ∅ movedRun =
      [.ok (.group workGroup), .ok .done, .ok .done, .ok (.text "secrecy"), .ok .done,
        .ok (.typed .uint "5222"), .ok (.typed .list "a\\;b;;"), .ok (.typed .bool "5222"),
        .ok (.attributes workGroup (.ofList [("DisplayName", "Work"),
          ("manager", "fakecm"), ("param-account", "me@site"), ("param-hosts", "a\\;b;;"),
          ("param-password", "secrecy"), ("param-port", "5222"), ("protocol", "fakeprotocol")])),
        .ok (.text "Work"), .error (.duplicateAccount workGroup.sectionName), .ok .done,
        .error (.unknownGroup workGroup.sectionName), .ok (.groups [])] ∧
    (∃ replies, Registry.trial ⟨.inline, .default⟩ movedRun = .ok replies ∧
      List.Forall₂ (Ledger.Tells .default) (Ledger.answers .default ∅ movedRun) replies ∧
      replies =
        [.ok (.group workGroup), .ok .done, .ok .done, .ok (.text "secrecy"), .ok .done,
          .ok (.value (.uint 5222)), .ok (.value (.list ["a;b", ""])),
          .error (.invalidValue "boolean" "5222"),
          .ok (.account ⟨workGroup, "fakecm", "fakeprotocol",
            .ofList [("account", "me@site"), ("hosts", "a\\;b;;"), ("port", "5222")],
            .ofList [("DisplayName", "Work")]⟩),
          .ok (.text "Work"), .error (.duplicateAccount workGroup.sectionName), .ok .done,
          .error (.unknownGroup workGroup.sectionName), .ok (.groups [])]) ∧
    ∀ backend, Registry.trial ⟨backend, .default⟩ movedRun =
      Registry.trial ⟨.inline, .default⟩ movedRun := by
  have hSecrets : SecretNames.default.Storable := by decide
  have hSteps : ∀ step ∈ movedRun, step.isRecorded .default = true := by decide
  obtain ⟨⟨replies, hRun, hTells⟩, hBackends, -, -⟩ :=
    trial_follows_ledger ⟨.inline, .default⟩ hSecrets movedRun hSteps
  refine ⟨?_, ⟨replies, hRun, hTells, Except.ok.inj (hRun.symm.trans ?_)⟩, hBackends⟩
  · decide +kernel
  · decide +kernel

end Registry
end Accounts
