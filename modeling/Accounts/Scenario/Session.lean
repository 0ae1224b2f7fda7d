import Accounts.Scenario.Step

/-! Sessions: a scenario played step by step in one world. -/
namespace Accounts.Scenario

structure Session where
  world : World
  settings : Settings
  /-- The registry, if it could be opened. -/
  registry : Option Registry
  /-- The file and the secrets as last reported. -/
  reportedFile : Option Content
  reportedSecrets : List String × List (Entry × String)

namespace Settings

def toBackend (s : Settings) : Backend :=
  match s.backend with
  | .plaintext => .inline
  | _ => .keyring ⟨s.collection, s.timeout⟩

def service (s : Settings) : ServiceKind :=
  match s.backend with
  | .os => .os
  | _ => .memory

end Settings

namespace Session

/-- Run an action through a handle, and make an answer of its result. -/
def act {α : Type} (s : Session) (handle : Handle) (action : Action α) (answer : α → Answer) :
    Answer × Session :=
  let host := World.host handle s.settings.service s.settings.timeout
  match (action.run).run host s.world with
  | (.ok result, world) => (answer result, { s with world })
  | (.error e, world) => (.failed e, { s with world })

/-- Run an action on the group that a text names. -/
def actOn {α : Type} (s : Session) (handle : Handle) (group : String)
    (action : GroupName → Action α) (answer : α → Answer) : Answer × Session :=
  s.act handle (do action (← .ofExcept (GroupName.parse group))) answer

/-- Open the store and the registry. Each opening has a keyring of its own, whose turn is free. -/
def openAll (s : Session) : Answer × Session :=
  let s := { s with
    registry := none
    world := { s.world with store := none, turnFree := 0, events := .empty } }
  match s.world.directory.load with
  | .error e => (.failed e, s)
  | .ok book =>
    let registry : Registry := ⟨s.settings.toBackend, s.settings.secrets⟩
    let s := { s with world := s.world.hold .main (some book) }
    match s.act .main (do registry.openUp; Registry.list) .opened with
    | (.opened accounts, s) => (.opened accounts, { s with registry := some registry })
    | (answer, s) => (answer, s)

/-- An operation of the registry. It must be open, and only then is the group looked at. -/
def registryStep (s : Session) (step : RegistryStep) : Answer × Session :=
  match s.registry with
  | none => (.notOpen, s)
  | some r =>
    match step with
    | .create manager protocol params => s.act .main (r.create manager protocol params) .group
    | .set group key value => s.actOn .main group (r.setProperty · key value) fun _ => .done
    | .setCounting group key count =>
      s.act .main
        ((List.range count).forM fun n => do
          r.setProperty (← .ofExcept (GroupName.parse group)) key (.uint (.ofNat n)))
        fun _ => .done
    | .setEnabled group enabled => s.actOn .main group (r.setEnabled · enabled) fun _ => .done
    | .get group key => s.actOn .main group (r.read · key) .text
    | .getParam group name kind => s.actOn .main group (r.getParam · name kind) .value
    | .getSecret group key => s.actOn .main group (r.getSecret · key) .text
    | .remove group => s.actOn .main group r.remove fun _ => .done
    | .list => s.act .main Registry.list .groups
    | .account group => s.actOn .main group r.account .account
    | .check => s.act .main r.check fun _ => .done
    | .info => s.act .main Store.book (.registry r.backend.name r.secrets.keys)
    | .events => (.events s.world.events, { s with world := { s.world with events := .empty } })

/-- An operation of the store through a handle. The handle must be open, and only then is the group
looked at. -/
def storeStep (s : Session) (handle : Handle) (step : StoreStep) : Answer × Session :=
  match s.world.held handle with
  | none => (.notOpen, s)
  | some _ =>
    match step with
    | .list => s.act handle Store.book fun b => .groups b.liveGroups
    | .pending => s.act handle Store.book fun b => .groups b.pendingGroups
    | .snapshot => s.act handle Store.book .book
    | .reload =>
      match s.world.reload handle with
      | (.ok (), world) => (.done, { s with world })
      | (.error e, world) => (.failed e, { s with world })
    | .get group key => s.actOn handle group (Store.get · key) .text
    | .set group key value => s.actOn handle group (Store.set · key value) fun _ => .done
    | .setMany group entries => s.actOn handle group (Store.setMany · entries) fun _ => .done
    | .delete group key => s.actOn handle group (Store.delete · key) fun _ => .done
    | .deleteGroup group => s.actOn handle group Store.deleteGroup .flag
    | .state group =>
      s.actOn handle group (fun g => do
        let b ← Store.book
        return (b.isLive g, b.contains g, b.isPending g)) fun (live, there, pending) =>
          .state live there pending
    | .entries group => s.actOn handle group Store.entries .attributes
    | .mark group => s.actOn handle group Store.markPending fun _ => .done
    | .clear group => s.actOn handle group Store.clearPending fun _ => .done

/-- An operation of the backend itself, which is there as long as the store is open. -/
def backendStep (s : Session) (step : BackendStep) : Answer × Session :=
  match s.world.store with
  | none => (.notOpen, s)
  | some _ =>
    let backend := s.settings.toBackend
    match step with
    | .info => (.backend backend.name backend.description backend.isInline, s)
    | .get group key => s.actOn .main group (backend.get · key) .text
    | .set group key value => s.actOn .main group (backend.set · key value) fun _ => .done
    | .delete group key => s.actOn .main group (backend.delete · key) fun _ => .done

def serviceStep (s : Session) (step : ServiceStep) : Answer × Session :=
  let w := s.world
  let memory := fun (m : MemoryService) => { s with world := { w with memory := m } }
  match step with
  | .call request =>
    let (answer, world) := w.callDirectly s.settings.service request
    let s := { s with world }
    match answer, request with
    | .error e, _ => (.refused e, s)
    | .ok value, .get _ => (.text value, s)
    | .ok _, _ => (.done, s)
  | .contains entry => (.flag (w.memory.vault.contains entry), s)
  | .available on => (.done, memory { w.memory with offline := !on })
  | .stall time => (.done, memory { w.memory with stall := time })
  | .script items => (.done, memory { w.memory with script := items })
  | .fault fault => (.done, { s with world := { w with os := { w.os with fault } } })

/-- Change the account directory from outside. -/
def onDirectory (s : Session) (change : Directory → Directory) : Session :=
  { s with world := { s.world with directory := change s.world.directory } }

/-- Carry out a step. -/
def step (s : Session) : Step → Answer × Session
  | .registry step => s.registryStep step
  | .store handle step => s.storeStep handle step
  | .backend step => s.backendStep step
  | .service step => s.serviceStep step
  | .reopen change => { s with settings := change s.settings }.openAll
  | .openOther =>
    match s.world.directory.load with
    | .ok book => (.done, { s with world := s.world.hold .other (some book) })
    | .error e => (.failed e, { s with world := s.world.hold .other none })
  | .writeFile content => (.done, s.onDirectory fun d => d.write content)
  | .removeFile => (.done, s.onDirectory Directory.remove)
  | .listDirectory => (.names s.world.directory.names, s)
  | .fileMode => (.mode s.world.directory.mode?, s)
  | .sleep time => (.done, { s with world := s.world.advance (s.world.clock + time) })
  | .block how => (.done, s.onDirectory fun d => d.block how)
  | .unblock => (.done, s.onDirectory fun d => { d with blocked := none })

/-- The secrets of both services: the values of the one in memory in order, and the entries of the
other. -/
def secrets (s : Session) : List String × List (Entry × String) :=
  ((s.world.memory.vault.toList.map Prod.snd).mergeSort fun a b => (compare a b).isLE,
    s.world.os.vault.toList)

/-- What there is to report after a step. The file is not looked at while it is out of reach. -/
def report (s : Session) (answer : Answer) : Report × Session :=
  let content := s.world.directory.content
  let file :=
    if s.world.directory.blocked.isNone ∧ content ≠ s.reportedFile then some content else none
  let secrets := if s.secrets ≠ s.reportedSecrets then some s.secrets else none
  (⟨answer, file, secrets⟩,
    { s with
      reportedFile := file.getD s.reportedFile
      reportedSecrets := secrets.getD s.reportedSecrets })

/-- Carry out steps in turn. -/
def steps (s : Session) : List Step → List Report
  | [] => []
  | step :: rest =>
    let (answer, s) := s.step step
    let (report, s) := s.report answer
    report :: s.steps rest

/-- The session before its opening. -/
def start (settings : Settings) (file : Option Content) (vault : Vault) : Session where
  world :=
    { directory := ⟨file.map fun content => (content, Directory.sharedMode), none⟩
      memory := ⟨vault, false, 0, []⟩
      os := ⟨vault, none⟩
      clock := 0
      turnFree := 0
      late := []
      store := none
      other := none
      events := .empty }
  settings
  registry := none
  reportedFile := none
  reportedSecrets := ([], [])

/-- Play a scenario: the opening, then its steps. -/
def play (settings : Settings) (file : Option Content) (vault : Vault) (script : List Step) :
    List Report :=
  let (answer, s) := (start settings file vault).openAll
  let (report, s) := s.report answer
  report :: s.steps script

end Session
end Accounts.Scenario
