import Accounts.AccountFile
import Accounts.Proofs.Program
import Accounts.Secret.Backend

/-! Processes that work on an account file and a secret service, either of which may fail. A save
replaces the file or fails and leaves it alone. A call to the service may fail without effect, and
it may take effect although its caller hears of a failure. -/
namespace Accounts

/-- What outlasts a process. -/
structure Storage where
  file : Option Content
  vault : Vault
  deriving DecidableEq

/-- A process that holds a book, with the notices that it gave. -/
structure Process extends Storage where
  book : Book
  events : List Event
  deriving DecidableEq

/-- Storage that was never used. -/
def Storage.unused : Storage := ⟨none, ∅⟩

/-- Start a process by reading the account file. -/
def Storage.start (d : Storage) : Except Error Process :=
  (AccountFile.load d.file).map fun book => { d with book, events := [] }

/-- What becomes of a call to the service. -/
inductive CallFate where
  | works
  /-- The call fails and has no effect. -/
  | fails (cause : CallFailure)
  /-- The call takes effect, and all the same its caller is told that it failed. -/
  | lands (cause : CallFailure)
  deriving DecidableEq, Repr

/-- Nobody is told that there is no entry to remove while there is one. -/
def CallFate.forRequest : Request → CallFate → CallFate
  | .delete _, .fails (.refused .noEntry) => .works
  | _, fate => fate

theorem CallFate.forRequest_fails {request : Request} {cause : CallFailure}
    (h : cause ≠ .refused .noEntry) :
    CallFate.forRequest request (.fails cause) = .fails cause := by
  unfold CallFate.forRequest
  split
  case h_1 hEq => exact absurd (CallFate.fails.inj hEq) h
  case h_2 => rfl

/-- What is still to go wrong. Saves and calls for which nothing is listed work. -/
structure Faults where
  /-- For each of the coming saves, why it fails if it does. -/
  saves : List (Option String)
  calls : List CallFate
  deriving DecidableEq

def Faults.none : Faults := ⟨[], []⟩

/-- A removal leaves no entry, whether there was one or not. -/
theorem Vault.serve_delete (v : Vault) (e : Entry) :
    v.serve (.delete e) =
      (if v.contains e then .ok "" else .error .noEntry, SortedMap.erase v e) := by
  simp only [serve, delete]
  cases hThere : v.contains e with
  | true => rfl
  | false =>
      rw [SortedMap.erase_eq_self (by simpa [SortedMap.contains] using hThere)]
      rfl

namespace Process

/-- The process after a save. -/
def save (p : Process) (b : Book) : Process :=
  { p with file := some (AccountFile.content b), book := b }

/-- The process with other secrets in the service. -/
def withVault (p : Process) (vault : Vault) : Process := { p with vault }

/-- The process after one more notice. -/
def notify (p : Process) (event : Event) : Process := { p with events := p.events ++ [event] }

@[simp] theorem save_book (p : Process) (b : Book) : (p.save b).book = b := rfl

@[simp] theorem save_vault (p : Process) (b : Book) : (p.save b).vault = p.vault := rfl

@[simp] theorem withVault_book (p : Process) (vault : Vault) : (p.withVault vault).book = p.book :=
  rfl

@[simp] theorem withVault_vault (p : Process) (vault : Vault) :
    (p.withVault vault).vault = vault := rfl

@[simp] theorem notify_book (p : Process) (event : Event) : (p.notify event).book = p.book := rfl

/-- A call to the service. -/
def call (s : Process × Faults) (request : Request) : Except CallFailure String × Process × Faults :=
  let (answer, vault) := s.1.vault.serve request
  let faults := { s.2 with calls := s.2.calls.tail }
  match CallFate.forRequest request (s.2.calls.head?.getD .works) with
  | .works => (answer.mapError .refused, s.1.withVault vault, faults)
  | .fails cause => (.error cause, s.1, faults)
  | .lands cause => (.error cause, s.1.withVault vault, faults)

/-- A process as a host. -/
def host : Host (Process × Faults) where
  book s := s.1.book
  save b s :=
    let faults := { s.2 with saves := s.2.saves.tail }
    match s.2.saves with
    | some reason :: _ => (.error reason, s.1, faults)
    | _ => (.ok (), s.1.save b, faults)
  put e value s := ((call s (.put e value)).1.map fun _ => (), (call s (.put e value)).2)
  get e s := call s (.get e)
  delete e s := ((call s (.delete e)).1.map fun _ => (), (call s (.delete e)).2)
  emit event s := (s.1.notify event, s.2)

/-! ## What one effect may do -/

theorem host_save (b : Book) (s : Process × Faults) :
    ((host.save b s).1 = .ok () ∧ (host.save b s).2.1 = s.1.save b) ∨
      ((∃ reason, (host.save b s).1 = .error reason) ∧ (host.save b s).2.1 = s.1) := by
  obtain ⟨p, saves, calls⟩ := s
  cases saves with
  | nil => exact Or.inl ⟨rfl, rfl⟩
  | cons fate rest =>
      cases fate with
      | none => exact Or.inl ⟨rfl, rfl⟩
      | some reason => exact Or.inr ⟨⟨reason, rfl⟩, rfl⟩

theorem host_put (e : Entry) (value : String) (s : Process × Faults) :
    ((host.put e value s).1 = .ok () ∧
      (host.put e value s).2.1 = s.1.withVault (s.1.vault.put e value)) ∨
    ((∃ cause, (host.put e value s).1 = .error cause) ∧
      ((host.put e value s).2.1 = s.1 ∨
        (host.put e value s).2.1 = s.1.withVault (s.1.vault.put e value))) := by
  simp only [host, call, Vault.serve, CallFate.forRequest]
  cases s.2.calls.head?.getD .works with
  | works => exact Or.inl ⟨rfl, rfl⟩
  | fails cause => exact Or.inr ⟨⟨cause, rfl⟩, Or.inl rfl⟩
  | lands cause => exact Or.inr ⟨⟨cause, rfl⟩, Or.inr rfl⟩

theorem host_get (e : Entry) (s : Process × Faults) : (host.get e s).2.1 = s.1 := by
  simp only [host, call, Vault.serve, CallFate.forRequest]
  cases s.2.calls.head?.getD .works with
  | works => rfl
  | fails cause => rfl
  | lands cause => rfl

/-- A removal is over when it is answered with success, or with the news that nothing is there. -/
theorem host_delete (e : Entry) (s : Process × Faults) :
    (((host.delete e s).1 = .ok () ∨ (host.delete e s).1 = .error (.refused .noEntry)) ∧
      (host.delete e s).2.1 = s.1.withVault (s.1.vault.erase e)) ∨
    ((∃ cause, cause ≠ .refused .noEntry ∧ (host.delete e s).1 = .error cause) ∧
      ((host.delete e s).2.1 = s.1 ∨
        (host.delete e s).2.1 = s.1.withVault (s.1.vault.erase e))) := by
  have hAnswer : ∀ b : Bool, ((if b then .ok "" else .error .noEntry : Except ServiceError String)
      |>.mapError CallFailure.refused |>.map fun _ => ()) = .ok () ∨
      ((if b then .ok "" else .error .noEntry : Except ServiceError String)
      |>.mapError CallFailure.refused |>.map fun _ => ()) = .error (.refused .noEntry) := by
    intro b
    cases b with
    | true => exact Or.inl rfl
    | false => exact Or.inr rfl
  simp only [host, call, Vault.serve_delete]
  cases s.2.calls.head?.getD .works with
  | works => exact Or.inl ⟨hAnswer _, rfl⟩
  | fails cause =>
      by_cases hCause : cause = .refused .noEntry
      · subst hCause
        exact Or.inl ⟨hAnswer _, rfl⟩
      · rw [CallFate.forRequest_fails hCause]
        exact Or.inr ⟨⟨cause, hCause, rfl⟩, Or.inl rfl⟩
  | lands cause =>
      by_cases hCause : cause = .refused .noEntry
      · subst hCause
        exact Or.inl ⟨Or.inr rfl, rfl⟩
      · exact Or.inr ⟨⟨cause, hCause, rfl⟩, Or.inr rfl⟩

end Process
end Accounts
