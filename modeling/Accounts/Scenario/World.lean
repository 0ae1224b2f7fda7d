import Accounts.Registry.Open
import Accounts.Registry.Check
import Accounts.Scenario.Service
import Accounts.Scenario.Directory

/-! A world for programs to run in, with a clock. Calls of a keyring take turns: a call waits for
the one before it, and gives up at its limit. A call given up while it waits never runs. One given
up while it runs goes on, keeps its turn, and takes effect when it is finished. -/
namespace Accounts.Scenario

/-- Which secret service stands behind a backend. -/
inductive ServiceKind where
  | memory
  | os
  deriving DecidableEq

/-- Two handles on one account file, each with a book of its own in memory. -/
inductive Handle where
  | main
  | other
  deriving DecidableEq

structure World where
  directory : Directory
  memory : MemoryService
  os : OsService
  /-- Milliseconds since the start. -/
  clock : Nat
  /-- When the turn of the keyring in use is free. -/
  turnFree : Nat
  /-- Calls given up while they ran, with the times at which they finish, in that order. -/
  late : List (Nat × Request)
  /-- What the handles hold, once they are open. -/
  store : Option Book
  other : Option Book
  events : EventQueue

namespace World

def held (w : World) : Handle → Option Book
  | .main => w.store
  | .other => w.other

def hold (w : World) : Handle → Option Book → World
  | .main, book => { w with store := book }
  | .other, book => { w with other := book }

/-- Let a late call take effect. Nobody sees its answer. -/
def land (w : World) (request : Request) : World :=
  { w with memory := (w.memory.serve request).2 }

/-- Put a call among the late ones, behind those that finish no later. -/
def enqueue (finish : Nat) (request : Request) : List (Nat × Request) → List (Nat × Request)
  | [] => [(finish, request)]
  | e :: rest =>
    if e.1 ≤ finish then e :: enqueue finish request rest else (finish, request) :: e :: rest

/-- Set the clock to a later time. What finishes until then takes effect. -/
def advance (w : World) (time : Nat) : World :=
  let due := w.late.takeWhile fun e => e.1 ≤ time
  let w := { w with late := w.late.drop due.length, clock := max w.clock time }
  due.foldl (fun w e => w.land e.2) w

/-- A call to the service in memory that was let ahead: it takes as long as the service stalls, and
its caller gives up at the deadline. -/
def proceed (w : World) (deadline : Nat) (request : Request) :
    Except CallFailure String × World :=
  let finish := w.clock + w.memory.stall
  if deadline < finish then
    let w := { w with turnFree := finish, late := enqueue finish request w.late }
    (.error .timedOut, w.advance deadline)
  else
    let w := { w with turnFree := finish }.advance finish
    let (answer, memory) := w.memory.serve request
    (answer.mapError .refused, { w with memory })

/-- A call of a keyring to the service in memory: wait for the turn, then do as the script says. -/
def callMemory (w : World) (limit : Nat) (request : Request) : Except CallFailure String × World :=
  let start := max w.clock w.turnFree
  let deadline := w.clock + limit
  if deadline < start then (.error .timedOut, w.advance deadline)
  else
    let w := w.advance start
    let scripted := (w.memory.script.head?).getD .proceed
    let w := { w with memory := { w.memory with script := w.memory.script.drop 1 } }
    match scripted, request with
    | .noEntry, _ => (.error (.refused .noEntry), w)
    | .unavailable, _ => (.error (.refused (.unavailable "scripted")), w)
    | .crash, _ => (.error .crashed, w)
    | .value text, .get _ => (.ok text, w)
    | .block, _ => { w with directory := w.directory.block .directory }.proceed deadline request
    | _, _ => w.proceed deadline request

/-- A call of a keyring. The keyring of the operating system answers at once. -/
def call (w : World) (kind : ServiceKind) (limit : Nat) (request : Request) :
    Except CallFailure String × World :=
  match kind with
  | .memory => w.callMemory limit request
  | .os =>
    let (answer, os) := w.os.serve request
    (answer.mapError .refused, { w with os })

/-- A call from outside, which waits for no turn and has no limit. -/
def callDirectly (w : World) (kind : ServiceKind) (request : Request) :
    Except ServiceError String × World :=
  match kind with
  | .memory =>
    let w := w.advance (w.clock + w.memory.stall)
    let (answer, memory) := w.memory.serve request
    (answer, { w with memory })
  | .os =>
    let (answer, os) := w.os.serve request
    (answer, { w with os })

/-- Save a book through a handle. -/
def save (w : World) (handle : Handle) (book : Book) : Except String Unit × World :=
  match w.directory.save book with
  | (.ok (), directory) => (.ok (), { w with directory }.hold handle (some book))
  | (.error reason, directory) => (.error reason, { w with directory })

/-- Answers without a value. -/
private def acknowledge (r : Except CallFailure String × World) : Except CallFailure Unit × World :=
  (r.1.map fun _ => (), r.2)

/-- The world as a host, for programs that use one handle and one service. -/
def host (handle : Handle) (kind : ServiceKind) (limit : Nat) : Host World where
  book w := (w.held handle).getD ∅
  save book w := w.save handle book
  put e value w := acknowledge (w.call kind limit (.put e value))
  get e w := w.call kind limit (.get e)
  delete e w := acknowledge (w.call kind limit (.delete e))
  emit event w := { w with events := w.events.push event }

/-- Read the account file anew. What was held stays if that fails. -/
def reload (w : World) (handle : Handle) : Except Error Unit × World :=
  match w.directory.load with
  | .ok book => (.ok (), w.hold handle (some book))
  | .error e => (.error e, w)

end World
end Accounts.Scenario
