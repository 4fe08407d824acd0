import Excise.Coordinator.Records
import Excise.Store.Facts
import Mathlib.Logic.Function.Basic

/-!
# The scanner's scheduler

The directory journal of `task_queue.rs`, the scheduling actor of `scheduler.rs` with its loop
cut at the places where other threads can be seen, and the workers of `scanner.rs` as far as
they talk to it. A step of the machine is one action of one thread; the choices of the
channels and the failures of the spill file are part of the action.
-/

namespace Excise
set_option autoImplicit false

/-! ## Tasks -/

structure DirectoryTask where
  path : NativePath
  identity : Option NativeIdentity

def stripPrefix (root path : NativePath) : Option NativePath :=
  if root.isPrefixOf path then some (path.drop root.length) else none

/-- Only normal components remain below a root: `components()` yields `.` in front alone. -/
def RelativePath.fromPath : NativePath → Option RelativePath
  | [] => some ⟨[]⟩
  | c :: cs =>
    if h : ValidComponent c then (fromPath cs).map fun rest => ⟨⟨c, h⟩ :: rest.components⟩ else none

/-- `root.join(path.to_path_buf())`. -/
def RelativePath.below (root : NativePath) (path : RelativePath) : NativePath :=
  root ++ path.components.map Component.bytes

inductive SchedulerError where
  | rootNotAdmitted
  | escapedRoot
  | invalidPath
  | staleEra
  | notQueued (error : String)
  | journalUnread (error : String)
  | missingTask
  | busyWorker
  | assignmentDisconnected
  | invalidWorker
  | noActiveLease
  | forgedLease
  | rejectedCompletion
  | resultWithoutLease
  | unleasedResult
  | staleResult
  | ownerStopped
  | workersDisconnected
  | workerDisconnected
  deriving DecidableEq

def SchedulerError.message : SchedulerError → String
  | .rootNotAdmitted => "scanner coordinator could not admit its root task"
  | .escapedRoot => "scanner task escaped its configured root"
  | .invalidPath => "scanner task has an invalid root-relative path"
  | .staleEra => "scanner task does not belong to the active session generation"
  | .notQueued error => "could not queue scanner directory: " ++ error
  | .journalUnread error => "could not read scanner task journal: " ++ error
  | .missingTask => "session coordinator selected a missing scanner task"
  | .busyWorker => "scanner coordinator attempted to assign an already-busy worker"
  | .assignmentDisconnected => "scanner worker assignment channel disconnected"
  | .invalidWorker => "scanner worker completed with an invalid worker identifier"
  | .noActiveLease => "scanner worker completed without an active lease"
  | .forgedLease => "scanner worker returned a stale or forged task lease"
  | .rejectedCompletion => "scanner coordinator rejected an active task completion"
  | .resultWithoutLease => "scanner worker emitted a result without an active lease"
  | .unleasedResult => "scanner worker emitted an unleased sealed result"
  | .staleResult => "scanner worker emitted a sealed result for a stale lease"
  | .ownerStopped => "owner loop stopped receiving scanner results"
  | .workersDisconnected => "scanner workers disconnected before completing their leases"
  | .workerDisconnected => "scanner worker disconnected before completing its lease"

def taskKey (session : ScanSessionId) (generation : ScanGeneration) (root path : NativePath) :
    Except SchedulerError WorkKey :=
  match stripPrefix root path with
  | none => .error .escapedRoot
  | some relative =>
    match RelativePath.fromPath relative with
    | none => .error .invalidPath
    | some relative => .ok ⟨session, generation, .EnumerateDirectory, relative⟩

/-! ## The journal -/

/-- `pending` counts resident, spilled and leased tasks. -/
structure TaskQueue where
  tasks : List DirectoryTask
  spill : List DirectoryTask
  pending : Nat
  capacity : Nat
  root : NativePath

namespace TaskQueue

def new (root : NativePath) (capacity : Nat) : TaskQueue where
  tasks := [⟨root, none⟩]
  spill := []
  pending := 1
  capacity := capacity
  root := root

def validateTaskPath (root path : NativePath) : Except String Unit :=
  match stripPrefix root path with
  | none => .error "scanner task path is outside the scan root"
  | some relative =>
    match RelativePath.fromPath relative with
    | none => .error "scanner task path is not a safe relative path"
    | some _ => .ok ()

/-- The spill file may refuse to be written: `io`. -/
def schedule (q : TaskQueue) (task : DirectoryTask) (io : Option String) :
    Except String TaskQueue := do
  validateTaskPath q.root task.path
  if q.pending = satMax 64 then .error "scanner task count overflow"
  else if q.tasks.length < q.capacity then
    .ok { q with tasks := q.tasks ++ [task], pending := q.pending + 1 }
  else
    match io with
    | some error => .error error
    | none => .ok { q with spill := q.spill ++ [task], pending := q.pending + 1 }

/-- `stopped` is the disjunction of the three flags. -/
def takePath (q : TaskQueue) (path : NativePath) (stopped : Bool) (io : Option String) :
    Except String (TaskQueue × Option DirectoryTask) :=
  if stopped || q.pending = 0 then .ok (q, none)
  else
    match q.tasks.find? (·.path = path) with
    | some task => do
      validateTaskPath q.root task.path
      .ok ({ q with tasks := q.tasks.eraseP (·.path = path) }, some task)
    | none =>
      match io with
      | some error => .error error
      | none =>
        match q.spill.find? (·.path = path) with
        | some task => do
          validateTaskPath q.root task.path
          .ok ({ q with spill := q.spill.eraseP (·.path = path) }, some task)
        | none => .ok (q, none)

def complete (q : TaskQueue) : TaskQueue := { q with pending := q.pending - 1 }

def isIdle (q : TaskQueue) : Bool := q.pending = 0

end TaskQueue

/-! ## Workers and the actor -/

structure LeasedDirectoryTask where
  task : DirectoryTask
  lease : WorkLease

inductive SchedulerCommand where
  | Enqueue (task : DirectoryTask)
  | Complete (worker : Nat) (lease : WorkLease) (workCompletion : WorkCompletion)

/-- What a worker reports; only the two sealed results carry its lease. -/
inductive ScanEvent where
  | ScanBatch (lease : Option WorkLease) (entries : List NativePath)
  | ScanUnscanned (lease : Option WorkLease) (path : NativePath)
  | ScanFailed (path : Option NativePath) (message : String)
  | ScanPathGone (path : NativePath) (message : String)
  deriving DecidableEq

/-- The lease a sealed result is checked against; `none` for the other results. -/
def ScanEvent.sealedBy : ScanEvent → Option (Option WorkLease)
  | .ScanBatch lease _ | .ScanUnscanned lease _ => some lease
  | .ScanFailed _ _ | .ScanPathGone _ _ => none

/-- A worker with the channels it owns an end of: assignments and results hold one message,
`outbox` are its commands the actor has not received. -/
structure Worker where
  inbox : Option LeasedDirectoryTask
  holding : Option LeasedDirectoryTask
  outbox : List SchedulerCommand
  events : List ScanEvent
  running : Bool

def Worker.new : Worker := ⟨none, none, [], [], true⟩

/-- Where the actor stands in its loop. -/
inductive Place where
  | head
  | dispatch (worker : Nat)
  | settle
  | select
  | returned
  | cancelled
  | stopped
  | failed (error : SchedulerError)
  deriving DecidableEq

structure Scheduler (n : Nat) where
  coordinator : ScanCoordinator
  queue : TaskQueue
  root : NativePath
  session : ScanSessionId
  generation : ScanGeneration
  active : Fin n → Option WorkLease
  workers : Fin n → Worker
  cancelled : Bool
  failed : Bool
  rootInvalid : Bool
  rootInvalidated : Bool
  place : Place

/-- What a step lets the rest of the program see. -/
inductive Notice (n : Nat) where
  | sent (path : NativePath)
  | received (path : NativePath)
  | handed (worker : Fin n) (path : NativePath) (lease : WorkLease)
  | completed (worker : Fin n) (path : NativePath) (lease : WorkLease)
  | emitted (worker : Fin n) (event : ScanEvent)
  | forwarded (worker : Fin n) (event : ScanEvent)
  deriving DecidableEq

namespace Scheduler
variable {n : Nat}

def fail (s : Scheduler n) (error : SchedulerError) : Scheduler n :=
  { s with coordinator := s.coordinator.failScanWork, failed := true, place := .failed error }

/-- `run` up to its loop. -/
def start (coordinator : ScanCoordinator) (root : NativePath) (session : ScanSessionId)
    (generation : ScanGeneration) (capacity : Nat) : Scheduler n :=
  let s : Scheduler n :=
    ⟨coordinator, .new root capacity, root, session, generation, fun _ => none, fun _ => .new,
      false, false, false, false, .head⟩
  match taskKey session generation root root with
  | .error error => s.fail error
  | .ok key =>
    match coordinator.schedule key .Background with
    | (registered, .Enqueued) => { s with coordinator := registered }
    | (registered, _) => { s with coordinator := registered }.fail .rootNotAdmitted

def allFree (s : Scheduler n) : Bool := decide (∀ i, s.active i = none)

def stopFlag (s : Scheduler n) : Bool := s.cancelled || s.failed || s.rootInvalid

/-- The flags at the top of the loop. -/
def loopHead (s : Scheduler n) : Scheduler n :=
  let seen : Scheduler n :=
    if s.rootInvalid && !s.rootInvalidated then
      { s with coordinator := s.coordinator.invalidateScanWork, rootInvalidated := true }
    else s
  if seen.rootInvalid && seen.allFree then { seen with place := .returned }
  else if seen.cancelled then
    { seen with coordinator := seen.coordinator.cancelScanWork, place := .cancelled }
  else if seen.failed then
    { seen with coordinator := seen.coordinator.failScanWork, place := .stopped }
  else if seen.rootInvalidated then { seen with place := .select }
  else { seen with place := .dispatch 0 }

def leaseTask (s : Scheduler n) (io : Option String) :
    Scheduler n × Except SchedulerError (Option LeasedDirectoryTask) :=
  match s.coordinator.leaseNextScan with
  | (coordinator, none) => ({ s with coordinator := coordinator }, .ok none)
  | (coordinator, some lease) =>
    match s.queue.takePath (lease.key.path.below s.root) s.stopFlag io with
    | .error error => ({ s with coordinator := coordinator }, .error (.journalUnread error))
    | .ok (_, none) =>
      ({ s with coordinator := (coordinator.finish lease .Failed).1 }, .error .missingTask)
    | .ok (queue, some task) =>
      ({ s with coordinator := coordinator, queue := queue }, .ok (some ⟨task, lease⟩))

/-- `try_send` on the assignment channel of a worker without a lease. -/
def assign (s : Scheduler n) (i : Fin n) (assignment : LeasedDirectoryTask) :
    Scheduler n × List (Notice n) :=
  if (s.workers i).running = false then (s.fail .assignmentDisconnected, [])
  else if (s.workers i).inbox.isSome then (s.fail .busyWorker, [])
  else
    ({ s with
        workers := Function.update s.workers i { s.workers i with inbox := some assignment }
        active := Function.update s.active i (some assignment.lease)
        place := .dispatch (i + 1) },
      [.handed i assignment.task.path assignment.lease])

/-- One turn of the loop of `dispatch_ready`. -/
def dispatchReady (s : Scheduler n) (i : Fin n) (io : Option String) :
    Scheduler n × List (Notice n) :=
  if (s.active i).isSome then ({ s with place := .dispatch (i + 1) }, [])
  else
    match s.leaseTask io with
    | (s, .error error) => (s.fail error, [])
    | (s, .ok none) => ({ s with place := .settle }, [])
    | (s, .ok (some assignment)) => s.assign i assignment

def turn (s : Scheduler n) (io : Option String) : Scheduler n × List (Notice n) :=
  match s.place with
  | .head => (s.loopHead, [])
  | .dispatch worker =>
    if h : worker < n then s.dispatchReady ⟨worker, h⟩ io else ({ s with place := .settle }, [])
  | .settle =>
    ({ s with place := if s.queue.isIdle && s.allFree then .returned else .select }, [])
  | .select | .returned | .cancelled | .stopped | .failed _ => (s, [])

/-! ## Messages -/

def registerTask (s : Scheduler n) (task : DirectoryTask) :
    Scheduler n × Except SchedulerError Bool :=
  match taskKey s.session s.generation s.root task.path with
  | .error error => (s, .error error)
  | .ok key =>
    match s.coordinator.schedule key .Background with
    | (coordinator, .Enqueued) => ({ s with coordinator := coordinator }, .ok true)
    | (coordinator, .PriorityRaised) | (coordinator, .AlreadyPending)
    | (coordinator, .AlreadyLeased) => ({ s with coordinator := coordinator }, .ok false)
    | (coordinator, .StaleSession) | (coordinator, .StaleGeneration) =>
      ({ s with coordinator := coordinator }, .error .staleEra)

def enqueue (s : Scheduler n) (task : DirectoryTask) (io : Option String) :
    Scheduler n × List (Notice n) :=
  match s.registerTask task with
  | (s, .error error) => (s.fail error, [.received task.path])
  | (s, .ok false) => ({ s with place := .head }, [.received task.path])
  | (s, .ok true) =>
    match s.queue.schedule task io with
    | .error error => (s.fail (.notQueued error), [.received task.path])
    | .ok queue => ({ s with queue := queue, place := .head }, [.received task.path])

/-- The check of one result, whose delivery may fail silently once the scan is cancelled;
`delivered` is whether the owner still takes results. -/
def forwardWorkerEvent (active : Option WorkLease) (event : ScanEvent)
    (cancelled delivered : Bool) : Except SchedulerError Unit :=
  match active with
  | none => .error .resultWithoutLease
  | some activeLease =>
    match event.sealedBy with
    | some none => .error .unleasedResult
    | some (some lease) =>
      if lease ≠ activeLease then .error .staleResult
      else if delivered || cancelled then .ok () else .error .ownerStopped
    | none => if delivered || cancelled then .ok () else .error .ownerStopped

/-- The results that pass before the first error, and that error. -/
def forwardPendingEvents (active : Option WorkLease) (cancelled delivered : Bool) :
    List ScanEvent → List ScanEvent × Except SchedulerError Unit
  | [] => ([], .ok ())
  | event :: events =>
    match forwardWorkerEvent active event cancelled delivered with
    | .error error => ([], .error error)
    | .ok () =>
      let (passed, outcome) := forwardPendingEvents active cancelled delivered events
      (event :: passed, outcome)

def forwards (i : Fin n) (delivered : Bool) (events : List ScanEvent) : List (Notice n) :=
  if delivered then events.map (Notice.forwarded i) else []

def completeLease (s : Scheduler n) (i : Fin n) (lease : WorkLease)
    (workCompletion : WorkCompletion) : Scheduler n × Except SchedulerError Unit :=
  match s.active i with
  | none => (s, .error .noActiveLease)
  | some expected =>
    if expected ≠ lease then (s, .error .forgedLease)
    else
      match s.coordinator.finish lease workCompletion with
      | (coordinator, .StaleLease) =>
        ({ s with coordinator := coordinator }, .error .rejectedCompletion)
      | (coordinator, .Accepted) =>
        ({ s with
            coordinator := coordinator
            active := Function.update s.active i none
            queue := s.queue.complete },
          .ok ())

def complete (s : Scheduler n) (worker : Nat) (lease : WorkLease)
    (workCompletion : WorkCompletion) (delivered : Bool) : Scheduler n × List (Notice n) :=
  if h : worker < n then
    let i : Fin n := ⟨worker, h⟩
    let (passed, outcome) :=
      forwardPendingEvents (s.active i) s.cancelled delivered (s.workers i).events
    let drained : Scheduler n :=
      { s with
        workers := Function.update s.workers i
          { s.workers i with events := (s.workers i).events.drop passed.length } }
    let notices := forwards i delivered passed
    match outcome with
    | .error error => (drained.fail error, notices)
    | .ok () =>
      match drained.completeLease i lease workCompletion with
      | (s, .error error) => (s.fail error, notices)
      | (s, .ok ()) =>
        ({ s with place := .head }, notices ++ [.completed i (lease.key.path.below s.root) lease])
  else (s.fail .invalidWorker, [])

/-- The actor takes the next command of worker `i`. -/
def command (s : Scheduler n) (i : Fin n) (io : Option String) (delivered : Bool) :
    Scheduler n × List (Notice n) :=
  match (s.workers i).outbox with
  | [] => (s, [])
  | message :: rest =>
    let taken : Scheduler n :=
      { s with workers := Function.update s.workers i { s.workers i with outbox := rest } }
    match message with
    | .Enqueue task => taken.enqueue task io
    | .Complete worker lease workCompletion => taken.complete worker lease workCompletion delivered

/-- The command channel is closed: every worker is gone and every command received. -/
def hangup (s : Scheduler n) : Scheduler n × List (Notice n) :=
  if ∀ i, (s.workers i).running = false ∧ (s.workers i).outbox = [] then
    (if s.allFree then { s with place := .returned } else s.fail .workersDisconnected, [])
  else (s, [])

def focus (s : Scheduler n) (path : NativePath) : Scheduler n :=
  match (stripPrefix s.root path).bind RelativePath.fromPath with
  | none => { s with place := .head }
  | some relative => { s with coordinator := s.coordinator.focus relative, place := .head }

/-- The actor reads the result channel of worker `i`. -/
def event (s : Scheduler n) (i : Fin n) (delivered : Bool) : Scheduler n × List (Notice n) :=
  match (s.workers i).events with
  | [] =>
    if (s.workers i).running then (s, [])
    else (if (s.active i).isSome then s.fail .workerDisconnected else { s with place := .returned },
      [])
  | event :: rest =>
    let taken : Scheduler n :=
      { s with workers := Function.update s.workers i { s.workers i with events := rest } }
    match forwardWorkerEvent (s.active i) event s.cancelled delivered with
    | .error error => (taken.fail error, [])
    | .ok () => ({ taken with place := .head }, forwards i delivered [event])

/-! ## The workers -/

def setWorker (s : Scheduler n) (i : Fin n) (worker : Worker) : Scheduler n :=
  { s with workers := Function.update s.workers i worker }

/-- A worker takes its assignment; a flag may have been set since it looked. -/
def receive (s : Scheduler n) (i : Fin n) : Scheduler n :=
  let w := s.workers i
  if w.running && w.holding.isNone then
    s.setWorker i { w with inbox := none, holding := w.inbox }
  else s

def send (s : Scheduler n) (i : Fin n) (task : DirectoryTask) : Scheduler n × List (Notice n) :=
  let w := s.workers i
  if w.holding.isSome then
    (s.setWorker i { w with outbox := w.outbox ++ [.Enqueue task] }, [.sent task.path])
  else (s, [])

/-- A worker reports on the directory it holds: sealed results carry its lease. -/
def emit (s : Scheduler n) (i : Fin n) (event : ScanEvent) : Scheduler n × List (Notice n) :=
  let w := s.workers i
  match w.holding with
  | none => (s, [])
  | some assignment =>
    if w.events = [] ∧ (event.sealedBy.all fun lease => decide (lease = some assignment.lease)) then
      (s.setWorker i { w with events := [event] }, [.emitted i event])
    else (s, [])

def finishTask (s : Scheduler n) (i : Fin n) (workCompletion : WorkCompletion) : Scheduler n :=
  let w := s.workers i
  match w.holding with
  | none => s
  | some assignment =>
    s.setWorker i { w with
      holding := none
      outbox := w.outbox ++ [.Complete i assignment.lease workCompletion] }

/-- A worker leaves its loop; one that stops without a flag sets `cancelled`. -/
def exit (s : Scheduler n) (i : Fin n) : Scheduler n :=
  let w := s.workers i
  if w.running && w.holding.isNone then
    { s with
      workers := Function.update s.workers i { w with inbox := none, running := false }
      cancelled := s.cancelled || !s.stopFlag }
  else s

/-- A worker that holds a directory finds the root replaced. -/
def invalidate (s : Scheduler n) (i : Fin n) : Scheduler n :=
  if (s.workers i).holding.isSome then { s with rootInvalid := true } else s

/-! ## Runs -/

inductive Action (n : Nat) where
  | turn (io : Option String)
  | command (i : Fin n) (io : Option String) (delivered : Bool)
  | hangup
  | focus (path : NativePath)
  | event (i : Fin n) (delivered : Bool)
  | timeout
  | receive (i : Fin n)
  | send (i : Fin n) (task : DirectoryTask)
  | emit (i : Fin n) (event : ScanEvent)
  | finishTask (i : Fin n) (workCompletion : WorkCompletion)
  | exit (i : Fin n)
  | invalidate (i : Fin n)
  | cancel
  | stop
  | acquire (kind : WorkKind) (path : RelativePath) (priority : WorkPriority)
  | finish (lease : WorkLease) (completion : WorkCompletion)

/-- What the actor does after `select`. -/
def selected (s : Scheduler n) (next : Scheduler n × List (Notice n)) :
    Scheduler n × List (Notice n) :=
  if s.place = .select then next else (s, [])

/-- Other clients of the coordinator acquire and finish work that is not enumeration. -/
def step (s : Scheduler n) : Action n → Scheduler n × List (Notice n)
  | .turn io => s.turn io
  | .command i io delivered => s.selected (s.command i io delivered)
  | .hangup => s.selected s.hangup
  | .focus path => s.selected (s.focus path, [])
  | .event i delivered => s.selected (s.event i delivered)
  | .timeout => s.selected ({ s with place := .head }, [])
  | .receive i => (s.receive i, [])
  | .send i task => s.send i task
  | .emit i event => s.emit i event
  | .finishTask i workCompletion => (s.finishTask i workCompletion, [])
  | .exit i => (s.exit i, [])
  | .invalidate i => (s.invalidate i, [])
  | .cancel => ({ s with cancelled := true }, [])
  | .stop => ({ s with failed := true }, [])
  | .acquire kind path priority =>
    (if kind = .EnumerateDirectory then s
      else { s with coordinator := (s.coordinator.acquire kind path priority).1 }, [])
  | .finish lease completion =>
    (if lease.key.kind = .EnumerateDirectory then s
      else { s with coordinator := (s.coordinator.finish lease completion).1 }, [])

def machine : Machine (Scheduler n) (Action n) (List (Notice n)) := ⟨step⟩

end Scheduler

end Excise
