import Excise.Coordinator.Actor
import Excise.Lib.Keyed

/-!
# The deletion rail

`DeletionWork` of `state/deletion_work.rs` with the coordinator it takes its leases from,
and the system around it: the commands that are with the worker, and the calls of the owner
loop. A taken command is either accepted by the worker or given back at once.
-/

namespace Excise
set_option autoImplicit false

structure FileToDelete where
  pathInFilesystem : NativePath
  pathToFile : List Component

/-- `full_path`: the components are pushed one by one. -/
def FileToDelete.fullPath (t : FileToDelete) : NativePath :=
  t.pathInFilesystem ++ t.pathToFile.map Component.bytes

structure DeletionPlanSummary where
  target : FileToDelete
  plannedEntries : Nat

structure DeletionWorkId where
  value : Nat
  deriving DecidableEq

inductive DeletionWorkError where
  | QueueFull
  | OverlappingTarget
  deriving DecidableEq, Repr

inductive DeletionWorkCommand where
  | Plan (workId : DeletionWorkId) (target : FileToDelete) (reducedGuardrails : Bool)
      (maximumBytes : Nat)
  | Execute (workId : DeletionWorkId) (plan : DeletionPlanSummary)

def DeletionWorkCommand.workId : DeletionWorkCommand → DeletionWorkId
  | .Plan workId _ _ _ => workId
  | .Execute workId _ => workId

def DeletionWorkCommand.isPlan : DeletionWorkCommand → Bool
  | .Plan .. => true
  | .Execute .. => false

inductive DeletionWorkStage where
  | AwaitingConfirmation (target : FileToDelete) (reducedGuardrails : Bool) (maximumBytes : Nat)
  | Confirming (reducedGuardrails : Bool) (maximumBytes : Nat)
  | QueuedPlanning (target : FileToDelete) (reducedGuardrails : Bool) (maximumBytes : Nat)
  | Planning
  | QueuedExecution
  | Executing (plannedEntries : Nat)
  | CancellingPlanning

namespace DeletionWorkStage

def isAwaitingConfirmation : DeletionWorkStage → Bool
  | .AwaitingConfirmation .. => true
  | _ => false

def isQueuedPlanning : DeletionWorkStage → Bool
  | .QueuedPlanning .. => true
  | _ => false

def isPlanning : DeletionWorkStage → Bool
  | .Planning => true
  | _ => false

/-- The planner lane is taken. -/
def isPlanningOrCancelling : DeletionWorkStage → Bool
  | .Planning | .CancellingPlanning => true
  | _ => false

def isQueuedExecution : DeletionWorkStage → Bool
  | .QueuedExecution => true
  | _ => false

def isExecuting : DeletionWorkStage → Bool
  | .Executing _ => true
  | _ => false

end DeletionWorkStage

structure DeletionWorkItem where
  id : DeletionWorkId
  path : NativePath
  relativePath : RelativePath
  target : Option FileToDelete
  plan : Option DeletionPlanSummary
  stage : DeletionWorkStage
  confirmedAt : Option Nat
  historyBytes : Nat

structure DeletionWork where
  items : List DeletionWorkItem
  coordinator : ScanCoordinator
  leases : List (DeletionWorkId × WorkLease)
  nextId : Nat

def maxDeletionWorkItems : Nat := 4

def targetsOverlap (left right : NativePath) : Bool :=
  right.isPrefixOf left || left.isPrefixOf right

namespace DeletionWork

def newForCoordinator (coordinator : ScanCoordinator) : DeletionWork := ⟨[], coordinator, [], 0⟩

/-! ## Leases -/

def nextWorkId (w : DeletionWork) : DeletionWork × DeletionWorkId :=
  let next := (w.nextId + 1) % 2 ^ 64
  let next := if next = 0 then 1 else next
  ({ w with nextId := next }, ⟨next⟩)

def acquireLease (w : DeletionWork) (kind : WorkKind) (relativePath : RelativePath)
    (priority : WorkPriority) : DeletionWork × Option WorkLease :=
  let acquired := w.coordinator.acquire kind relativePath priority
  ({ w with coordinator := acquired.1 }, acquired.2)

def rememberLease (w : DeletionWork) (workId : DeletionWorkId) (lease : WorkLease) : DeletionWork :=
  match w.leases.find? (fun e => e.1 = workId) with
  | some _ =>
    { w with
      leases := Keyed.updateFirst (fun e => e.1 = workId) (fun e => (e.1, lease)) w.leases }
  | none => { w with leases := w.leases ++ [(workId, lease)] }

def hasLease (w : DeletionWork) (workId : DeletionWorkId) : Bool :=
  w.leases.any fun e => e.1 = workId

/-- `swap_remove` of the first entry of `workId`; the order of the vector is never read. -/
def takeLease (w : DeletionWork) (workId : DeletionWorkId) : DeletionWork × Option WorkLease :=
  match w.leases.find? (fun e => e.1 = workId) with
  | none => (w, none)
  | some (_, lease) => ({ w with leases := w.leases.eraseP (fun e => e.1 = workId) }, some lease)

def finishLease (w : DeletionWork) (workId : DeletionWorkId) (completion : WorkCompletion) :
    DeletionWork × Bool :=
  match w.takeLease workId with
  | (w, none) => (w, false)
  | (w, some lease) =>
    let finished := w.coordinator.finish lease completion
    ({ w with coordinator := finished.1 }, finished.2 = .Accepted)

def requeueLease (w : DeletionWork) (workId : DeletionWorkId) : DeletionWork × Bool :=
  match w.takeLease workId with
  | (w, none) => (w, false)
  | (w, some lease) =>
    let requeued := w.coordinator.requeue lease
    ({ w with coordinator := requeued.1 }, requeued.2 = .Requeued)

/-! ## Items -/

def findItem (w : DeletionWork) (workId : DeletionWorkId) : Option DeletionWorkItem :=
  w.items.find? fun item => item.id = workId

def updateItem (w : DeletionWork) (workId : DeletionWorkId)
    (f : DeletionWorkItem → DeletionWorkItem) : DeletionWork :=
  { w with items := Keyed.updateFirst (fun item => item.id = workId) f w.items }

def removeItem (w : DeletionWork) (workId : DeletionWorkId) : DeletionWork :=
  { w with items := w.items.eraseP fun item => item.id = workId }

def enqueue (w : DeletionWork) (path : NativePath) (target : Option FileToDelete)
    (stage : DeletionWorkStage) (confirmedAt : Option Nat) (historyBytes : Nat) :
    DeletionWork × Except DeletionWorkError DeletionWorkId :=
  if w.items.length ≥ maxDeletionWorkItems then (w, .error .QueueFull)
  else if w.items.any fun item => targetsOverlap item.path path then
    (w, .error .OverlappingTarget)
  else
    let relativePath := match target with
      | none => RelativePath.root
      | some target => ⟨target.pathToFile⟩
    let next := w.nextWorkId
    ({ next.1 with
        items := w.items ++
          [⟨next.2, path, relativePath, target, none, stage, confirmedAt, historyBytes⟩] },
      .ok next.2)

def enqueueConfirmation (w : DeletionWork) (target : FileToDelete) (reducedGuardrails : Bool)
    (maximumBytes now : Nat) : DeletionWork × Except DeletionWorkError DeletionWorkId :=
  let stage := if reducedGuardrails then
      DeletionWorkStage.QueuedPlanning target reducedGuardrails maximumBytes
    else .AwaitingConfirmation target reducedGuardrails maximumBytes
  w.enqueue target.fullPath (some target) stage (if reducedGuardrails then some now else none)
    maximumBytes

def nextPlanningCommand (w : DeletionWork) : DeletionWork × Option DeletionWorkCommand :=
  if w.items.any fun item => item.stage.isPlanningOrCancelling then (w, none)
  else
    match w.items.find? fun item => item.stage.isQueuedPlanning with
    | none => (w, none)
    | some item =>
      match w.acquireLease .PlanDeletion item.relativePath .Foreground with
      | (w, none) => (w, none)
      | (w, some lease) =>
        match item.stage with
        | .QueuedPlanning target reducedGuardrails maximumBytes =>
          let w := w.updateItem item.id fun item =>
            { item with stage := .Planning, target := some target }
          (w.rememberLease item.id lease,
            some (.Plan item.id target reducedGuardrails maximumBytes))
        | _ => (w, none)

def nextExecutionCommand (w : DeletionWork) : DeletionWork × Option DeletionWorkCommand :=
  if w.items.any fun item => item.stage.isExecuting then (w, none)
  else
    match w.items.find? fun item => item.stage.isQueuedExecution with
    | none => (w, none)
    | some item =>
      match w.acquireLease .ExecuteDeletion item.relativePath .Safety with
      | (w, none) => (w, none)
      | (w, some lease) =>
        let w := w.rememberLease item.id lease
        match item.plan with
        | none => ((w.finishLease item.id .Failed).1, none)
        | some plan =>
          let w := w.updateItem item.id fun item => { item with plan := none }
          if item.path ≠ plan.target.fullPath then
            ((w.finishLease item.id .Invalidated).1.removeItem item.id, none)
          else
            (w.updateItem item.id fun item =>
                { item with stage := .Executing plan.plannedEntries },
              some (.Execute item.id plan))

/-- Whether `command` may go back to the queue it came from. -/
def restoreable (command : DeletionWorkCommand) (stage : DeletionWorkStage) : Bool :=
  match command, stage with
  | .Plan .., .Planning => true
  | .Execute .., .Executing _ => true
  | _, _ => false

def restoreUnsubmitted (w : DeletionWork) (command : DeletionWorkCommand) : DeletionWork :=
  match w.findItem command.workId with
  | none => (w.finishLease command.workId .Cancelled).1
  | some item =>
    if restoreable command item.stage then
      match w.requeueLease command.workId with
      | (w, false) => w
      | (w, true) =>
        match command with
        | .Plan workId target reducedGuardrails maximumBytes =>
          w.updateItem workId fun item =>
            { item with stage := .QueuedPlanning target reducedGuardrails maximumBytes }
        | .Execute workId plan =>
          w.updateItem workId fun item =>
            { item with plan := some plan, stage := .QueuedExecution }
    else (w.finishLease command.workId .Cancelled).1

def planningSucceeded (w : DeletionWork) (workId : DeletionWorkId) (plan : DeletionPlanSummary) :
    DeletionWork × Bool :=
  match w.findItem workId with
  | none => (w, false)
  | some item =>
    match item.stage with
    | .CancellingPlanning => ((w.finishLease workId .Cancelled).1.removeItem workId, false)
    | .Planning =>
      if item.path ≠ plan.target.fullPath then
        ((w.finishLease workId .Failed).1.removeItem workId, false)
      else
        match w.finishLease workId .Succeeded with
        | (w, false) => (w.removeItem workId, false)
        | (w, true) =>
          (w.updateItem workId fun item =>
            { item with plan := some plan, stage := .QueuedExecution }, true)
    | _ => ((w.finishLease workId .Failed).1.removeItem workId, false)

/-- `finish_planning` and `finish_execution`: they differ in the stages they accept. -/
def finishStage (w : DeletionWork) (accepted : DeletionWorkStage → Bool) (workId : DeletionWorkId)
    (completion : WorkCompletion) : DeletionWork × Bool :=
  match w.findItem workId with
  | none => (w, false)
  | some item =>
    if accepted item.stage then
      match w.finishLease workId completion with
      | (w, true) => (w.removeItem workId, true)
      | (w, false) => (w, false)
    else (w, false)

def finishPlanning (w : DeletionWork) (workId : DeletionWorkId) (completion : WorkCompletion) :
    DeletionWork × Bool :=
  w.finishStage DeletionWorkStage.isPlanningOrCancelling workId completion

def planningCancelled (w : DeletionWork) (workId : DeletionWorkId) : DeletionWork × Bool :=
  w.finishPlanning workId .Cancelled

def planningFailed (w : DeletionWork) (workId : DeletionWorkId) : DeletionWork × Bool :=
  w.finishPlanning workId .Failed

def planningStale (w : DeletionWork) (workId : DeletionWorkId) : DeletionWork × Bool :=
  w.finishPlanning workId .Invalidated

def finishExecution (w : DeletionWork) (workId : DeletionWorkId) (completion : WorkCompletion) :
    DeletionWork × Bool :=
  w.finishStage DeletionWorkStage.isExecuting workId completion

def executionFailed (w : DeletionWork) (workId : DeletionWorkId) : DeletionWork × Bool :=
  w.finishExecution workId .Failed

def executionStale (w : DeletionWork) (workId : DeletionWorkId) : DeletionWork × Bool :=
  w.finishExecution workId .Invalidated

def executionFinished (w : DeletionWork) (workId : DeletionWorkId)
    (completion : WorkCompletion) : DeletionWork × Bool :=
  w.finishExecution workId completion

def takeNextConfirmation (w : DeletionWork) : DeletionWork × Option (DeletionWorkId × FileToDelete) :=
  match w.items.find? fun item => item.stage.isAwaitingConfirmation with
  | none => (w, none)
  | some item =>
    match item.stage with
    | .AwaitingConfirmation target reducedGuardrails maximumBytes =>
      (w.updateItem item.id fun item =>
        { item with stage := .Confirming reducedGuardrails maximumBytes }, some (item.id, target))
    | _ => (w, none)

def returnConfirmation (w : DeletionWork) (workId : DeletionWorkId) (target : FileToDelete) :
    DeletionWork × Bool :=
  match w.findItem workId with
  | none => (w, false)
  | some item =>
    match item.stage with
    | .Confirming reducedGuardrails maximumBytes =>
      if item.path ≠ target.fullPath then (w, false)
      else
        (w.updateItem workId fun item =>
          { item with
            confirmedAt := none
            stage := .AwaitingConfirmation target reducedGuardrails maximumBytes }, true)
    | _ => (w, false)

def queueConfirmation (w : DeletionWork) (workId : DeletionWorkId) (target : FileToDelete)
    (now : Nat) : DeletionWork × Bool :=
  match w.findItem workId with
  | none => (w, false)
  | some item =>
    match item.stage with
    | .Confirming reducedGuardrails maximumBytes =>
      if item.path ≠ target.fullPath then (w, false)
      else
        (w.updateItem workId fun item =>
          { item with
            confirmedAt := some now
            stage := .QueuedPlanning target reducedGuardrails maximumBytes }, true)
    | _ => (w, false)

def cancelModal (w : DeletionWork) (workId : DeletionWorkId) : DeletionWork × Bool :=
  match w.findItem workId with
  | none => (w, false)
  | some item =>
    match item.stage with
    | .Planning =>
      (w.updateItem workId fun item => { item with stage := .CancellingPlanning },
        w.hasLease workId)
    | .QueuedPlanning .. | .AwaitingConfirmation .. | .Confirming .. | .QueuedExecution =>
      (w.removeItem workId, false)
    | .Executing _ | .CancellingPlanning => (w, false)

/-- The loop of `cancel_pending` marks each planning item by its id. -/
def cancelPending (w : DeletionWork) : DeletionWork × Bool :=
  let planning := (w.items.filter fun item => item.stage.isPlanning).map DeletionWorkItem.id
  let marked := planning.foldl (fun w workId =>
    w.updateItem workId fun item => { item with stage := .CancellingPlanning }) w
  ({ marked with
      items := marked.items.filter fun item => item.stage.isExecuting ||
        (item.stage.isPlanningOrCancelling && !item.stage.isPlanning) },
    planning.any marked.hasLease)

def discard (w : DeletionWork) (workId : DeletionWorkId) : DeletionWork × Bool :=
  let w := (w.finishLease workId .Cancelled).1
  match w.findItem workId with
  | none => (w, false)
  | some _ => (w.removeItem workId, true)

def discardCancelledEvent (w : DeletionWork) (workId : DeletionWorkId) : DeletionWork :=
  match w.findItem workId with
  | none => (w.finishLease workId .Cancelled).1
  | some _ => w

end DeletionWork

/-! ## The rail with its worker -/

structure Rail where
  work : DeletionWork
  withWorker : List DeletionWorkCommand

/-- A call another client of the session coordinator makes: scans never name deletion work. -/
def isScanCall : ScanCoordinator.Call → Bool
  | .schedule key _ | .leaseExact key => key.kind.isScanWork
  | .finish lease _ | .requeue lease => lease.key.kind.isScanWork
  | .focus _ | .leaseNextScan | .cancelScanWork | .failScanWork | .invalidateScanWork => true
  | _ => false

structure ScanCall where
  call : ScanCoordinator.Call
  scan : isScanCall call = true

inductive WorkerResult where
  | planned (plan : DeletionPlanSummary)
  | planCancelled
  | planFailed
  | planStale
  | executed (completion : WorkCompletion)
  | executionFailed
  | executionStale

def WorkerResult.isPlan : WorkerResult → Bool
  | .planned _ | .planCancelled | .planFailed | .planStale => true
  | .executed _ | .executionFailed | .executionStale => false

namespace Rail

inductive Call where
  | enqueueConfirmation (target : FileToDelete) (reducedGuardrails : Bool) (maximumBytes now : Nat)
  | takeNextConfirmation
  | returnConfirmation (workId : DeletionWorkId) (target : FileToDelete)
  | queueConfirmation (workId : DeletionWorkId) (target : FileToDelete) (now : Nat)
  | cancelModal (workId : DeletionWorkId)
  | cancelPending
  | discard (workId : DeletionWorkId)
  | nextPlanningCommand (workerAccepts : Bool)
  | nextExecutionCommand (workerAccepts : Bool)
  | result (workId : DeletionWorkId) (result : WorkerResult)
  | advanceGeneration (generation : ScanGeneration)
  | shared (call : ScanCall)

inductive Answer where
  | enqueued (id : Except DeletionWorkError DeletionWorkId)
  | confirmation (next : Option (DeletionWorkId × FileToDelete))
  | command (next : Option DeletionWorkCommand)
  | done (flag : Bool)
  | nothing
  | shared (answer : ScanCoordinator.Answer)

/-- A taken command goes to the worker, or back onto the rail when the worker is busy. -/
def submit (s : Rail) (taken : DeletionWork × Option DeletionWorkCommand) (workerAccepts : Bool) :
    Rail × Answer :=
  match taken with
  | (work, none) => (⟨work, s.withWorker⟩, .command none)
  | (work, some command) =>
    if workerAccepts then (⟨work, s.withWorker ++ [command]⟩, .command (some command))
    else (⟨work.restoreUnsubmitted command, s.withWorker⟩, .command (some command))

/-- What the owner loop does with a result: the handlers of `app.rs`. -/
def handle (w : DeletionWork) (workId : DeletionWorkId) : WorkerResult → DeletionWork × Bool
  | .planned plan =>
    match w.planningSucceeded workId plan with
    | (w, true) => (w, true)
    | (w, false) => (w.discardCancelledEvent workId, false)
  | .planCancelled => ((w.planningCancelled workId).1.discardCancelledEvent workId, true)
  | .planFailed =>
    ((w.planningFailed workId).1.discardCancelledEvent workId, (w.planningFailed workId).2)
  | .planStale =>
    match w.planningStale workId with
    | (w, true) => (w, true)
    | (w, false) => (w.discardCancelledEvent workId, false)
  | .executed completion =>
    match w.executionFinished workId completion with
    | (w, true) => (w, true)
    | (w, false) => (w.discardCancelledEvent workId, false)
  | .executionFailed => w.executionFailed workId
  | .executionStale => w.executionStale workId

def answersTo (workId : DeletionWorkId) (result : WorkerResult) (command : DeletionWorkCommand) :
    Bool :=
  command.workId = workId && command.isPlan == result.isPlan

/-- The worker reports only on a command it has. -/
def receive (s : Rail) (workId : DeletionWorkId) (result : WorkerResult) : Rail × Answer :=
  match s.withWorker.find? (answersTo workId result) with
  | none => (s, .nothing)
  | some _ =>
    let handled := handle s.work workId result
    (⟨handled.1, s.withWorker.eraseP (answersTo workId result)⟩, .done handled.2)

def answer (s : Rail) : Call → Rail × Answer
  | .enqueueConfirmation target reducedGuardrails maximumBytes now =>
    let done := s.work.enqueueConfirmation target reducedGuardrails maximumBytes now
    (⟨done.1, s.withWorker⟩, .enqueued done.2)
  | .takeNextConfirmation =>
    let done := s.work.takeNextConfirmation
    (⟨done.1, s.withWorker⟩, .confirmation done.2)
  | .returnConfirmation workId target =>
    let done := s.work.returnConfirmation workId target
    (⟨done.1, s.withWorker⟩, .done done.2)
  | .queueConfirmation workId target now =>
    let done := s.work.queueConfirmation workId target now
    (⟨done.1, s.withWorker⟩, .done done.2)
  | .cancelModal workId =>
    let done := s.work.cancelModal workId
    (⟨done.1, s.withWorker⟩, .done done.2)
  | .cancelPending =>
    let done := s.work.cancelPending
    (⟨done.1, s.withWorker⟩, .done done.2)
  | .discard workId =>
    let done := s.work.discard workId
    (⟨done.1, s.withWorker⟩, .done done.2)
  | .nextPlanningCommand workerAccepts => s.submit s.work.nextPlanningCommand workerAccepts
  | .nextExecutionCommand workerAccepts => s.submit s.work.nextExecutionCommand workerAccepts
  | .result workId result => s.receive workId result
  | .advanceGeneration generation =>
    let moved := s.work.coordinator.advance generation
    (⟨{ s.work with coordinator := moved.1 }, s.withWorker⟩, .done moved.2)
  | .shared call =>
    let answered := s.work.coordinator.answer call.call
    (⟨{ s.work with coordinator := answered.1 }, s.withWorker⟩, .shared answered.2)

def machine : Machine Rail Call Answer := ⟨answer⟩

def new (session : ScanSessionId) (generation : ScanGeneration) : Rail :=
  ⟨.newForCoordinator (.new session generation), []⟩

/-- Work ids handed out so far. -/
def issued (h : List (Call × Answer)) : Nat :=
  h.countP fun e => match e.2 with
    | .enqueued (.ok _) => true
    | _ => false

/-- Leases granted so far: one with every command taken, and those of the other clients. -/
def granted (h : List (Call × Answer)) : Nat :=
  h.countP fun e => match e.2 with
    | .command (some _) => true
    | .shared answer => answer.granted.isSome
    | _ => false

end Rail

end Excise
