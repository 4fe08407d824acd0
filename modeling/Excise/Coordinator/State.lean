import Excise.Coordinator.Queues
import Excise.Lib.Machine
import Excise.Lib.Saturating

/-!
# The scan coordinator

`ScanCoordinator` of `scan_coordinator_core.rs`, operation by operation, and the machine
that answers a sequence of its calls. Counters saturate at the width of the source's
types; the focus epoch wraps.
-/

namespace Excise
set_option autoImplicit false

structure LeaseId where
  value : Nat

instance : LinearOrder LeaseId :=
  LinearOrder.lift' LeaseId.value fun a b h => by
    cases a; cases b; simpa using h

/-- A grant for one worker. Results echo it verbatim. -/
structure WorkLease where
  id : LeaseId
  key : WorkKey
  priority : WorkPriority
  focused : Bool
  deriving DecidableEq

inductive ScheduleOutcome where
  | Enqueued
  | PriorityRaised
  | AlreadyPending
  | AlreadyLeased
  | StaleSession
  | StaleGeneration
  deriving DecidableEq, Repr

inductive CompletionOutcome where
  | Accepted
  | StaleLease
  deriving DecidableEq, Repr

inductive RequeueOutcome where
  | Requeued
  | StaleLease
  deriving DecidableEq, Repr

inductive WorkLifecycle where
  | Pending
  | Leased
  | Succeeded
  | Failed
  | Cancelled
  | Invalidated
  deriving DecidableEq, Repr

inductive WorkCompletion where
  | Succeeded
  | Failed
  | Cancelled
  | Invalidated
  deriving DecidableEq, Repr

def WorkCompletion.lifecycle : WorkCompletion → WorkLifecycle
  | .Succeeded => .Succeeded
  | .Failed => .Failed
  | .Cancelled => .Cancelled
  | .Invalidated => .Invalidated

structure TerminalWorkCounts where
  succeeded : Nat
  failed : Nat
  cancelled : Nat
  invalidated : Nat
  deriving DecidableEq, Repr

structure Invalidation where
  pending : Nat
  active : Nat
  deriving DecidableEq, Repr

structure ScanCoordinator where
  session : ScanSessionId
  generation : ScanGeneration
  nextSequence : Nat
  nextLease : Nat
  pending : Std.TreeMap WorkKey PendingWork
  queues : ReadyQueues
  active : Std.TreeMap LeaseId WorkLease
  activeByKey : Std.TreeMap WorkKey LeaseId
  activeDeletionExecution : Option LeaseId
  focusPaths : List RelativePath
  focusEpoch : UInt64
  nonBackgroundLeases : Nat
  terminal : TerminalWorkCounts

def maxFocusPaths : Nat := 32

def foregroundLeaseBurst : Nat := 4

namespace ScanCoordinator

def new (session : ScanSessionId) (generation : ScanGeneration) : ScanCoordinator where
  session := session
  generation := generation
  nextSequence := 0
  nextLease := 0
  pending := ∅
  queues := .default
  active := ∅
  activeByKey := ∅
  activeDeletionExecution := none
  focusPaths := []
  focusEpoch := 0
  nonBackgroundLeases := 0
  terminal := ⟨0, 0, 0, 0⟩

/-! ## Shared steps -/

def recordTerminal (c : ScanCoordinator) (lifecycle : WorkLifecycle) (count : Nat) :
    ScanCoordinator :=
  match lifecycle with
  | .Succeeded => { c with terminal.succeeded := satAdd 64 c.terminal.succeeded count }
  | .Failed => { c with terminal.failed := satAdd 64 c.terminal.failed count }
  | .Cancelled => { c with terminal.cancelled := satAdd 64 c.terminal.cancelled count }
  | .Invalidated => { c with terminal.invalidated := satAdd 64 c.terminal.invalidated count }
  | .Pending | .Leased => c

def normalizedPriority (kind : WorkKind) (priority : WorkPriority) : WorkPriority :=
  if kind = .ExecuteDeletion then .Safety else priority

/-- A new item takes the next sequence number; `schedule` and `requeue` both do this. -/
def addPending (c : ScanCoordinator) (key : WorkKey) (priority : WorkPriority) : ScanCoordinator :=
  let queued : QueuedWork := ⟨c.nextSequence, key⟩
  { c with
    nextSequence := satAdd 64 c.nextSequence 1
    queues := c.queues.insert priority queued
    pending := c.pending.insert key ⟨priority, queued⟩ }

def dropPending (c : ScanCoordinator) (priority : WorkPriority) (queued : QueuedWork)
    (key : WorkKey) : ScanCoordinator :=
  { c with queues := c.queues.remove priority queued, pending := c.pending.erase key }

def removeActive (c : ScanCoordinator) (leaseId : LeaseId) : ScanCoordinator × Option WorkLease :=
  match c.active[leaseId]? with
  | none => (c, none)
  | some active =>
    ({ c with
        active := c.active.erase leaseId
        activeByKey := c.activeByKey.erase active.key
        activeDeletionExecution :=
          if c.activeDeletionExecution = some active.id then none else c.activeDeletionExecution },
      some active)

def leaseQueued (c : ScanCoordinator) (queued : QueuedWork) (focused : Bool) :
    ScanCoordinator × Option WorkLease :=
  match c.pending[queued.key]? with
  | none => (c, none)
  | some pending =>
    let lease : WorkLease := ⟨⟨c.nextLease⟩, queued.key, pending.priority, focused⟩
    ({ c.dropPending pending.priority queued queued.key with
        nextLease := satAdd 64 c.nextLease 1
        activeDeletionExecution :=
          if lease.key.kind = .ExecuteDeletion then some lease.id else c.activeDeletionExecution
        activeByKey := c.activeByKey.insert lease.key lease.id
        active := c.active.insert lease.id lease
        nonBackgroundLeases :=
          if pending.priority = .Background && !focused then 0
          else if pending.priority ≠ .Safety then satAdd 8 c.nonBackgroundLeases 1
          else c.nonBackgroundLeases },
      some lease)

def terminateAll (c : ScanCoordinator) (terminal : WorkLifecycle) : ScanCoordinator :=
  recordTerminal
    { c with
      pending := ∅, queues := .default, active := ∅, activeByKey := ∅
      activeDeletionExecution := none }
    terminal (satAdd 64 c.pending.size c.active.size)

def dropAll (c : ScanCoordinator) (entries : List (WorkKey × PendingWork)) : ScanCoordinator :=
  entries.foldl (fun c e => c.dropPending e.2.priority e.2.queued e.1) c

def removeAll (c : ScanCoordinator) (ids : List LeaseId) : ScanCoordinator :=
  ids.foldl (fun c id => (c.removeActive id).1) c

/-- The ids of the active leases whose key matches, in id order. -/
def activeMatching (c : ScanCoordinator) (matching : WorkKey → Bool) : List LeaseId :=
  (c.active.toList.filter fun e => matching e.2.key).map Prod.fst

def terminateMatching (c : ScanCoordinator) (terminal : WorkLifecycle) (matching : WorkKey → Bool) :
    ScanCoordinator :=
  let pending := c.pending.toList.filter fun e => matching e.1
  let dropped := c.dropAll pending
  let active := dropped.activeMatching matching
  (dropped.removeAll active).recordTerminal terminal (satAdd 64 pending.length active.length)

/-! ## Selection -/

def nextFocusedQueued (c : ScanCoordinator) (executionActive : Bool) : Option QueuedWork :=
  c.focusPaths.reverse.findSome? fun path =>
    [WorkPriority.Background, .Prefetch].findSome? fun priority =>
      c.queues.firstUnder priority path executionActive

def nextQueued (c : ScanCoordinator) : Option (QueuedWork × Bool) :=
  let executionActive := c.activeDeletionExecution.isSome
  let unfocused (priority : WorkPriority) : Option (QueuedWork × Bool) :=
    (c.queues.firstEligible priority executionActive).map fun queued => (queued, false)
  (unfocused .Safety).or <|
  (if c.nonBackgroundLeases ≥ foregroundLeaseBurst then unfocused .Background else none).or <|
  (unfocused .Foreground).or <|
  ((c.nextFocusedQueued executionActive).map fun queued => (queued, true)).or <|
  [WorkPriority.Reducer, .Background, .Prefetch].findSome? unfocused

def nextScanQueued (c : ScanCoordinator) : Option (QueuedWork × Bool) :=
  let unfocused (priority : WorkPriority) : Option (QueuedWork × Bool) :=
    (c.queues.firstScanEligible priority).map fun queued => (queued, false)
  (if c.nonBackgroundLeases ≥ foregroundLeaseBurst then unfocused .Background else none).or <|
  (unfocused .Foreground).or <|
  (c.focusPaths.reverse.findSome? fun path =>
    [WorkPriority.Background, .Prefetch].findSome? fun priority =>
      (c.queues.firstScanUnder priority path).map fun queued => (queued, true)).or <|
  [WorkPriority.Reducer, .Background, .Prefetch].findSome? unfocused

/-! ## Operations -/

def schedule (c : ScanCoordinator) (key : WorkKey) (priority : WorkPriority) :
    ScanCoordinator × ScheduleOutcome :=
  if key.session ≠ c.session then (c, .StaleSession)
  else if key.generation ≠ c.generation then (c, .StaleGeneration)
  else if c.activeByKey.contains key then (c, .AlreadyLeased)
  else
    let priority := normalizedPriority key.kind priority
    match c.pending[key]? with
    | some existing =>
      if priority ≥ existing.priority then (c, .AlreadyPending)
      else
        ({ c with
            queues := (c.queues.remove existing.priority existing.queued).insert priority
              existing.queued
            pending := c.pending.insert key ⟨priority, existing.queued⟩ },
          .PriorityRaised)
    | none => (c.addPending key priority, .Enqueued)

def focus (c : ScanCoordinator) (path : RelativePath) : ScanCoordinator :=
  let others := c.focusPaths.erase path
  let kept := if others.length = maxFocusPaths then others.tail else others
  { c with focusPaths := kept ++ [path], focusEpoch := c.focusEpoch + 1 }

def leaseNext (c : ScanCoordinator) : ScanCoordinator × Option WorkLease :=
  match c.nextQueued with
  | none => (c, none)
  | some (queued, focused) => c.leaseQueued queued focused

def leaseNextScan (c : ScanCoordinator) : ScanCoordinator × Option WorkLease :=
  match c.nextScanQueued with
  | none => (c, none)
  | some (queued, focused) => c.leaseQueued queued focused

def leaseExact (c : ScanCoordinator) (key : WorkKey) : ScanCoordinator × Option WorkLease :=
  match c.pending[key]? with
  | none => (c, none)
  | some pending =>
    if pending.queued.key.kind = .ExecuteDeletion ∧ c.activeDeletionExecution.isSome then (c, none)
    else c.leaseQueued pending.queued false

def finish (c : ScanCoordinator) (lease : WorkLease) (completion : WorkCompletion) :
    ScanCoordinator × CompletionOutcome :=
  if c.active[lease.id]? = some lease then
    ((c.removeActive lease.id).1.recordTerminal completion.lifecycle 1, .Accepted)
  else (c, .StaleLease)

def requeue (c : ScanCoordinator) (lease : WorkLease) : ScanCoordinator × RequeueOutcome :=
  if c.active[lease.id]? = some lease then
    ((c.removeActive lease.id).1.addPending lease.key lease.priority, .Requeued)
  else (c, .StaleLease)

def cancelAll (c : ScanCoordinator) : ScanCoordinator := c.terminateAll .Cancelled

def failAll (c : ScanCoordinator) : ScanCoordinator := c.terminateAll .Failed

def invalidateAll (c : ScanCoordinator) : ScanCoordinator := c.terminateAll .Invalidated

def isEnumerate (key : WorkKey) : Bool := key.kind = .EnumerateDirectory

def cancelScanWork (c : ScanCoordinator) : ScanCoordinator :=
  c.terminateMatching .Cancelled isEnumerate

def failScanWork (c : ScanCoordinator) : ScanCoordinator := c.terminateMatching .Failed isEnumerate

def invalidateScanWork (c : ScanCoordinator) : ScanCoordinator :=
  c.terminateMatching .Invalidated isEnumerate

/-- One turn of the first loop of `invalidate_prefix`: an item counts when its key was pending. -/
def invalidatePending (acc : ScanCoordinator × Nat) (e : WorkPriority × QueuedWork) :
    ScanCoordinator × Nat :=
  (acc.1.dropPending e.1 e.2 e.2.key,
    if acc.1.pending.contains e.2.key then satAdd 64 acc.2 1 else acc.2)

def invalidateActive (acc : ScanCoordinator × Nat) (id : LeaseId) : ScanCoordinator × Nat :=
  ((acc.1.removeActive id).1, if (acc.1.removeActive id).2.isSome then satAdd 64 acc.2 1 else acc.2)

def underPrefix (generation : ScanGeneration) (pre : RelativePath) (key : WorkKey) : Bool :=
  key.generation = generation && key.path.startsWith pre

def invalidatePrefix (c : ScanCoordinator) (generation : ScanGeneration) (pre : RelativePath) :
    ScanCoordinator × Invalidation :=
  let pending := (c.queues.pendingUnder generation pre).foldl invalidatePending (c, 0)
  let counted := pending.1.recordTerminal .Invalidated pending.2
  let stale := counted.activeMatching (underPrefix generation pre)
  let active := stale.foldl invalidateActive (counted, 0)
  (active.1.recordTerminal .Invalidated active.2, ⟨pending.2, active.2⟩)

def advanceTo (c : ScanCoordinator) (generation : ScanGeneration) : ScanCoordinator × Bool :=
  if generation ≤ c.generation then (c, false)
  else
    let ended := c.terminateMatching .Invalidated fun key => key.kind.isScanWork
    ({ ended with
        generation := generation
        focusPaths := []
        focusEpoch := ended.focusEpoch + 1
        nonBackgroundLeases := 0
        terminal := ⟨0, 0, 0, 0⟩ },
      true)

def advanceGeneration (c : ScanCoordinator) : ScanCoordinator × Option ScanGeneration :=
  if c.generation.value.toNat = satMax 64 then (c, none)
  else ((c.advanceTo ⟨c.generation.value + 1⟩).1, some ⟨c.generation.value + 1⟩)

/-! ## Calls and answers -/

inductive Call where
  | schedule (key : WorkKey) (priority : WorkPriority)
  | focus (path : RelativePath)
  | leaseNext
  | leaseNextScan
  | leaseExact (key : WorkKey)
  | finish (lease : WorkLease) (completion : WorkCompletion)
  | requeue (lease : WorkLease)
  | cancelAll
  | failAll
  | invalidateAll
  | cancelScanWork
  | failScanWork
  | invalidateScanWork
  | invalidatePrefix (generation : ScanGeneration) (pre : RelativePath)
  | advanceTo (generation : ScanGeneration)
  | advanceGeneration

inductive Answer where
  | done
  | scheduled (outcome : ScheduleOutcome)
  | leased (lease : Option WorkLease)
  | finished (outcome : CompletionOutcome)
  | requeued (outcome : RequeueOutcome)
  | invalidated (count : Invalidation)
  | advanced (moved : Bool)
  | generation (next : Option ScanGeneration)
  deriving DecidableEq

def answer (c : ScanCoordinator) : Call → ScanCoordinator × Answer
  | .schedule key priority => (c.schedule key priority).map id .scheduled
  | .focus path => (c.focus path, .done)
  | .leaseNext => c.leaseNext.map id .leased
  | .leaseNextScan => c.leaseNextScan.map id .leased
  | .leaseExact key => (c.leaseExact key).map id .leased
  | .finish lease completion => (c.finish lease completion).map id .finished
  | .requeue lease => (c.requeue lease).map id .requeued
  | .cancelAll => (c.cancelAll, .done)
  | .failAll => (c.failAll, .done)
  | .invalidateAll => (c.invalidateAll, .done)
  | .cancelScanWork => (c.cancelScanWork, .done)
  | .failScanWork => (c.failScanWork, .done)
  | .invalidateScanWork => (c.invalidateScanWork, .done)
  | .invalidatePrefix generation pre => (c.invalidatePrefix generation pre).map id .invalidated
  | .advanceTo generation => (c.advanceTo generation).map id .advanced
  | .advanceGeneration => c.advanceGeneration.map id .generation

def machine : Machine ScanCoordinator Call Answer := ⟨answer⟩

/-- An answer that hands out a lease. -/
def Answer.granted : Answer → Option WorkLease
  | .leased lease => lease
  | _ => none

def grants (h : List (Call × Answer)) : Nat := h.countP fun e => e.2.granted.isSome

end ScanCoordinator

end Excise
