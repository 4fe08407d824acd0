import Excise.Coordinator.Actor
import Excise.Owner.Loop

/-!
# The lease of a rebuild

The owner loop beside the session coordinator. The owner moves the coordinator to every generation it
begins, takes one lease for the rebuild it asks the scanner for, and hands it back when the rebuild
is over; the scanner and the deletion workers make their calls in between. Another generation ends
every lease of scan work, the rebuild's among them.
-/

namespace Excise
set_option autoImplicit false

/-- A call another client of the coordinator makes: none names the refresh of a tree. -/
def ScanCoordinator.Call.isShared : ScanCoordinator.Call → Bool
  | .schedule key _ | .leaseExact key => decide (key.kind ≠ .RefreshSubtree)
  | .finish lease _ | .requeue lease => decide (lease.key.kind ≠ .RefreshSubtree)
  | .focus _ | .leaseNextScan | .cancelScanWork | .failScanWork | .invalidateScanWork => true
  | _ => false

structure SharedCall where
  call : ScanCoordinator.Call
  shared : call.isShared = true

/-- The coordinator and the lease of the rebuild, `generation_rebuild_lease` of the worker pool. -/
structure RebuildWork where
  coordinator : ScanCoordinator
  lease : Option WorkLease

namespace RebuildWork

/-- What the owner asks of the coordinator with a command it sends: a rebuild is refused as its
generation or its lease is. -/
def follow (x : RebuildWork) : StoreCommand → Option RebuildWork
  | .BeginGeneration generation =>
    let advanced := x.coordinator.advance generation
    if advanced.2 then
      let acquired := advanced.1.acquire .RefreshSubtree .root .Foreground
      acquired.2.map fun lease => ⟨acquired.1, some lease⟩
    else none
  | .Overlay request => some { x with coordinator := (x.coordinator.advance request.generation).1 }
  | _ => some x

/-- `finish_generation_rebuild`: the program ends with a lease that is not accepted. -/
def handBack (completion : WorkCompletion) (x : RebuildWork) : Option RebuildWork :=
  x.lease.bind fun lease =>
    let finished := x.coordinator.finish lease completion
    if finished.2 = .Accepted then some ⟨finished.1, none⟩ else none

end RebuildWork

structure RebuildSession where
  loop : OwnerLoop
  work : RebuildWork

inductive SessionStep where
  | loop (step : LoopStep)
  | shared (call : SharedCall)

namespace RebuildSession

def start (session : ScanSessionId) (first : ScanGeneration) (page : SnapshotTree) : RebuildSession where
  loop := .start session first page
  work := ⟨.new session first, none⟩

/-- How a step of the loop ends a rebuild, if it does. -/
def completion (s : OwnerLoop) : LoopStep → Option WorkCompletion
  | .finishedPublication _ =>
    match s.app.map.finishedPublications with
    | .Rebuild _ :: _ => some .Succeeded
    | .RebuildCancelled :: _ => some .Cancelled
    | _ => none
  | .scanFinished cancelled _ =>
    if s.scanning && s.rebuildActive && cancelled then some .Cancelled else none
  | _ => none

/-- The lease of a rebuild that is over goes back before the app ends it. -/
def handedBack (s : RebuildSession) (a : LoopStep) : Option RebuildWork :=
  match completion s.loop a with
  | some completion => s.work.handBack completion
  | none => some s.work

def step? (env : OwnerEnv) (s : RebuildSession) : SessionStep → Option RebuildSession
  | .loop a => do
    let work ← s.handedBack a
    let advances (generation : ScanGeneration) : Bool := (work.coordinator.advance generation).2
    let loop ← s.loop.step? { env with advances } a
    let work ← (loop.sent.drop s.loop.sent.length).foldlM RebuildWork.follow work
    some ⟨loop, work⟩
  | .shared call =>
    some { s with work := { s.work with coordinator := (s.work.coordinator.answer call.call).1 } }

/-- A step that ends the program leaves its last state. -/
def machine (env : OwnerEnv) : Machine RebuildSession SessionStep Bool where
  step s a :=
    match s.step? env a with
    | some s' => (s', true)
    | none => (s, false)

end RebuildSession

end Excise
