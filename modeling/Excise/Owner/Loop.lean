import Excise.Lib.Machine
import Excise.Owner.App
import Excise.Store.EngineGenerations

/-!
# The owner loop and the store thread

The part of `OwnerLoop` in `runtime/mod.rs` that scans, publishes and rebuilds, beside the thread
that applies the store's commands. A step is one turn of one of the loop's calls, or one command of
the thread, in any order. The worker pool and the deletion executor are what they report. An error
ends the program, and no step follows it.
-/

namespace Excise
set_option autoImplicit false

/-- A deletion that removed something: its target, when an overlay can describe it, and the newest
generation begun before it ended. -/
structure EndedRemoval where
  target : Option RelativePath
  since : Option ScanGeneration

structure OwnerLoop where
  app : App
  primaryScanActive : Bool
  rebuildActive : Bool
  primaryReduction : Bool
  /-- The scanner's finish is still to come. -/
  scanning : Bool
  engine : StoreEngine
  /-- The commands the thread has applied. -/
  applied : List StoreCommand
  removals : List EndedRemoval

def storeResultCapacity : Nat := 8

/-- What the scanner says of work it could not do: the text of a full scan store, if it is that. -/
structure ScanProblem where
  relative : Option RelativePath
  capacity : Option String

namespace OwnerLoop

/-- All that was sent to the thread. -/
def sent (s : OwnerLoop) : List StoreCommand := s.applied ++ s.app.scanStore.queued

/-- The session as its loop begins: the store on its thread, the first page empty. -/
def start (session : ScanSessionId) (first : ScanGeneration) (page : SnapshotTree) : OwnerLoop where
  app :=
    { map :=
        { loaded := false
          scanStoreAvailable := true
          scanStoreFailure := none
          rebuildRequired := false
          rebuildActive := false
          rebuildRestartSuppressed := false
          rebuildInvalidated := false
          rebuildTarget := none
          publications := []
          finishedPublications := []
          refreshOwed := false
          removedButListed := []
          removals := .empty }
      view :=
        { pageCache := some (.new page none)
          pageIsProvisional := true
          filter := none
          pageHistory := []
          provisionalPageWaiting := none
          pendingNavigation := none }
      scanStore := .started first }
  primaryScanActive := true
  rebuildActive := false
  primaryReduction := false
  scanning := true
  engine := ⟨ScanStore.new session first, false⟩
  applied := []
  removals := []

variable (env : OwnerEnv)

/-! ## The loop -/

def startPendingGenerationRebuild (s : OwnerLoop) : Option OwnerLoop :=
  if s.primaryScanActive || s.rebuildActive then some s
  else
    (s.app.beginGenerationRebuild env).map fun begun =>
      if begun.2 then { s with app := begun.1, rebuildActive := true, scanning := true }
      else { s with app := begun.1 }

variable (w : CallWorld)

def completeGenerationRebuild (cancelled : Bool) (failure : Option OwnerFailure) (s : OwnerLoop) :
    Option OwnerLoop :=
  let ended := if cancelled then s.app.cancelGenerationRebuild env w
    else s.app.finishGenerationRebuild env w failure
  ended.bind fun app => { s with rebuildActive := false, app := app }.startPendingGenerationRebuild env

def finishGenerationRebuild (cancelled : Bool) (s : OwnerLoop) : Option OwnerLoop :=
  if cancelled then s.completeGenerationRebuild env w true none
  else some { s with app := s.app.beginRebuildPublication env }

def finishPrimaryScan (cancelled : Bool) (s : OwnerLoop) : Option OwnerLoop :=
  let s := { s with primaryScanActive := false }
  if cancelled then
    (s.app.cancelPrimaryScan env).bind fun app =>
      { s with app := app }.startPendingGenerationRebuild env
  else some { s with primaryReduction := true, app := s.app.beginPrimaryPublication env w }

def completePrimaryScan (s : OwnerLoop) : Option OwnerLoop :=
  if s.primaryReduction then
    { s with primaryReduction := false, app := s.app.startUi env w }.startPendingGenerationRebuild env
  else none

/-- One turn of the loop over the publications that ended. -/
def finishNextPublication (s : OwnerLoop) : Option OwnerLoop :=
  let taken := s.app.takeFinishedPublication
  let s := { s with app := taken.1 }
  match taken.2 with
  | none => some s
  | some .Primary => s.completePrimaryScan env w
  | some (.Rebuild failure) => s.completeGenerationRebuild env w false failure
  | some .RebuildCancelled => s.completeGenerationRebuild env w true none

def scanFinished (cancelled : Bool) (s : OwnerLoop) : Option OwnerLoop :=
  if s.scanning then
    let s := { s with scanning := false }
    if s.rebuildActive then s.finishGenerationRebuild env w cancelled
    else s.finishPrimaryScan env w cancelled
  else some s

/-- `handle_failed_scan_work`; the summary is left out. -/
def handleFailedScanWork (problem : ScanProblem) (s : OwnerLoop) : OwnerLoop :=
  match problem.capacity with
  | some message =>
    { s with app := s.app.noteScanStoreCapacityFailureFromWorker env message }
  | none =>
    { s with app := s.app.recordScanStoreUnrecordedPath.recordUnreadableDirectory problem.relative }

def handleScanPathGone (problem : ScanProblem) (executing : Option RelativePath) (s : OwnerLoop) :
    OwnerLoop :=
  let removed := s.app.pathRemovedByADeletion problem.relative executing
  let s := { s with app := removed.1 }
  if removed.2 then s else s.handleFailedScanWork env problem

/-- `admit_coverage_runs`: a batch with runs comes with its lease. -/
def admitCoverageRuns (lease : WorkLease) (runs : List FactRun) (s : OwnerLoop) : OwnerLoop :=
  if runs.isEmpty then { s with app := s.app.recordScanStoreUnrecordedPath }
  else { s with app := s.app.admitScanInputRuns env lease runs }

/-- `handle_primary_unscanned`: what a deletion explains is excused, unless a rebuild scans. -/
def handlePrimaryUnscanned (lease : WorkLease) (runs : List FactRun) (relative : Option RelativePath)
    (replaced : Bool) (executing : Option RelativePath) (s : OwnerLoop) : OwnerLoop :=
  if !s.rebuildActive && replaced then
    let removed := s.app.pathRemovedByADeletion relative executing
    let s := { s with app := removed.1 }
    if !removed.2 || !runs.isEmpty then s.admitCoverageRuns env lease runs else s
  else s.admitCoverageRuns env lease runs

/-- `reconcile_deletion_report` of a deletion that was executing. -/
def reconcileDeletionReport (report : DeletionReport) (s : OwnerLoop) : Option OwnerLoop :=
  let ended : List EndedRemoval :=
    if report.deletedEntries = 0 then []
    else [⟨report.removedPrefix.filter fun _ => s.app.removalCanBeDescribed report,
      s.app.scanStore.latestGeneration⟩]
  { s with
    app := s.app.completeDeletion env w report
    removals := s.removals ++ ended }.startPendingGenerationRebuild env

def cancelRebuildOnRequest (s : OwnerLoop) : OwnerLoop :=
  if s.rebuildActive then { s with app := s.app.suppressGenerationRebuildRestart } else s

/-! ## The thread -/

/-- The thread takes a command once the result before it went out; the one in hand is past those
the queue holds. -/
def threadStep (io : EngineIo) (s : OwnerLoop) : OwnerLoop :=
  match s.app.scanStore.backend with
  | .Threaded (command :: commands) results false =>
    if storeResultCapacity < results.length then s
    else
      let done := s.engine.apply io command
      { s with
        engine := done.1
        applied := s.applied ++ [command]
        app := { s.app with scanStore := { s.app.scanStore with
          backend := .Threaded commands (results ++ done.2.toList) false } } }
  | _ => s

/-- The thread ends: its session stopped, or it panicked. -/
def threadStop (s : OwnerLoop) : OwnerLoop :=
  match s.app.scanStore.backend with
  | .Threaded commands results _ =>
    { s with app := { s.app with scanStore := { s.app.scanStore with
      backend := .Threaded commands results true } } }
  | _ => s

end OwnerLoop

/-! ## Steps -/

/-- The calls the loop makes, with what each of them meets, and the moves of the thread. -/
inductive LoopStep where
  | storeEvent (w : CallWorld)
  | waitingPage (w : CallWorld)
  | finishedPublication (w : CallWorld)
  | pendingRebuild
  | landedRefresh
  | scanBatch (lease : WorkLease) (runs : List FactRun)
  | scanUnscanned (lease : WorkLease) (runs : List FactRun) (relative : Option RelativePath)
      (replaced : Bool) (executing : Option RelativePath)
  | scanFailed (problem : ScanProblem)
  | scanPathGone (problem : ScanProblem) (executing : Option RelativePath)
  | scanFinished (cancelled : Bool) (w : CallWorld)
  | deletionFinished (report : DeletionReport) (w : CallWorld)
  | executionEnded (w : CallWorld)
  | cancelRebuild
  | refreshBoard (w : CallWorld)
  | navigate (folder : RelativePath) (w : CallWorld)
  | nextPage (w : CallWorld)
  | previousPage (w : CallWorld)
  | applyFilter (pattern : Option FilterPattern) (w : CallWorld)
  | threadStep (io : EngineIo)
  | threadStop

namespace OwnerLoop

/-- A call of the app alone. -/
def onApp (f : App → App) (s : OwnerLoop) : Option OwnerLoop := some { s with app := f s.app }

def step? (env : OwnerEnv) (s : OwnerLoop) : LoopStep → Option OwnerLoop
  | .storeEvent w => s.onApp (App.processNextEvent env w)
  | .waitingPage w => s.onApp (App.applyWaitingProvisionalPage env w)
  | .finishedPublication w => s.finishNextPublication env w
  | .pendingRebuild => s.startPendingGenerationRebuild env
  | .landedRefresh => s.onApp fun app => app.takeLandedRefresh.1
  | .scanBatch lease runs => s.onApp (App.admitScanInputRuns env lease runs)
  | .scanUnscanned lease runs relative replaced executing =>
    some (s.handlePrimaryUnscanned env lease runs relative replaced executing)
  | .scanFailed problem => some (s.handleFailedScanWork env problem)
  | .scanPathGone problem executing => some (s.handleScanPathGone env problem executing)
  | .scanFinished cancelled w => s.scanFinished env w cancelled
  | .deletionFinished report w => s.reconcileDeletionReport env w report
  | .executionEnded w => s.onApp (App.excusedExecutionEnded env w false)
  | .cancelRebuild => some s.cancelRebuildOnRequest
  | .refreshBoard w => s.onApp (App.refreshBoardFromScan env w)
  | .navigate folder w => s.onApp (App.navigate env w folder)
  | .nextPage w => s.onApp (App.nextSnapshotPage env w)
  | .previousPage w => s.onApp fun app => (app.previousSnapshotPage env (w.page 0)).1
  | .applyFilter pattern w => s.onApp (App.applyFilter env w pattern)
  | .threadStep io => some (s.threadStep io)
  | .threadStop => some s.threadStop

/-- A step that ends the program leaves its last state. -/
def machine (env : OwnerEnv) : Machine OwnerLoop LoopStep Bool where
  step s a :=
    match s.step? env a with
    | some s' => (s', true)
    | none => (s, false)

end OwnerLoop

end Excise
