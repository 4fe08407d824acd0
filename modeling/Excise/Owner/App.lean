import Excise.Deletion.Plan
import Excise.Owner.ListedPage
import Excise.Owner.PageCache
import Excise.Store.StoreEvents

/-!
# The owner

`App` of `app.rs`: the map the reader sees, what the store thread still owes, and what deletions
removed that the map still lists. The board, the interface modes and their texts are left out; what
a call shows of the map is what its view holds. Where the source would panic for want of a page the
call leaves the state as it is.
-/

namespace Excise
set_option autoImplicit false

inductive PendingPublication where
  | Primary
  | Rebuild
  | Overlay (removed : RelativePath)
  deriving DecidableEq

/-- Why a page could not be loaded. -/
inductive PageLoadError where
  | liveOnly
  | notPublished
  | file
  | read (error : ScanPageError)
  | build (error : ModelError)

inductive OwnerFailure where
  | store (failure : StoreFailure)
  | page (error : PageLoadError)
  | worker (message : String)
  | capacityExhausted
  | neverPublished

inductive FinishedPublication where
  | Primary
  | Rebuild (failure : Option OwnerFailure)
  | RebuildCancelled

structure RemovalsBeforeFirstMap where
  prefixes : List RelativePath
  rebuild : Bool
  excusedUnderExecution : Bool
  recordedBeforeMap : Nat

namespace RemovalsBeforeFirstMap

/-- The default, which `clear` goes back to. -/
def empty : RemovalsBeforeFirstMap := ⟨[], false, false, 0⟩

def isEmpty (r : RemovalsBeforeFirstMap) : Bool := r.prefixes.isEmpty && !r.rebuild

end RemovalsBeforeFirstMap

namespace DeletionReport

def deletedEntries (report : DeletionReport) : Nat := report.entries.summary.deleted

def targetWasRemoved (report : DeletionReport) : Bool :=
  !report.softCancelled && report.precise && report.entries.complete && report.entries.targetRemoved

def deletedFilesMayHaveOtherLinks (report : DeletionReport) : Bool :=
  report.entries.summary.deletedWithOtherLinks

/-- `removed_prefix`: no deletion removes the scan root. -/
def removedPrefix (report : DeletionReport) : Option RelativePath :=
  if report.rootRelativePath.isRoot then none else some report.rootRelativePath

end DeletionReport

def maxRemovalsBeforeFirstMap : Nat := 8

def maxRemovedButListed : Nat := 32

def snapshotPageEntries : Nat := 512

def maxSnapshotPageHistory : Nat := 32

def relativeParentOrRoot (path : RelativePath) : RelativePath := ⟨path.components.dropLast⟩

/-! ## The state -/

/-- What the app keeps of its map: `scan_store_available` and the fields named after the rebuild,
the publications and the removals. -/
structure MapState where
  loaded : Bool
  scanStoreAvailable : Bool
  scanStoreFailure : Option OwnerFailure
  rebuildRequired : Bool
  rebuildActive : Bool
  rebuildRestartSuppressed : Bool
  rebuildInvalidated : Bool
  rebuildTarget : Option RelativePath
  publications : List PendingPublication
  finishedPublications : List FinishedPublication
  refreshOwed : Bool
  removedButListed : List RelativePath
  removals : RemovalsBeforeFirstMap

/-- What the app keeps of the page on screen. -/
structure MapView where
  pageCache : Option SnapshotPageCache
  pageIsProvisional : Bool
  filter : Option (FilterPattern × RelativePath)
  pageHistory : List (RelativePath × Option PageCursor)
  provisionalPageWaiting : Option (RelativePath × ScanPage)
  pendingNavigation : Option RelativePath

structure App where
  map : MapState
  view : MapView
  scanStore : StoreHandle

/-- What the owner is set up with: the tree it scans, the memory of a page, the coordinator's
answer to a new generation, and which maps no file describes. -/
structure OwnerEnv where
  scanRoot : NativePath
  layout : NodeLayout
  pageMemoryLimit : Nat
  advances : ScanGeneration → Bool
  detached : PublishedGeneration → Bool
  engine : EngineIo

/-- What loading one page meets: the entries on the disk, the storage totals, a file that cannot be
read. -/
structure PageWorld where
  live : RelativePath → Option LiveEntry
  stats : Nat × Nat
  fault : Bool

/-- What one call meets: each page it may load, and whether the map is moving. -/
structure CallWorld where
  page : Nat → PageWorld
  transitioning : Bool

/-! ## Pages -/

namespace MapView

def currentRelative (v : MapView) : RelativePath :=
  (v.pageCache.map fun cache => cache.current.currentRelative).getD .root

def liveViewFolder (v : MapView) : RelativePath := v.pendingNavigation.getD v.currentRelative

/-- A page takes its place among those held. -/
def hold (v : MapView) (tree : SnapshotTree) (after : Option PageCursor) : MapView :=
  { v with
    pageCache :=
      match v.pageCache with
      | some cache => some (cache.install tree after)
      | none => some (.new tree after) }

/-- Live pages go before the first page of a map comes. -/
def withoutLivePages (v : MapView) : MapView :=
  if v.pageIsProvisional then
    { v with pageCache := none, pageHistory := [], pageIsProvisional := false }
  else v

/-- And the pages of a map before a live one comes. -/
def withoutMapPages (v : MapView) : MapView :=
  if v.pageIsProvisional then v else { v with pageCache := none, pageHistory := [] }

variable (env : OwnerEnv) (w : PageWorld)

/-- The page a map answers, under the filter in force. -/
def readSnapshotPage (published : PublishedGeneration) (folder : RelativePath)
    (after : Option PageCursor) (v : MapView) : MapView × Option PageLoadError :=
  if w.fault then (v, some .file)
  else
    match published.readPage env.scanRoot v.filter ⟨folder, after, snapshotPageEntries⟩ with
    | .error error => (v, some (.read error))
    | .ok page =>
      match SnapshotTree.fromPage w.live env.layout env.scanRoot page env.pageMemoryLimit w.stats
          v.filter false with
      | .error error => (v, some (.build error))
      | .ok tree => (v.hold tree after, none)

def loadPublishedPage (published : PublishedGeneration) (folder : RelativePath)
    (after : Option PageCursor) (v : MapView) : MapView × Option PageLoadError :=
  match v.pageCache with
  | none => v.readSnapshotPage env w published folder after
  | some cache =>
    let activated := cache.activate ⟨published.manifest.generation, folder, after⟩
    if activated.2 then ({ v with pageCache := some activated.1 }, none)
    else v.readSnapshotPage env w published folder after

/-- `load_snapshot_page_after`, of the map installed. -/
def loadSnapshotPageAfter (published : Option PublishedGeneration) (folder : RelativePath)
    (after : Option PageCursor) (v : MapView) : MapView × Option PageLoadError :=
  match published with
  | none => (v.withoutLivePages, some .notPublished)
  | some published => v.withoutLivePages.loadPublishedPage env w published folder after

def installProvisionalSnapshot (page : ScanPage) (v : MapView) : MapView × Option PageLoadError :=
  match SnapshotTree.fromPage w.live env.layout env.scanRoot page env.pageMemoryLimit w.stats none
      true with
  | .error error => (v, some (.build error))
  | .ok tree =>
    ({ { v with filter := none }.withoutMapPages.hold tree none with pageIsProvisional := true }, none)

/-- The root without any entry, as before the first page of a scan. -/
def resetLoadingSnapshot (generation : ScanGeneration) (v : MapView) : MapView :=
  match SnapshotTree.fromPage w.live env.layout env.scanRoot (SnapshotTree.loadingPage generation)
      env.pageMemoryLimit w.stats none true with
  | .error _ => v
  | .ok tree => { v with pageCache := some (.new tree none), pageIsProvisional := true }

end MapView

/-- `SnapshotPageHistoryChange`. -/
inductive HistoryChange where
  | Reset
  | Push (prior : RelativePath × Option PageCursor)
  | Pop (previous : RelativePath × Option PageCursor)

def HistoryChange.applyTo (history : List (RelativePath × Option PageCursor)) :
    HistoryChange → List (RelativePath × Option PageCursor)
  | .Reset => []
  | .Push prior =>
    (if history.length = maxSnapshotPageHistory then history.drop 1 else history) ++ [prior]
  | .Pop previous => if history.getLast? = some previous then history.dropLast else history

namespace App

/-! ## Questions -/

def usesProvisionalScanPage (a : App) : Bool :=
  a.view.pageIsProvisional && a.map.scanStoreAvailable && a.scanStore.accepting.isSome &&
    (!a.map.loaded || a.map.rebuildActive)

def canRetainPublishedSnapshot (a : App) : Bool :=
  !a.view.pageIsProvisional && a.view.pageCache.isSome && a.scanStore.published.isSome

def removalChainPending (a : App) : Bool :=
  a.map.scanStoreAvailable && !a.map.removals.prefixes.isEmpty && a.scanStore.published.isSome

def scanStoreBusy (a : App) : Bool :=
  !a.map.publications.isEmpty || !a.map.finishedPublications.isEmpty || a.removalChainPending

def navigationWaitsForStore (a : App) : Bool :=
  a.view.pageIsProvisional && a.map.scanStoreAvailable &&
    (a.scanStore.accepting.isSome ||
      a.map.publications.any fun p => decide (p = .Primary) || decide (p = .Rebuild))

def firstMapIsOwed (a : App) : Bool :=
  a.map.scanStoreAvailable && !a.map.loaded && a.scanStore.published.isNone &&
    !a.map.rebuildRequired && !a.map.rebuildActive

def removalCanBeDescribed (a : App) (report : DeletionReport) : Bool :=
  a.map.scanStoreAvailable && report.targetWasRemoved && !report.deletedFilesMayHaveOtherLinks

/-- Loading from a live view fails before anything is touched. -/
def loadSnapshotPageAfter (env : OwnerEnv) (w : PageWorld) (folder : RelativePath)
    (after : Option PageCursor) (a : App) : App × Option PageLoadError :=
  if a.usesProvisionalScanPage then (a, some .liveOnly)
  else
    let loaded := a.view.loadSnapshotPageAfter env w a.scanStore.published folder after
    ({ a with view := loaded.1 }, loaded.2)

def loadSnapshotPage (env : OwnerEnv) (w : PageWorld) (folder : RelativePath) (a : App) :
    App × Option PageLoadError :=
  { a with view := { a.view with pageHistory := [] } }.loadSnapshotPageAfter env w folder none

/-- One folder, or else the other. -/
def loadEither (env : OwnerEnv) (w : CallWorld) (folder other : RelativePath) (a : App) :
    App × Option PageLoadError :=
  let first := a.loadSnapshotPage env (w.page 0) folder
  if first.2.isNone then first else first.1.loadSnapshotPage env (w.page 1) other

variable (env : OwnerEnv) (w : CallWorld)

def resetLoadingSnapshot (a : App) : App :=
  let generation := (a.scanStore.accepting.orElse fun _ =>
    a.scanStore.published.map fun p => p.manifest.generation).getD ⟨0⟩
  { a with view := a.view.resetLoadingSnapshot env (w.page 3) generation }

/-! ## Losing the map -/

/-- The store is asked to drop the active generation; that it cannot be reached is kept as the
failure unless one is known already. -/
def discardActive (a : App) : App :=
  match a.scanStore.discardActive env.engine with
  | .ok () store => { a with scanStore := store }
  | .error error store =>
    { a with
      scanStore := store
      map := { a.map with
        scanStoreFailure :=
          some (a.map.scanStoreFailure.getD (.store (.unavailable error))) } }

def abandonScanStoreGeneration (a : App) : App :=
  let a := a.discardActive env
  { a with map := { a.map with scanStoreAvailable := false, removals := .empty } }

def abandonScanStoreGenerationWithFailure (failure : OwnerFailure) (a : App) : App :=
  { a with map := { a.map with scanStoreFailure := some failure } }.abandonScanStoreGeneration env

def failScanStore (failure : OwnerFailure) (a : App) : App :=
  let a :=
    if a.map.scanStoreAvailable then a.abandonScanStoreGenerationWithFailure env failure else a
  { a with view := { a.view with pendingNavigation := none, provisionalPageWaiting := none } }

/-- Of what it shows only the filter it drops. -/
def showScanResultsUnavailable (a : App) : App := { a with view := { a.view with filter := none } }

def invalidateSnapshotViewForLiveMutation (a : App) : App :=
  let a := { a with view :=
    { a.view with pendingNavigation := none, provisionalPageWaiting := none } }.discardActive env
  let retains := a.canRetainPublishedSnapshot
  let a := { a with
    map := { a.map with
      scanStoreAvailable := retains
      rebuildInvalidated := a.map.rebuildInvalidated || a.map.rebuildActive
      rebuildRestartSuppressed := false
      rebuildRequired := true
      removals := .empty } }
  if retains then a
  else { a with view := { a.view with filter := none, pageHistory := [] } }.resetLoadingSnapshot env w

/-! ## Live pages -/

def requestLivePage (a : App) : App :=
  match a.scanStore.requestProvisionalPage env.engine a.view.liveViewFolder snapshotPageEntries with
  | .ok () store => { a with scanStore := store }
  | .error error store =>
    { a with scanStore := store }.failScanStore env (.store (.unavailable error))

def refreshBoardFromScan (a : App) : App :=
  if w.transitioning || !a.usesProvisionalScanPage then a else a.requestLivePage env

/-- A drill that waited for this page opens with it; a page that waited for the map is dropped. -/
def showProvisionalPage (folder : RelativePath) (page : ScanPage) (a : App) : App :=
  let view := { a.view with provisionalPageWaiting := none }
  if view.pendingNavigation = some folder then
    let shown := { view with pendingNavigation := none }.installProvisionalSnapshot env (w.page 0) page
    match shown.2 with
    | some _ => { a with view := shown.1 }
    | none => { a with view := { shown.1 with pageHistory := [] } }
  else
    let shown := view.installProvisionalSnapshot env (w.page 0) page
    match shown.2 with
    | some error => { a with view := shown.1 }.failScanStore env (.page error)
    | none => { a with view := shown.1 }

def applyProvisionalPage (folder : RelativePath) (page : Except ScanStoreError ScanPage) (a : App) :
    App :=
  if !a.usesProvisionalScanPage || decide (folder ≠ a.view.liveViewFolder) then a
  else
    match page with
    | .error error => a.failScanStore env (.store (.store error))
    | .ok page =>
      if a.view.pendingNavigation.isNone && w.transitioning then
        { a with view := { a.view with provisionalPageWaiting := some (folder, page) } }
      else a.showProvisionalPage env w folder page

def applyWaitingProvisionalPage (a : App) : App :=
  if w.transitioning then a
  else
    match a.view.provisionalPageWaiting with
    | none => a
    | some (folder, page) =>
      let a := { a with view := { a.view with provisionalPageWaiting := none } }
      if !a.usesProvisionalScanPage || decide (folder ≠ a.view.liveViewFolder) then a
      else a.showProvisionalPage env w folder page

/-! ## Navigation -/

/-- The history changes only after the page was loaded. -/
def beginSnapshotPageNavigation (world : PageWorld) (folder : RelativePath)
    (after : Option PageCursor) (change : HistoryChange) (a : App) : App × Bool :=
  if !a.map.scanStoreAvailable then (a, false)
  else
    let loaded := a.loadSnapshotPageAfter env world folder after
    match loaded.2 with
    | some _ => (loaded.1, false)
    | none =>
      let history := change.applyTo loaded.1.view.pageHistory
      ({ loaded.1 with view := { loaded.1.view with pageHistory := history } }, true)

def performNavigation (world : PageWorld) (folder : RelativePath) (a : App) : App :=
  (a.beginSnapshotPageNavigation env world folder none .Reset).1

def navigate (folder : RelativePath) (a : App) : App :=
  if a.view.pendingNavigation.isSome then a
  else if a.navigationWaitsForStore then
    let a := { a with view := { a.view with pendingNavigation := some folder } }
    if a.usesProvisionalScanPage then a.requestLivePage env else a
  else a.performNavigation env (w.page 0) folder

def resumePendingNavigation (a : App) : App :=
  match a.view.pendingNavigation with
  | none => a
  | some folder =>
    let a := { a with view := { a.view with pendingNavigation := none } }
    if a.map.scanStoreAvailable then a.performNavigation env (w.page 2) folder else a

def nextSnapshotPage (a : App) : App :=
  match a.view.pageCache with
  | none => a
  | some cache =>
    match cache.current.nextAfter with
    | none => a
    | some after =>
      (a.beginSnapshotPageNavigation env (w.page 0) cache.current.currentRelative (some after)
        (.Push (cache.current.currentRelative, cache.currentAfter))).1

def previousSnapshotPage (world : PageWorld) (a : App) : App × Bool :=
  match a.view.pageHistory.getLast? with
  | none => (a, false)
  | some previous =>
    a.beginSnapshotPageNavigation env world previous.1 previous.2 (.Pop previous)

/-- No entry of the page on screen is shown. -/
def viewIsEmpty (a : App) : Bool :=
  a.view.pageCache.all fun cache =>
    ((((cache.current.node? cache.current.currentId).map Node.children).getD []).filter
      fun id => !cache.current.isRemoved id a.map.removedButListed).all
        fun id => (cache.current.node? id).isNone

/-- The loop of `leave_the_pages_removals_emptied`; each turn that goes on takes a page off the
history. -/
def leavePages : Nat → App → App
  | 0, a => a
  | fuel + 1, a =>
    if a.view.pageHistory.isEmpty || !a.viewIsEmpty then a
    else
      let went := a.previousSnapshotPage env (w.page (4 + fuel))
      if went.2 then leavePages fuel went.1 else went.1

def leaveThePagesRemovalsEmptied (a : App) : App := a.leavePages env w a.view.pageHistory.length

/-- The cached pages stay aside until the filtered page has loaded. -/
def applyFilter (pattern : Option FilterPattern) (a : App) : App :=
  match a.view.pageCache with
  | none => a
  | some cache =>
    if a.usesProvisionalScanPage then { a with view := { a.view with filter := none } }
    else
      let folder := cache.current.currentRelative
      let filter := pattern.map fun pattern => (pattern, folder)
      let loaded := { a with view := { a.view with
        filter := filter, pageCache := none, pageHistory := [] } }.loadSnapshotPage env (w.page 0) folder
      if loaded.2.isSome then a else loaded.1

/-! ## Removals -/

def hideRemovedTarget (report : DeletionReport) (a : App) : App :=
  match report.removedPrefix with
  | none => a
  | some target =>
    let listed := a.map.removedButListed
    let kept := if listed.length = maxRemovedButListed then listed.drop 1 else listed
    { a with map := { a.map with removedButListed := kept ++ [target] } }

def recordRemovalBeforeFirstMap (report : DeletionReport) (a : App) : App :=
  let described := a.removalCanBeDescribed report
  let removals := a.map.removals
  match report.removedPrefix with
  | some removed =>
    if removals.prefixes.length < maxRemovalsBeforeFirstMap then
      { a with map := { a.map with removals := { removals with
        rebuild := removals.rebuild || !described
        prefixes := removals.prefixes ++ [removed]
        recordedBeforeMap := removals.recordedBeforeMap + 1 } } }
    else { a with map := { a.map with removals := { removals with rebuild := true } } }
  | none => { a with map := { a.map with removals := { removals with rebuild := true } } }

def settleRemovalsBeforeFirstMap (a : App) : App :=
  if a.map.removals.isEmpty then a
  else if !a.map.scanStoreAvailable || a.scanStore.published.isNone then
    { a with map := { a.map with removals := .empty } }
  else if a.map.removals.rebuild then a.invalidateSnapshotViewForLiveMutation env w
  else a

/-- The overlay of the removal that finished first, once nothing is published. -/
def startNextRemovalOverlay (a : App) : App :=
  if !a.map.scanStoreAvailable || !a.map.publications.isEmpty || a.scanStore.published.isNone then a
  else
    match a.map.removals.prefixes with
    | [] => a
    | removed :: later =>
      let removals := { a.map.removals with prefixes := later }
      let a := { a with map := { a.map with removals := removals } }
      match a.scanStore.nextGeneration with
      | none => a.invalidateSnapshotViewForLiveMutation env w
      | some next =>
        let verifyRoot := decide (0 < removals.recordedBeforeMap)
        let removals := { removals with recordedBeforeMap := removals.recordedBeforeMap - 1 }
        let a := { a with map := { a.map with removals := removals } }
        match a.scanStore.beginOverlay env.engine env.detached next removed later verifyRoot with
        | .error _ store => { a with scanStore := store }.invalidateSnapshotViewForLiveMutation env w
        | .ok () store =>
          let a := { a with
            scanStore := store
            map := { a.map with publications := a.map.publications ++ [.Overlay removed] } }
          if env.advances next then a else a.invalidateSnapshotViewForLiveMutation env w

def reconcileGenerationAfterDeletion (report : DeletionReport) (a : App) : App :=
  if report.deletedEntries = 0 then a
  else if a.firstMapIsOwed then a.recordRemovalBeforeFirstMap report
  else
    match report.removedPrefix.filter fun _ => a.removalCanBeDescribed report with
    | none => a.invalidateSnapshotViewForLiveMutation env w
    | some removed =>
      if a.scanStore.published.isNone ||
          a.map.publications.any (fun p => decide (p = .Primary) || decide (p = .Rebuild)) ||
          decide (maxRemovalsBeforeFirstMap ≤ a.map.removals.prefixes.length) then
        a.invalidateSnapshotViewForLiveMutation env w
      else
        let removals := { a.map.removals with prefixes := a.map.removals.prefixes ++ [removed] }
        { a with map := { a.map with removals := removals } }.startNextRemovalOverlay env w

def excusedExecutionEnded (described : Bool) (a : App) : App :=
  let excused := a.map.removals.excusedUnderExecution
  let a := { a with map := { a.map with
    removals := { a.map.removals with excusedUnderExecution := false } } }
  if !excused || described then a
  else if a.firstMapIsOwed then
    { a with map := { a.map with removals := { a.map.removals with rebuild := true } } }
  else if a.map.scanStoreAvailable && a.scanStore.published.isSome then
    a.invalidateSnapshotViewForLiveMutation env w
  else a

/-- `described` of `complete_deletion`. -/
def describes (a : App) (report : DeletionReport) : Bool :=
  decide (0 < report.deletedEntries) && report.removedPrefix.isSome && a.removalCanBeDescribed report

def completeDeletion (report : DeletionReport) (a : App) : App :=
  let deleted := decide (0 < report.deletedEntries)
  let a := { a with map := { a.map with refreshOwed := a.map.refreshOwed || deleted } }
  let a := if deleted && report.targetWasRemoved then a.hideRemovedTarget report else a
  let described := a.describes report
  let a := a.reconcileGenerationAfterDeletion env w report
  (a.excusedExecutionEnded env w described).leaveThePagesRemovalsEmptied env w

/-- Whether a directory the scan found gone lies where a deletion removed it; `executing` is the
target of the one under way. -/
def pathRemovedByADeletion (relative : Option RelativePath) (executing : Option RelativePath)
    (a : App) : App × Bool :=
  match relative.filter fun _ => a.firstMapIsOwed with
  | none => (a, false)
  | some relative =>
    if a.map.removals.prefixes.any fun removed => relative.startsWith removed then (a, true)
    else if executing.any fun target => relative.startsWith target then
      ({ a with map := { a.map with
        removals := { a.map.removals with excusedUnderExecution := true } } }, true)
    else (a, false)

/-! ## Publications -/

def beginPublication (pending : PendingPublication) (a : App) : App × Bool :=
  if !a.map.scanStoreAvailable then (a, false)
  else
    match a.scanStore.beginPublication env.engine with
    | .error error store =>
      ({ a with scanStore := store }.abandonScanStoreGenerationWithFailure env
        (.store (.unavailable error)), false)
    | .ok () store =>
      ({ a with
        scanStore := store
        map := { a.map with publications := a.map.publications ++ [pending] } }, true)

/-- A publication is over for the loop to finish its part of. -/
def finished (publication : FinishedPublication) (a : App) : App :=
  { a with map := { a.map with
    finishedPublications := a.map.finishedPublications ++ [publication] } }

def beginPrimaryPublication (a : App) : App :=
  let begun := a.beginPublication env .Primary
  if begun.2 then begun.1
  else
    (begun.1.settleRemovalsBeforeFirstMap env w).showScanResultsUnavailable.finished .Primary

def showPublishedMap (current : RelativePath) (a : App) : App :=
  let loaded := { a with view := { a.view with
    pageCache := none, pageIsProvisional := false, pageHistory := [], filter := none
    provisionalPageWaiting := none } }.loadEither env w current .root
  match loaded.2 with
  | none => loaded.1
  | some error =>
    let a := { loaded.1 with map := { loaded.1.map with
      scanStoreAvailable := false, scanStoreFailure := some (.page error) } }.resetLoadingSnapshot env w
    { a with view := { a.view with pendingNavigation := none } }.showScanResultsUnavailable

/-- The publication is installed, or the store given up on; true when its map can be shown. -/
def takePrimaryPublication (result : Except StoreFailure Publication) (a : App) : App × Bool :=
  match result with
  | .ok publication =>
    if a.map.scanStoreAvailable then
      let a := { a with scanStore := a.scanStore.install publication }
      if a.scanStore.isSummaryOnly then
        ({ a with map := { a.map with
          scanStoreAvailable := false, scanStoreFailure := some .capacityExhausted } }, false)
      else (a, true)
    else (a, false)
  | .error failure =>
    (if a.map.scanStoreAvailable then a.abandonScanStoreGenerationWithFailure env (.store failure)
      else a, false)

def completePrimaryPublication (result : Except StoreFailure Publication) (a : App) : App :=
  let current := a.view.currentRelative
  let taken := a.takePrimaryPublication env result
  let a := if taken.2 then taken.1.showPublishedMap env w current
    else taken.1.showScanResultsUnavailable
  ((a.settleRemovalsBeforeFirstMap env w).finished .Primary).resumePendingNavigation env w

def completeRebuildPublication (result : Except StoreFailure Publication) (a : App) : App :=
  if a.map.rebuildRestartSuppressed then a.finished .RebuildCancelled
  else if a.map.scanStoreAvailable then
    match result with
    | .error failure => a.finished (.Rebuild (some (.store failure)))
    | .ok publication =>
      let a := { a with scanStore := a.scanStore.install publication }
      a.finished (.Rebuild (if a.scanStore.isSummaryOnly then some .capacityExhausted else none))
  else a.finished (.Rebuild (some (a.map.scanStoreFailure.getD .neverPublished)))

def invalidateCachedPagesForOverlay (removed : RelativePath) (a : App) : App :=
  { a with view := { a.view with
    pageCache := none
    pageHistory := []
    filter := a.view.filter.filter fun filter => !filter.2.startsWith removed } }

/-- The map without `removed` arrived. -/
def installOverlay (publication : Publication) (removed : RelativePath) (a : App) : App :=
  let a := { a with scanStore := a.scanStore.install publication }
  if a.scanStore.isSummaryOnly then a.invalidateSnapshotViewForLiveMutation env w
  else
    let fallback := relativeParentOrRoot removed
    let current := a.view.currentRelative
    let desired := if current.startsWith removed then fallback else current
    let loaded := (a.invalidateCachedPagesForOverlay removed).loadEither env w desired fallback
    let a := if loaded.2.isSome then loaded.1.invalidateSnapshotViewForLiveMutation env w else loaded.1
    a.startNextRemovalOverlay env w

def completeOverlayPublication (result : Except StoreFailure Publication) (removed : RelativePath)
    (a : App) : App :=
  match result with
  | .ok publication =>
    if a.map.scanStoreAvailable then a.installOverlay env w publication removed else a
  | .error failure =>
    if a.map.scanStoreAvailable then a.invalidateSnapshotViewForLiveMutation env w
    else
      { a with map := { a.map with
        scanStoreFailure := some (a.map.scanStoreFailure.getD (.store failure)) } }.showScanResultsUnavailable

def settlePublication (pending : PendingPublication) (result : Except StoreFailure Publication)
    (a : App) : App :=
  match pending with
  | .Primary => a.completePrimaryPublication env w result
  | .Rebuild => a.completeRebuildPublication result
  | .Overlay removed => a.completeOverlayPublication env w result removed

/-- The oldest publication outstanding ended. -/
def applyPublicationResult (result : Except StoreFailure Publication) (a : App) : App :=
  match a.map.publications with
  | [] => a
  | pending :: rest =>
    { a with map := { a.map with publications := rest } }.settlePublication env w pending result

/-- Every publication outstanding ends as a failed one. -/
def settleAll (failure : StoreFailure) : Nat → App → App
  | 0, a => a
  | count + 1, a => settleAll failure count (a.applyPublicationResult env w (.error failure))

def scanStoreStopped (failure : StoreFailure) (a : App) : App :=
  let a := a.failScanStore env (.store failure)
  a.settleAll env w failure a.map.publications.length

/-- The text of a store error is all that is kept of it. -/
def resultText (result : Except ScanStoreError Publication) : Except StoreFailure Publication :=
  result.mapError .store

def processEvent (event : StoreEvent) (a : App) : App :=
  match event with
  | .AdmissionFailed error => a.failScanStore env (.store (.store error))
  | .ProvisionalPage folder page => a.applyProvisionalPage env w folder page
  | .Published result | .Overlaid result => a.applyPublicationResult env w (resultText result)
  | .Failure failure => a.scanStoreStopped env w failure

/-- One turn of `process_scan_store_events`. -/
def processNextEvent (a : App) : App :=
  let polled := a.scanStore.poll env.engine
  match polled.2 with
  | none => { a with scanStore := polled.1 }
  | some event => { a with scanStore := polled.1 }.processEvent env w event

/-! ## Rebuilds -/

/-- Without a result the program ends with an error; `true` when a rebuild began. -/
def beginGenerationRebuild (a : App) : Option (App × Bool) :=
  if !a.map.rebuildRequired || a.map.rebuildActive || a.map.rebuildRestartSuppressed ||
      a.scanStoreBusy then some (a, false)
  else
    match a.scanStore.nextGeneration with
    | none => none
    | some next =>
      match a.scanStore.beginGeneration env.engine next with
      | .error _ _ => none
      | .ok () store =>
        if !env.advances next then none
        else
          some ({ a with
            scanStore := store
            map := { a.map with
              scanStoreAvailable := true
              scanStoreFailure := none
              rebuildActive := true
              rebuildInvalidated := false
              rebuildTarget := some .root
              rebuildRequired := false } }, true)

def suppressGenerationRebuildRestart (a : App) : App :=
  { a with map := { a.map with rebuildRestartSuppressed := true } }

def beginRebuildPublication (a : App) : App :=
  if a.map.rebuildInvalidated then a.finished (.Rebuild none)
  else if a.map.rebuildRestartSuppressed then a.finished .RebuildCancelled
  else
    let begun := a.beginPublication env .Rebuild
    if begun.2 then begun.1
    else begun.1.finished (.Rebuild (some (begun.1.map.scanStoreFailure.getD .neverPublished)))

/-- The replacement is shown in the place of what was on screen. -/
def showReplacement (current target : RelativePath) (a : App) : App :=
  let loaded := { a with
    map := { a.map with rebuildRestartSuppressed := false }
    view := { a.view with
      pageCache := none, pageIsProvisional := false, pageHistory := []
      filter := none } }.loadEither env w current target
  match loaded.2 with
  | some error =>
    ({ loaded.1 with map := { loaded.1.map with
      scanStoreAvailable := false
      scanStoreFailure := some (.page error) } }.resetLoadingSnapshot env w).showScanResultsUnavailable
  | none =>
    { loaded.1 with view := { loaded.1.view with provisionalPageWaiting := none } }.resumePendingNavigation
      env w

def finishGenerationRebuild (failure : Option OwnerFailure) (a : App) : Option App :=
  match a.map.rebuildTarget with
  | none => none
  | some target =>
    let current := (a.view.pageCache.map fun cache => cache.current.currentRelative).getD target
    let invalidated := a.map.rebuildInvalidated
    let a := { a with map := { a.map with
      rebuildTarget := none
      rebuildInvalidated := false
      rebuildActive := false
      rebuildRequired := invalidated } }
    if invalidated then some a
    else
      match failure with
      | some failure =>
        some ({ a with view := { a.view with
          pendingNavigation := none } }.abandonScanStoreGenerationWithFailure env
            failure).showScanResultsUnavailable
      | none => some (a.showReplacement env w current target)

def cancelGenerationRebuild (a : App) : Option App :=
  let shown (a : App) : App :=
    if a.map.scanStoreAvailable then a else a.showScanResultsUnavailable
  if a.map.rebuildActive then
    match a.scanStore.cancelActive env.engine with
    | .error _ _ => none
    | .ok () store =>
      let a := { a with
        scanStore := store
        map := { a.map with
          rebuildActive := false
          rebuildInvalidated := false
          rebuildTarget := none
          rebuildRequired := true } }
      let available := a.map.scanStoreAvailable && a.canRetainPublishedSnapshot
      let a := { a with map := { a.map with scanStoreAvailable := available } }
      some (shown (if available then a
        else { a with view := { a.view with filter := none, pageHistory := [] } }.resetLoadingSnapshot
          env w))
  else some (shown a)

/-! ## The rest of the scan -/

def startUi (a : App) : App :=
  { a with map := { a.map with loaded := true } }.startNextRemovalOverlay env w

def cancelPrimaryScan (a : App) : Option App :=
  match a.scanStore.cancelActive env.engine with
  | .error _ _ => none
  | .ok () store =>
    some { a with scanStore := store, map := { a.map with removals := .empty } }

def admitScanInputRuns (lease : WorkLease) (runs : List FactRun) (a : App) : App :=
  if runs.isEmpty || !a.map.scanStoreAvailable then a
  else
    match a.scanStore.admitBatch env.engine lease runs with
    | .ok () store => { a with scanStore := store }
    | .error error store =>
      { a with scanStore := store }.abandonScanStoreGenerationWithFailure env
        (.store (.unavailable error))

def noteScanStoreCapacityFailureFromWorker (message : String) (a : App) : App :=
  if !a.map.scanStoreAvailable then a
  else a.abandonScanStoreGenerationWithFailure env (.worker message)

def recordScanStoreUnrecordedPath (a : App) : App :=
  if a.map.scanStoreAvailable then { a with scanStore := a.scanStore.recordUnrecordedPath } else a

def recordUnreadableDirectory (relative : Option RelativePath) (a : App) : App :=
  match relative.filter fun _ => a.map.scanStoreAvailable with
  | none => a
  | some relative => { a with scanStore := a.scanStore.recordUnreadableDirectory relative }

/-- How the refresh that deletions owed ended, once it has; `true` when its map was published. -/
def takeLandedRefresh (a : App) : App × Option Bool :=
  if !a.map.refreshOwed || a.map.rebuildRequired || a.map.rebuildActive || a.scanStoreBusy ||
      !a.map.removals.isEmpty then (a, none)
  else
    let listed := if a.map.scanStoreAvailable then [] else a.map.removedButListed
    ({ a with map := { a.map with refreshOwed := false, removedButListed := listed } },
      some a.map.scanStoreAvailable)

def takeFinishedPublication (a : App) : App × Option FinishedPublication :=
  match a.map.finishedPublications with
  | [] => (a, none)
  | publication :: rest =>
    ({ a with map := { a.map with finishedPublications := rest } }, some publication)

end App

end Excise
