import Excise.Store.Lifecycle
import Excise.Store.Pages
import Mathlib.Data.Finset.Sort

/-!
# The owner's side of the scan store

`StoreHandle` of `store_thread.rs` with the engine that applies its commands. A handle sends each
command after the notes collected since the last one; its queue may be full, its thread may be
gone.
-/

namespace Excise
set_option autoImplicit false

/-! ## Commands and the engine -/

structure StoreNotes where
  unrecordedPaths : Nat
  unreadableDirectories : Finset RelativePath

namespace StoreNotes

def empty : StoreNotes := ⟨0, ∅⟩

def isEmpty (n : StoreNotes) : Bool :=
  decide (n.unrecordedPaths = 0) && decide (n.unreadableDirectories = ∅)

end StoreNotes

structure OverlayRequest where
  generation : ScanGeneration
  replacedPrefix : RelativePath
  removedLater : List RelativePath
  verifyRoot : Bool
  base : OverlayBase

inductive StoreCommand where
  | Notes (notes : StoreNotes)
  | Admit (lease : WorkLease) (batch : List FactRun)
  | ProvisionalPage (request : PageRequest)
  | Publish
  | BeginGeneration (generation : ScanGeneration)
  | Overlay (request : OverlayRequest)
  | DiscardActive
  | CancelActive

inductive StoreResult where
  | AdmissionFailed (error : ScanStoreError)
  | ProvisionalPage (folder : RelativePath) (page : Except ScanStoreError ScanPage)
  | Published (result : Except ScanStoreError Publication)
  | Overlaid (result : Except ScanStoreError Publication)
  | Failure (error : ScanStoreError)

/-- What the engine meets outside the store: the run files, the entry hash, the folder that held a
removed entry as it is now, and the live page. -/
structure EngineIo where
  io : Io
  hash : EntryHash
  refreshedFolder : RelativePath → Except ScanStoreError (Option RefreshedFolder)
  listedRoot : Except ScanStoreError RefreshedFolder
  provisionalPage : PageRequest → Except ScanStoreError ScanPage

structure StoreEngine where
  store : ScanStore
  admissionFailed : Bool

namespace StoreEngine

def recordNotes (notes : StoreNotes) (s : ScanStore) : ScanStore :=
  (notes.unreadableDirectories.sort (· ≤ ·)).foldl
    (fun s path => ScanStore.recordUnreadableDirectory path s)
    (ScanStore.recordUnrecordedPaths notes.unrecordedPaths s)

/-- The runs of a batch until one is refused. -/
def admitRuns (env : EngineIo) (lease : WorkLease) (e : StoreEngine) :
    List FactRun → StoreEngine × Option StoreResult
  | [] => (e, none)
  | run :: rest =>
    match ScanStore.acceptLeasedInputRun env.io lease run e.store with
    | .ok _ store => admitRuns env lease { e with store := store } rest
    | .error error store => (⟨store, true⟩, some (.AdmissionFailed error))

def admitBatch (env : EngineIo) (lease : WorkLease) (batch : List FactRun) (e : StoreEngine) :
    StoreEngine × Option StoreResult :=
  if e.admissionFailed then (e, none) else e.admitRuns env lease batch

/-- `take_publication` after a publication. -/
def takePublished (e : StoreEngine) : StoreEngine × Except ScanStoreError Publication :=
  match ScanStore.takePublication e.store with
  | .ok (some publication) store => ({ e with store := store }, .ok publication)
  | .ok none store => ({ e with store := store }, .error .NoPublishedGeneration)
  | .error error store => ({ e with store := store }, .error error)

def publishReporting (env : EngineIo) (e : StoreEngine) :
    StoreEngine × Except ScanStoreError Publication :=
  match ScanStore.publish env.io e.store with
  | .ok _ store => takePublished { e with store := store }
  | .error error store => ({ e with store := store }, .error error)

def publish (env : EngineIo) (e : StoreEngine) : StoreEngine × Except ScanStoreError Publication :=
  if e.admissionFailed then (e, .error .ClosedGeneration) else e.publishReporting env

/-- The folder an overlay checks: the one that held the removed entry, or the root on request. -/
def overlayFolder (env : EngineIo) (request : OverlayRequest) :
    Except ScanStoreError (Option RefreshedFolder) :=
  (env.refreshedFolder request.replacedPrefix).bind fun folder =>
    if folder.isNone && request.verifyRoot then
      env.listedRoot.map fun root => some { root with removedLater := request.removedLater }
    else .ok (folder.map fun folder => { folder with removedLater := request.removedLater })

def overlay (env : EngineIo) (request : OverlayRequest) (e : StoreEngine) :
    StoreEngine × Except ScanStoreError Publication :=
  match overlayFolder env request with
  | .error error => (e, .error error)
  | .ok folder =>
    match ScanStore.beginOverlayGeneration env.io env.hash request.base request.generation
        request.replacedPrefix folder e.store with
    | .error error store => ({ e with store := store }, .error error)
    | .ok () store => publishReporting env { e with store := store }

/-- A page is kept once one was built for an active generation that is scanning. -/
def provisionalPage (env : EngineIo) (request : PageRequest) (e : StoreEngine) :
    StoreEngine × Except ScanStoreError ScanPage :=
  match e.store.acceptingGeneration with
  | .error error => (e, .error error)
  | .ok _ =>
    match env.provisionalPage request with
    | .error error => (e, .error error)
    | .ok page => ({ e with store := ScanStore.setProvisionalPage true e.store }, .ok page)

/-- A command whose failure only a notice reports. -/
def reported (e : StoreEngine) (c : StoreM Unit) : StoreEngine × Option StoreResult :=
  match c e.store with
  | .ok () store => ({ e with store := store }, none)
  | .error error store => ({ e with store := store }, some (.Failure error))

def apply (env : EngineIo) (e : StoreEngine) : StoreCommand → StoreEngine × Option StoreResult
  | .Notes notes => ({ e with store := recordNotes notes e.store }, none)
  | .Admit lease batch => e.admitBatch env lease batch
  | .ProvisionalPage request =>
    let answered := e.provisionalPage env request
    (answered.1, some (.ProvisionalPage request.folder answered.2))
  | .Publish =>
    let answered := e.publish env
    (answered.1, some (.Published answered.2))
  | .BeginGeneration generation =>
    { e with admissionFailed := false }.reported (ScanStore.beginGeneration generation)
  | .Overlay request =>
    let answered := overlay env request { e with admissionFailed := false }
    (answered.1, some (.Overlaid answered.2))
  | .DiscardActive => e.reported ScanStore.discardActive
  | .CancelActive => e.reported ScanStore.cancelActive

end StoreEngine

/-! ## The handle -/

def commandsPerBatch : Nat := 2

def controlReserve : Nat := 8

def maxInflightScanBatches : Nat := 16

def storeCommandCapacity : Nat := commandsPerBatch * maxInflightScanBatches + controlReserve

/-- A thread that is gone has dropped its end of both queues. -/
inductive Backend where
  | Inline (engine : StoreEngine) (results : List StoreResult)
  | Threaded (commands : List StoreCommand) (results : List StoreResult) (disconnected : Bool)
  | Stopped

structure StoreUnavailable where
  reason : String

structure ProvisionalRequests where
  inFlight : Bool
  wanted : Option (RelativePath × Nat)

structure StoreHandle where
  published : Option PublishedGeneration
  summaryOnly : Option SummaryOnlyGeneration
  accepting : Option ScanGeneration
  latestGeneration : Option ScanGeneration
  notes : StoreNotes
  publicationsInFlight : Nat
  provisional : ProvisionalRequests
  unavailableReported : Bool
  backend : Backend

abbrev HandleM := EStateM StoreUnavailable StoreHandle

namespace StoreHandle

def noteGeneration (h : StoreHandle) (generation : ScanGeneration) : StoreHandle :=
  { h with
    latestGeneration :=
      match h.latestGeneration with
      | none => some generation
      | some latest => some (max latest generation) }

def recordUnrecordedPath (h : StoreHandle) : StoreHandle :=
  { h with notes := { h.notes with unrecordedPaths := satAdd 64 h.notes.unrecordedPaths 1 } }

def recordUnreadableDirectory (path : RelativePath) (h : StoreHandle) : StoreHandle :=
  if h.notes.unreadableDirectories.card ≤ ScanStore.maxTrackedUnreadableDirectories then
    { h with
      notes := { h.notes with
        unreadableDirectories := insert path h.notes.unreadableDirectories } }
  else h

variable (env : EngineIo)

def sendOne (command : StoreCommand) : HandleM Unit := fun h =>
  match h.backend with
  | .Inline engine results =>
    let applied := engine.apply env command
    .ok () { h with backend := .Inline applied.1 (results ++ applied.2.toList) }
  | .Threaded commands results disconnected =>
    if disconnected then .error ⟨"the scan store thread stopped"⟩ h
    else if storeCommandCapacity ≤ commands.length then .error ⟨"the scan store queue is full"⟩ h
    else .ok () { h with backend := .Threaded (commands ++ [command]) results disconnected }
  | .Stopped => .error ⟨"the scan store was shut down"⟩ h

/-- The notes collected since the last command go first. -/
def send (command : StoreCommand) : HandleM Unit := fun h =>
  if h.notes.isEmpty then sendOne env command h
  else
    match sendOne env (.Notes h.notes) { h with notes := .empty } with
    | .error error h => .error error h
    | .ok () h => sendOne env command h

def admitBatch (lease : WorkLease) (batch : List FactRun) : HandleM Unit :=
  send env (.Admit lease batch)

def requestProvisionalPage (folder : RelativePath) (limit : Nat) : HandleM Unit := fun h =>
  if h.provisional.inFlight then
    .ok () { h with provisional := { h.provisional with wanted := some (folder, limit) } }
  else
    match send env (.ProvisionalPage ⟨folder, none, limit⟩)
        { h with provisional := { h.provisional with inFlight := true } } with
    | .ok () h => .ok () h
    | .error error h =>
      .error error { h with provisional := { h.provisional with inFlight := false } }

def beginPublication : HandleM Unit := fun h =>
  match send env .Publish h with
  | .error error h => .error error h
  | .ok () h =>
    .ok () { h with accepting := none, publicationsInFlight := h.publicationsInFlight + 1 }

def beginGeneration (generation : ScanGeneration) : HandleM Unit := fun h =>
  match send env (.BeginGeneration generation) h with
  | .error error h => .error error h
  | .ok () h => .ok () ({ h with accepting := some generation }.noteGeneration generation)

/-- The installed map an overlay is built from, unless it is described by no file. -/
def overlayBase (detached : PublishedGeneration → Bool) (h : StoreHandle) : Option OverlayBase :=
  (h.published.filter detached).map PublishedGeneration.overlayBase

def beginOverlay (detached : PublishedGeneration → Bool) (generation : ScanGeneration)
    (replacedPrefix : RelativePath) (removedLater : List RelativePath) (verifyRoot : Bool) :
    HandleM Unit := fun h =>
  match h.overlayBase detached with
  | none => .error ⟨"no installed map to build the overlay from"⟩ h
  | some base =>
    match send env (.Overlay ⟨generation, replacedPrefix, removedLater, verifyRoot, base⟩) h with
    | .error error h => .error error h
    | .ok () h =>
      .ok () ({ h with
        accepting := none
        publicationsInFlight := h.publicationsInFlight + 1 }.noteGeneration generation)

def discardActive : HandleM Unit := fun h => send env .DiscardActive { h with accepting := none }

def cancelActive : HandleM Unit := fun h => send env .CancelActive { h with accepting := none }

end StoreHandle

/-- The methods that answer `StoreUnavailable`. -/
inductive HandleCall where
  | flush (command : StoreCommand)
  | admitBatch (lease : WorkLease) (batch : List FactRun)
  | requestProvisionalPage (folder : RelativePath) (limit : Nat)
  | beginPublication
  | beginGeneration (generation : ScanGeneration)
  | beginOverlay (detached : PublishedGeneration → Bool) (generation : ScanGeneration)
      (replacedPrefix : RelativePath) (removedLater : List RelativePath) (verifyRoot : Bool)
  | discardActive
  | cancelActive

namespace StoreHandle

def call (env : EngineIo) : HandleCall → HandleM Unit
  | .flush command => send env command
  | .admitBatch lease batch => admitBatch env lease batch
  | .requestProvisionalPage folder limit => requestProvisionalPage env folder limit
  | .beginPublication => beginPublication env
  | .beginGeneration generation => beginGeneration env generation
  | .beginOverlay detached generation replacedPrefix removedLater verifyRoot =>
    beginOverlay env detached generation replacedPrefix removedLater verifyRoot
  | .discardActive => discardActive env
  | .cancelActive => cancelActive env

/-! ## Failed calls -/

/-- What a failed call must leave alone. -/
structure SameBookkeeping (h h' : StoreHandle) : Prop where
  notes : h'.notes = h.notes
  accepting : h'.accepting = h.accepting
  publications : h'.publicationsInFlight = h.publicationsInFlight
  provisional : h'.provisional = h.provisional

/-- The call closes the generation before it sends. -/
def closesFirst : HandleCall → Bool
  | .discardActive | .cancelActive => true
  | _ => false

/-- The call has nothing to send. -/
def sendsNothing (h : StoreHandle) : HandleCall → Bool
  | .beginOverlay detached _ _ _ _ => (h.overlayBase detached).isNone
  | _ => false

/-- The state before a call that a failure gives back. -/
def Recoverable (h : StoreHandle) (c : HandleCall) : Prop :=
  h.sendsNothing c = true ∨
    (h.notes.isEmpty = true ∧ (closesFirst c = true → h.accepting = none))

variable {env : EngineIo} {command : StoreCommand} {h h' : StoreHandle} {e : StoreUnavailable}

theorem sendOne_error (hs : sendOne env command h = .error e h') : h' = h := by
  unfold sendOne at hs
  split at hs
  · cases hs
  · split at hs
    · cases hs
      rfl
    · split at hs
      · cases hs
        rfl
      · cases hs
  · cases hs
    rfl

theorem sendOne_ok (hs : sendOne env command h = .ok () h') :
    h'.notes = h.notes ∧ h'.accepting = h.accepting ∧
      h'.publicationsInFlight = h.publicationsInFlight ∧ h'.provisional = h.provisional := by
  unfold sendOne at hs
  split at hs
  · cases hs
    exact ⟨rfl, rfl, rfl, rfl⟩
  · split at hs
    · cases hs
    · split at hs
      · cases hs
      · cases hs
        exact ⟨rfl, rfl, rfl, rfl⟩
  · cases hs

theorem isEmpty_iff {n : StoreNotes} : n.isEmpty = true ↔ n = .empty := by
  unfold StoreNotes.isEmpty
  rw [Bool.and_eq_true, decide_eq_true_iff, decide_eq_true_iff]
  constructor
  · rintro ⟨hcount, hset⟩
    cases n
    subst hcount hset
    rfl
  · rintro rfl
    exact ⟨rfl, rfl⟩

/-- A failed send keeps all but the notes it had taken. -/
theorem send_error (hs : send env command h = .error e h') :
    h'.accepting = h.accepting ∧ h'.publicationsInFlight = h.publicationsInFlight ∧
      h'.provisional = h.provisional ∧ (h'.notes = h.notes ↔ h.notes.isEmpty = true) := by
  unfold send at hs
  split at hs
  · rename_i hempty
    obtain rfl := sendOne_error hs
    exact ⟨rfl, rfl, rfl, iff_of_true rfl hempty⟩
  · rename_i hempty
    have htaken : StoreNotes.empty = h.notes ↔ h.notes.isEmpty = true := by
      rw [isEmpty_iff]
      exact eq_comm
    split at hs
    · rename_i error h₁ hnotes
      cases hs
      rw [sendOne_error hnotes]
      exact ⟨rfl, rfl, rfl, htaken⟩
    · rename_i h₁ hnotes
      obtain ⟨h1, h2, h3, h4⟩ := sendOne_ok hnotes
      rw [sendOne_error hs, h1, h2, h3, h4]
      exact ⟨rfl, rfl, rfl, htaken⟩

theorem sameBookkeeping_of_send (hs : send env command h = .error e h') :
    SameBookkeeping h h' ↔ h.notes.isEmpty = true := by
  obtain ⟨haccepting, hpublications, hprovisional, hnotes⟩ := send_error hs
  exact ⟨fun hsame => hnotes.mp hsame.notes,
    fun hempty => ⟨hnotes.mpr hempty, haccepting, hpublications, hprovisional⟩⟩

theorem sameBookkeeping_of_close (hs : send env command { h with accepting := none } = .error e h') :
    SameBookkeeping h h' ↔ h.notes.isEmpty = true ∧ h.accepting = none := by
  obtain ⟨haccepting, hpublications, hprovisional, hnotes⟩ := send_error hs
  constructor
  · exact fun hsame => ⟨hnotes.mp hsame.notes, hsame.accepting.symm.trans haccepting⟩
  · exact fun hempty => ⟨hnotes.mpr hempty.1, haccepting.trans hempty.2.symm, hpublications,
      hprovisional⟩

theorem sameBookkeeping_of_request {folder : RelativePath} {limit : Nat}
    (hs : requestProvisionalPage env folder limit h = .error e h') :
    SameBookkeeping h h' ↔ h.notes.isEmpty = true := by
  unfold requestProvisionalPage at hs
  split at hs
  · cases hs
  rename_i hidle
  split at hs
  · cases hs
  rename_i error h₁ hsend
  cases hs
  obtain ⟨haccepting, hpublications, hprovisional, hnotes⟩ := send_error hsend
  refine ⟨fun hsame => hnotes.mp hsame.notes,
    fun hempty => ⟨hnotes.mpr hempty, haccepting, hpublications, ?_⟩⟩
  show { h₁.provisional with inFlight := false } = h.provisional
  rw [hprovisional, ← Bool.eq_false_iff.mpr hidle]

/-- A method that goes on after its send fails as the send does. -/
theorem error_of_match {f : StoreHandle → StoreHandle}
    (hs : (match send env command h with
      | .error error h => .error error h
      | .ok () h => .ok () (f h) : EStateM.Result StoreUnavailable StoreHandle Unit) = .error e h') :
    send env command h = .error e h' := by
  split at hs
  · rename_i error h₁ hsend
    cases hs
    exact hsend
  · cases hs

/-- A call that finds the store unavailable leaves the handle's bookkeeping as it was exactly when
it had nothing to send, or no notes were waiting and, for a call that closes the generation first,
none was accepting. -/
theorem unavailable_keeps_iff (env : EngineIo) (c : HandleCall) (h h' : StoreHandle)
    (e : StoreUnavailable) (hfail : call env c h = .error e h') :
    SameBookkeeping h h' ↔ Recoverable h c := by
  have hsent : ∀ {command : StoreCommand}, send env command h = .error e h' →
      h.sendsNothing c = false → closesFirst c = false →
      (SameBookkeeping h h' ↔ Recoverable h c) := by
    intro command hs hsends hopen
    rw [sameBookkeeping_of_send hs]
    unfold Recoverable
    rw [hsends, hopen]
    exact ⟨fun hempty => Or.inr ⟨hempty, fun hclose => by cases hclose⟩, fun hr =>
      (hr.resolve_left Bool.false_ne_true).1⟩
  have hclosed : ∀ {command : StoreCommand},
      send env command { h with accepting := none } = .error e h' →
      h.sendsNothing c = false → closesFirst c = true →
      (SameBookkeeping h h' ↔ Recoverable h c) := by
    intro command hs hsends hcloses
    rw [sameBookkeeping_of_close hs]
    unfold Recoverable
    rw [hsends, hcloses]
    exact ⟨fun hempty => Or.inr ⟨hempty.1, fun _ => hempty.2⟩, fun hr =>
      ⟨(hr.resolve_left Bool.false_ne_true).1, (hr.resolve_left Bool.false_ne_true).2 rfl⟩⟩
  cases c with
  | flush command => exact hsent hfail rfl rfl
  | admitBatch lease batch => exact hsent hfail rfl rfl
  | requestProvisionalPage folder limit =>
    rw [sameBookkeeping_of_request hfail]
    exact ⟨fun hempty => Or.inr ⟨hempty, fun hclose => by cases hclose⟩, fun hr =>
      (hr.resolve_left Bool.false_ne_true).1⟩
  | beginPublication => exact hsent (error_of_match hfail) rfl rfl
  | beginGeneration generation => exact hsent (error_of_match hfail) rfl rfl
  | beginOverlay detached generation replacedPrefix removedLater verifyRoot =>
    change beginOverlay env detached generation replacedPrefix removedLater verifyRoot h
      = .error e h' at hfail
    unfold beginOverlay at hfail
    cases hbase : h.overlayBase detached with
    | none =>
      rw [hbase] at hfail
      cases hfail
      refine iff_of_true ⟨rfl, rfl, rfl, rfl⟩ (Or.inl ?_)
      show (h.overlayBase detached).isNone = true
      rw [hbase]
      rfl
    | some base =>
      rw [hbase] at hfail
      refine hsent (error_of_match hfail) ?_ rfl
      show (h.overlayBase detached).isNone = false
      rw [hbase]
      rfl
  | discardActive => exact hclosed hfail rfl rfl
  | cancelActive => exact hclosed hfail rfl rfl

/-- Nothing fails outside the store, and nothing is there to be read. -/
def idleEngine : EngineIo where
  io := .none
  hash := fun _ _ => 0
  refreshedFolder := fun _ => .ok none
  listedRoot := .error .NoPublishedGeneration
  provisionalPage := fun _ => .error .NoActiveGeneration

/-- A handle whose thread is behind, with one note to send. -/
def behind : StoreHandle where
  published := none
  summaryOnly := none
  accepting := some ⟨0⟩
  latestGeneration := some ⟨0⟩
  notes := ⟨1, ∅⟩
  publicationsInFlight := 0
  provisional := ⟨false, none⟩
  unavailableReported := false
  backend := .Threaded (List.replicate storeCommandCapacity (.ProvisionalPage ⟨.root, none, 8⟩)) []
    false

theorem unavailable_keeps_iff_behind :
    SameBookkeeping behind { behind with notes := .empty } ↔ Recoverable behind .beginPublication :=
  unavailable_keeps_iff idleEngine .beginPublication behind { behind with notes := .empty }
    ⟨"the scan store queue is full"⟩ rfl

/-- The note is taken for a command that the full queue refuses, and is gone. -/
theorem refused_publication_loses_note :
    ¬ ∀ (env : EngineIo) (c : HandleCall) (h h' : StoreHandle) (e : StoreUnavailable),
      call env c h = .error e h' → SameBookkeeping h h' := by
  intro hall
  have hkept := hall idleEngine .beginPublication behind { behind with notes := .empty }
    ⟨"the scan store queue is full"⟩ rfl
  have hcount : (0 : Nat) = 1 := congrArg StoreNotes.unrecordedPaths hkept.notes
  cases hcount

end StoreHandle

end Excise
