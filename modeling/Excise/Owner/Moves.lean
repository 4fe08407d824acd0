import Excise.Owner.App
import Mathlib.Logic.Relation

/-!
# Moves of the owner

What the calls of the app do to the map it owes and to its end of the store's queues, whatever the
view shows: each is a few of the moves below.
-/

namespace Excise
set_option autoImplicit false

/-! ## Moves -/

/-- A rebuild whose replacement was installed. -/
def FinishedPublication.isReplacement : FinishedPublication → Bool
  | .Rebuild none => true
  | _ => false

def MapState.replaced (m : MapState) : Bool :=
  m.finishedPublications.any FinishedPublication.isReplacement

/-- Nothing of the rebuild changes; its publication may end, without a replacement. -/
structure SameRebuild (m m' : MapState) : Prop where
  active : m'.rebuildActive = m.rebuildActive
  target : m'.rebuildTarget = m.rebuildTarget
  ended : ∀ f ∈ m'.finishedPublications, f ∈ m.finishedPublications ∨ f = .Primary ∨
    (.Rebuild ∈ m.publications ∧ f.isReplacement = false)

/-- No removal owed is dropped, and the map is as available as it was; none is added to those of a
map that is to be scanned again. -/
structure Owes (m m' : MapState) : Prop extends SameRebuild m m' where
  available : m'.scanStoreAvailable = m.scanStoreAvailable
  required : m'.rebuildRequired = m.rebuildRequired
  invalidated : m'.rebuildInvalidated = m.rebuildInvalidated
  prefixes : m.removals.prefixes ⊆ m'.removals.prefixes
  rebuild : m.removals.rebuild = true → m'.removals.rebuild = true
  kept : m.rebuildActive = true ∨ m.rebuildRequired = true →
    m'.removals.prefixes ⊆ m.removals.prefixes

/-- The map is given up, and the removals it was owed with it. -/
structure Loses (m m' : MapState) : Prop extends SameRebuild m m' where
  available : m'.scanStoreAvailable = false
  required : m'.rebuildRequired = m.rebuildRequired
  invalidated : m'.rebuildInvalidated = m.rebuildInvalidated
  prefixes : m'.removals.prefixes ⊆ m.removals.prefixes
  dropped : m.scanStoreAvailable = true → m.rebuildRequired = true → m'.removals.prefixes = []

/-- The map is to be scanned again. -/
structure Invalidates (m m' : MapState) : Prop extends SameRebuild m m' where
  required : m'.rebuildRequired = true
  invalidated : m'.rebuildInvalidated = (m.rebuildInvalidated || m.rebuildActive)
  dropped : m'.removals.prefixes = []
  finished : m'.finishedPublications = m.finishedPublications

/-- A removal is still to leave the map, if only because there is none. -/
def MapState.Owed (m : MapState) (target : Option RelativePath) : Prop :=
  m.scanStoreAvailable = false ∨ m.rebuildRequired = true ∨ m.removals.rebuild = true ∨
    ∃ removed ∈ m.removals.prefixes, target = some removed

/-- How the oldest publication may end without a map to install. -/
inductive EndsWithout (pending : PendingPublication) (m m' : MapState) : Prop where
  | scanOver (notOverlay : ∀ removed, pending ≠ .Overlay removed) (owes : Owes m m')
  | unavailable (lost : m.scanStoreAvailable = false) (owes : Owes m m')
  | loses (loses : Loses m m')
  | invalidates (invalidates : Invalidates m m')

/-- What is known of a step. -/
structure StepKind where
  /-- A failure the thread reports of no publication finds none outstanding. -/
  calm : Prop
  /-- No removal is to leave the map installed while a rebuild scans behind it. -/
  spared : Prop
  /-- The step may take a result, or is the thread's. -/
  takes : Prop
  /-- The step may ask for a scan's publication, end one, or take one that ended. -/
  finishes : Prop

inductive Move (kind : StepKind) : MapState × StoreHandle → MapState × StoreHandle → Prop where
  | owes {m m' : MapState} {h : StoreHandle} (same : m'.publications = m.publications)
      (owes : Owes m m')
      (aside : ¬kind.finishes → m'.finishedPublications = m.finishedPublications) :
      Move kind (m, h) (m', h)
  | loses {m m' : MapState} {h : StoreHandle} (same : m'.publications = m.publications)
      (loses : Loses m m')
      (aside : ¬kind.finishes → m'.finishedPublications = m.finishedPublications) :
      Move kind (m, h) (m', h)
  | invalidates {m m' : MapState} {h : StoreHandle} (same : m'.publications = m.publications)
      (invalidates : Invalidates m m') : Move kind (m, h) (m', h)
  | adds {m m' : MapState} {h : StoreHandle} {removed : RelativePath}
      (available : m.scanStoreAvailable = true) (installed : h.published.isSome = true)
      (held : kind.spared → m.rebuildActive = false)
      (added : m' = { m with
        removals := { m.removals with prefixes := m.removals.prefixes ++ [removed] } }) :
      Move kind (m, h) (m', h)
  | sends {m : MapState} {h h' : StoreHandle} {commands : List StoreCommand}
      (queues : StoreHandle.Queues h h' commands)
      (quiet : ∀ c ∈ commands, c.isNeutral = true ∨ c = .DiscardActive) : Move kind (m, h) (m, h')
  | asksOverlay {m m' : MapState} {h h₁ h' : StoreHandle} {p : PublishedGeneration}
      {request : OverlayRequest} {notes : List StoreCommand} {later : List RelativePath}
      (idle : m.publications = []) (installed : h.published = some p)
      (next : h.nextGeneration = some request.generation) (base : request.base = p.overlayBase)
      (oldest : m.removals.prefixes = request.replacedPrefix :: later) (open_ : h.gone = false)
      (neutral : ∀ c ∈ notes, c.isNeutral = true)
      (queues : StoreHandle.Queues h h₁ (notes ++ [.Overlay request]))
      (noted : h' = h₁.noteGeneration request.generation)
      (asked : m' = { m with
        publications := [.Overlay request.replacedPrefix]
        removals := { m.removals with
          prefixes := later
          recordedBeforeMap := m.removals.recordedBeforeMap - 1 } }) : Move kind (m, h) (m', h')
  | takes {m : MapState} {h h' : StoreHandle} {result : StoreResult} (polls : kind.takes)
      (takes : StoreHandle.Takes h h' result) (notice : result.answer? = none) : Move kind (m, h) (m, h')
  | stray {m : MapState} {h h' : StoreHandle} {result : StoreResult} (polls : kind.takes)
      (takes : StoreHandle.Takes h h' result) (answer : result.answer?.isSome = true)
      (idle : m.publications = []) : Move kind (m, h) (m, h')
  | ends {m m' : MapState} {h h' : StoreHandle} {result : StoreResult} {pending : PendingPublication}
      (polls : kind.takes) (takes : StoreHandle.Takes h h' result)
      (answer : result.answer?.isSome = true) (oldest : m.publications = pending :: m'.publications)
      (ends : EndsWithout pending m m') : Move kind (m, h) (m', h')
  | installs {m m' : MapState} {h h₁ : StoreHandle} {result : StoreResult}
      {pending : PendingPublication} {p : PublishedGeneration} (polls : kind.takes)
      (takes : StoreHandle.Takes h h₁ result) (answer : result.answer? = some (.ok (.Published p)))
      (oldest : m.publications = pending :: m'.publications)
      (available : m.scanStoreAvailable = true)
      (same : m' = { m with publications := m'.publications } ∨
        (pending = .Rebuild ∧ m' = { m with
          publications := m'.publications
          finishedPublications := m.finishedPublications ++ [.Rebuild none] })) :
      Move kind (m, h) (m', h₁.install (.Published p))
  | fails {m m' : MapState} {h h' : StoreHandle} {error : ScanStoreError}
      (polls : kind.takes) (takes : StoreHandle.Takes h h' (.Failure error))
      (idle : kind.calm → m.publications = []) (none_ : m'.publications = []) (loses : Loses m m') : Move kind (m, h) (m', h')
  | stops {m m' : MapState} {h : StoreHandle} (polls : kind.takes) (told : h.told = [])
      (gone : h.gone = true) (none_ : m'.publications = []) (loses : Loses m m') :
      Move kind (m, h) (m', { h with unavailableReported := true })

abbrev Moves (kind : StepKind) : MapState × StoreHandle → MapState × StoreHandle → Prop :=
  Relation.ReflTransGen (Move kind)

variable {kind : StepKind}

theorem Move.thenSends {m m' : MapState} {h h' : StoreHandle} {commands : List StoreCommand}
    (hmove : Move kind (m, h) (m', h)) (hq : StoreHandle.Queues h h' commands)
    (hquiet : ∀ c ∈ commands, c.isNeutral = true ∨ c = .DiscardActive) :
    Moves kind (m, h) (m', h') := .tail (.single hmove) (.sends hq hquiet)

theorem SameRebuild.refl (m : MapState) : SameRebuild m m := ⟨rfl, rfl, fun _ h => Or.inl h⟩

theorem SameRebuild.trans {m m' m'' : MapState} (h : SameRebuild m m') (h' : SameRebuild m' m'')
    (hpubs : m'.publications ⊆ m.publications) : SameRebuild m m'' := by
  refine ⟨h'.active.trans h.active, h'.target.trans h.target, fun f hf => ?_⟩
  rcases h'.ended f hf with hf | hf | ⟨hrebuild, hf⟩
  · exact h.ended f hf
  · exact Or.inr (Or.inl hf)
  · exact Or.inr (Or.inr ⟨hpubs hrebuild, hf⟩)

theorem SameRebuild.replaced {m m' : MapState} (h : SameRebuild m m') (hr : m'.replaced = true) :
    m.replaced = true := by
  obtain ⟨f, hf, hreplacement⟩ := List.any_eq_true.mp hr
  refine List.any_eq_true.mpr ⟨f, ?_, hreplacement⟩
  rcases h.ended f hf with hf | rfl | ⟨-, hno⟩
  · exact hf
  · cases hreplacement
  · rw [hno] at hreplacement
    cases hreplacement

theorem Loses.trans {m m' m'' : MapState} (h : Loses m m') (h' : Loses m' m'')
    (hpubs : m'.publications ⊆ m.publications) : Loses m m'' where
  toSameRebuild := h.toSameRebuild.trans h'.toSameRebuild hpubs
  available := h'.available
  required := h'.required.trans h.required
  invalidated := h'.invalidated.trans h.invalidated
  prefixes := fun _ hx => h.prefixes (h'.prefixes hx)
  dropped := fun havailable hrequired => List.subset_nil.mp <| by
    rw [← h.dropped havailable hrequired]
    exact h'.prefixes

theorem Move.threaded {x y : MapState × StoreHandle} (h : Move kind x y) (ht : x.2.threaded = true) :
    y.2.threaded = true := by
  cases h with
  | owes same owes aside => exact ht
  | loses same loses aside => exact ht
  | invalidates same invalidates => exact ht
  | adds available installed held added => exact ht
  | sends queues quiet => exact queues.threaded
  | asksOverlay idle installed next base oldest open_ neutral queues noted asked =>
    rw [noted]
    exact queues.threaded
  | takes polls takes notice => exact takes.threaded
  | stray polls takes answer idle => exact takes.threaded
  | ends polls takes answer oldest ends => exact takes.threaded
  | installs polls takes answer oldest available same => exact takes.threaded
  | fails polls takes idle none_ loses => exact takes.threaded
  | stops polls told gone none_ loses => exact ht

theorem Moves.threaded {x y : MapState × StoreHandle} (h : Moves kind x y) (ht : x.2.threaded = true) :
    y.2.threaded = true := by
  induction h with
  | refl => exact ht
  | tail _ hmove ih => exact hmove.threaded ih

/-- Moves between which the removal of `target` is owed. -/
def MovesOwing (kind : StepKind) (target : Option RelativePath) (x y : MapState × StoreHandle) : Prop :=
  ∃ m h, Moves kind x (m, h) ∧ m.Owed target ∧ Moves kind (m, h) y

theorem MovesOwing.moves {target : Option RelativePath} {x y : MapState × StoreHandle}
    (h : MovesOwing kind target x y) : Moves kind x y := by
  obtain ⟨m, s, hto, -, hon⟩ := h
  exact hto.trans hon

theorem MovesOwing.after {target : Option RelativePath} {x y z : MapState × StoreHandle}
    (h : MovesOwing kind target y z) (hxy : Moves kind x y) : MovesOwing kind target x z := by
  obtain ⟨m, s, hto, howed, hon⟩ := h
  exact ⟨m, s, hxy.trans hto, howed, hon⟩

theorem MovesOwing.before {target : Option RelativePath} {x y z : MapState × StoreHandle}
    (h : MovesOwing kind target x y) (hyz : Moves kind y z) : MovesOwing kind target x z := by
  obtain ⟨m, s, hto, howed, hon⟩ := h
  exact ⟨m, s, hto, howed, hon.trans hyz⟩

/-- What a call of the app moves. -/
def App.book (a : App) : MapState × StoreHandle := (a.map, a.scanStore)

namespace App
variable (env : OwnerEnv) (w : CallWorld) (a : App)

/-! ## Calls that only show -/

theorem loadSnapshotPageAfter_book (pw : PageWorld) (folder : RelativePath)
    (after : Option PageCursor) : (a.loadSnapshotPageAfter env pw folder after).1.book = a.book := by
  unfold loadSnapshotPageAfter
  split <;> rfl

theorem loadSnapshotPage_book (pw : PageWorld) (folder : RelativePath) :
    (a.loadSnapshotPage env pw folder).1.book = a.book :=
  loadSnapshotPageAfter_book env _ pw folder none

theorem loadEither_book (folder other : RelativePath) :
    (a.loadEither env w folder other).1.book = a.book := by
  unfold loadEither
  dsimp only
  split
  · exact loadSnapshotPage_book env a _ folder
  · rw [loadSnapshotPage_book, loadSnapshotPage_book]

theorem beginSnapshotPageNavigation_book (pw : PageWorld) (folder : RelativePath)
    (after : Option PageCursor) (change : HistoryChange) :
    (a.beginSnapshotPageNavigation env pw folder after change).1.book = a.book := by
  unfold beginSnapshotPageNavigation
  split
  · rfl
  · have hload := loadSnapshotPageAfter_book env a pw folder after
    dsimp only
    split <;> exact hload

theorem resumePendingNavigation_book : (a.resumePendingNavigation env w).book = a.book := by
  unfold resumePendingNavigation
  split
  · rfl
  · dsimp only
    split
    · exact beginSnapshotPageNavigation_book env _ _ _ none .Reset
    · rfl

theorem previousSnapshotPage_book (pw : PageWorld) :
    (a.previousSnapshotPage env pw).1.book = a.book := by
  unfold previousSnapshotPage
  split
  · rfl
  · exact beginSnapshotPageNavigation_book env a _ _ _ _

theorem nextSnapshotPage_book : (a.nextSnapshotPage env w).book = a.book := by
  unfold nextSnapshotPage
  split
  · rfl
  · split
    · rfl
    · exact beginSnapshotPageNavigation_book env a _ _ _ _

theorem leavePages_book (fuel : Nat) : ∀ a : App, (a.leavePages env w fuel).book = a.book := by
  induction fuel with
  | zero => exact fun _ => rfl
  | succ fuel ih =>
    intro a
    unfold leavePages
    split
    · rfl
    · have hwent := previousSnapshotPage_book env a (w.page (4 + fuel))
      dsimp only
      split
      · exact (ih _).trans hwent
      · exact hwent

theorem applyFilter_book (pattern : Option FilterPattern) :
    (a.applyFilter env w pattern).book = a.book := by
  unfold applyFilter
  split
  · rfl
  · split
    · rfl
    · dsimp only
      split
      · rfl
      · exact loadSnapshotPage_book env _ _ _

/-! ## Losing the map -/

variable {a}

theorem moves_of_book {a b : App} (h : b.book = a.book) : Moves kind a.book b.book := by
  rw [h]

/-- The commands a discarding call leaves behind the queue. -/
theorem queues_discardActive (env : EngineIo) {h : StoreHandle} (ht : h.threaded = true) :
    (∀ h', h.discardActive env = .ok () h' → ∃ cs, StoreHandle.Queues h h' cs ∧
      ∀ c ∈ cs, c.isNeutral = true ∨ c = .DiscardActive) ∧
    (∀ e h', h.discardActive env = .error e h' → ∃ cs, StoreHandle.Queues h h' cs ∧
      ∀ c ∈ cs, c.isNeutral = true ∨ c = .DiscardActive) := by
  have hsame : StoreHandle.SameRecords h { h with accepting := none } := ⟨rfl, rfl, rfl, rfl⟩
  refine ⟨fun h' hs => ?_, fun e h' hs => ?_⟩
  · obtain ⟨-, notes, hneutral, hq⟩ := (StoreHandle.queues_send (h := { h with accepting := none })
      (e := ⟨""⟩) ht).1 hs
    refine ⟨notes ++ [.DiscardActive], hq.before hsame rfl, fun c hc => ?_⟩
    rcases List.mem_append.mp hc with hc | hc
    · exact Or.inl (hneutral c hc)
    · exact Or.inr (List.mem_singleton.mp hc)
  · obtain ⟨notes, hneutral, hq⟩ :=
      (StoreHandle.queues_send (h := { h with accepting := none }) ht).2 hs
    exact ⟨notes, hq.before hsame rfl, fun c hc => Or.inl (hneutral c hc)⟩

/-- A call that discards the active generation: beside the queue only the failure text changes. -/
theorem discardActive_eq (ht : a.scanStore.threaded = true) : ∃ store failure commands,
    a.discardActive env = { a with
      scanStore := store, map := { a.map with scanStoreFailure := failure } } ∧
    StoreHandle.Queues a.scanStore store commands ∧
    ∀ c ∈ commands, c.isNeutral = true ∨ c = .DiscardActive := by
  obtain ⟨hok, herror⟩ := queues_discardActive env.engine ht
  unfold discardActive
  split
  · rename_i store hs
    obtain ⟨commands, hq⟩ := hok store hs
    exact ⟨store, a.map.scanStoreFailure, commands, rfl, hq⟩
  · rename_i e store hs
    obtain ⟨commands, hq⟩ := herror e store hs
    exact ⟨store, _, commands, rfl, hq⟩

theorem moves_abandon (ht : a.scanStore.threaded = true) :
    Moves kind a.book (a.abandonScanStoreGeneration env).book := by
  obtain ⟨store, failure, commands, heq, hq, hquiet⟩ := discardActive_eq env ht
  unfold abandonScanStoreGeneration
  rw [heq]
  exact Move.thenSends (.loses rfl ⟨⟨rfl, rfl, fun _ h => Or.inl h⟩, rfl, rfl, rfl, List.nil_subset _,
    fun _ _ => rfl⟩ fun _ => rfl) hq hquiet

theorem moves_abandonWithFailure (ht : a.scanStore.threaded = true) (failure : OwnerFailure) :
    Moves kind a.book (a.abandonScanStoreGenerationWithFailure env failure).book :=
  .head (b := ({ a.map with scanStoreFailure := some failure }, a.scanStore))
    (.owes rfl ⟨⟨rfl, rfl, fun _ h => Or.inl h⟩, rfl, rfl, rfl, fun _ h => h, fun h => h, fun _ _ h => h⟩
      fun _ => rfl)
    (moves_abandon env (a := { a with map := { a.map with scanStoreFailure := some failure } }) ht)

theorem moves_failScanStore (ht : a.scanStore.threaded = true) (failure : OwnerFailure) :
    Moves kind a.book (a.failScanStore env failure).book := by
  unfold failScanStore
  dsimp only
  split
  · exact moves_abandonWithFailure env ht failure
  · exact .refl

theorem invalidate_eq (ht : a.scanStore.threaded = true) : ∃ store commands map,
    (a.invalidateSnapshotViewForLiveMutation env w).book = (map, store) ∧
    map.publications = a.map.publications ∧ Invalidates a.map map ∧
    StoreHandle.Queues a.scanStore store commands ∧
    ∀ c ∈ commands, c.isNeutral = true ∨ c = .DiscardActive := by
  obtain ⟨store, failure, commands, heq, hq, hquiet⟩ := discardActive_eq env (a := { a with view :=
    { a.view with pendingNavigation := none, provisionalPageWaiting := none } }) ht
  unfold invalidateSnapshotViewForLiveMutation
  rw [heq]
  dsimp only
  split <;> exact ⟨store, commands, _, rfl, rfl, ⟨⟨rfl, rfl, fun _ h => Or.inl h⟩, rfl, rfl, rfl,
    rfl⟩, hq, hquiet⟩

theorem moves_invalidate (ht : a.scanStore.threaded = true) :
    Moves kind a.book (a.invalidateSnapshotViewForLiveMutation env w).book := by
  obtain ⟨store, commands, map, heq, hpubs, hinv, hq, hquiet⟩ := invalidate_eq env w ht
  rw [heq]
  exact Move.thenSends (.invalidates hpubs hinv) hq hquiet

/-! ## Live pages -/

theorem Moves.of_neutral {m : MapState} {h h' : StoreHandle} (hq : StoreHandle.QueuesNeutral h h') :
    Moves kind (m, h) (m, h') := by
  obtain ⟨commands, hq, hneutral⟩ := hq
  exact .single (.sends hq fun c hc => Or.inl (hneutral c hc))

theorem moves_requestLivePage (ht : a.scanStore.threaded = true) :
    Moves kind a.book (a.requestLivePage env).book := by
  unfold requestLivePage
  split
  · rename_i store hs
    exact Moves.of_neutral ((StoreHandle.queues_request (e := ⟨""⟩) ht).1 hs)
  · rename_i error store hs
    have hq := (StoreHandle.queues_request ht).2 hs
    refine (Moves.of_neutral hq).trans (moves_failScanStore env (a := { a with scanStore := store }) ?_ _)
    obtain ⟨commands, hq, -⟩ := hq
    exact hq.threaded

theorem moves_refreshBoardFromScan (ht : a.scanStore.threaded = true) :
    Moves kind a.book (a.refreshBoardFromScan env w).book := by
  unfold refreshBoardFromScan
  split
  · exact .refl
  · exact moves_requestLivePage env ht

theorem moves_showProvisionalPage (ht : a.scanStore.threaded = true) (folder : RelativePath)
    (page : ScanPage) : Moves kind a.book (a.showProvisionalPage env w folder page).book := by
  unfold showProvisionalPage
  dsimp only
  split
  · split <;> exact .refl
  · split
    · exact moves_failScanStore env (a := { a with view :=
        ({ a.view with provisionalPageWaiting := none }.installProvisionalSnapshot env (w.page 0)
          page).1 }) ht _
    · exact .refl

theorem moves_applyProvisionalPage (ht : a.scanStore.threaded = true) (folder : RelativePath)
    (page : Except ScanStoreError ScanPage) :
    Moves kind a.book (a.applyProvisionalPage env w folder page).book := by
  unfold applyProvisionalPage
  split
  · exact .refl
  · split
    · exact moves_failScanStore env ht _
    · split
      · exact .refl
      · exact moves_showProvisionalPage env w ht folder _

theorem moves_applyWaitingProvisionalPage (ht : a.scanStore.threaded = true) :
    Moves kind a.book (a.applyWaitingProvisionalPage env w).book := by
  unfold applyWaitingProvisionalPage
  split
  · exact .refl
  · split
    · exact .refl
    · rename_i folder page _
      dsimp only
      split
      · exact .refl
      · exact moves_showProvisionalPage env w
          (a := { a with view := { a.view with provisionalPageWaiting := none } }) ht folder page

theorem moves_navigate (ht : a.scanStore.threaded = true) (folder : RelativePath) :
    Moves kind a.book (a.navigate env w folder).book := by
  unfold navigate
  split
  · exact .refl
  · split
    · dsimp only
      split
      · exact moves_requestLivePage env
          (a := { a with view := { a.view with pendingNavigation := some folder } }) ht
      · exact .refl
    · exact moves_of_book (beginSnapshotPageNavigation_book env a _ folder none .Reset)

/-! ## Removals -/

theorem moves_owes {m' : MapState} (hpubs : m'.publications = a.map.publications)
    (howes : Owes a.map m') (haside : m'.finishedPublications = a.map.finishedPublications) :
    Moves kind a.book (m', a.scanStore) := .single (.owes hpubs howes fun _ => haside)

theorem moves_hideRemovedTarget (report : DeletionReport) :
    Moves kind a.book (a.hideRemovedTarget report).book := by
  unfold hideRemovedTarget
  split
  · exact .refl
  · exact moves_owes rfl ⟨⟨rfl, rfl, fun _ h => Or.inl h⟩, rfl, rfl, rfl, fun _ h => h, fun h => h, fun _ _ h => h⟩
      rfl

/-- What is left to describe of a deletion: its target, where an overlay can take it out. -/
def describedTarget (a : App) (report : DeletionReport) : Option RelativePath :=
  report.removedPrefix.filter fun _ => a.removalCanBeDescribed report

theorem owed_recordRemovalBeforeFirstMap (report : DeletionReport) :
    (a.recordRemovalBeforeFirstMap report).map.Owed (a.describedTarget report) := by
  unfold recordRemovalBeforeFirstMap describedTarget
  dsimp only
  cases report.removedPrefix with
  | none => exact Or.inr (Or.inr (Or.inl rfl))
  | some removed =>
    dsimp only
    split
    · cases hdescribed : a.removalCanBeDescribed report with
      | false => exact Or.inr (Or.inr (Or.inl (Bool.or_true _)))
      | true => exact Or.inr (Or.inr (Or.inr ⟨removed, List.mem_append_right _ List.mem_cons_self, rfl⟩))
    · exact Or.inr (Or.inr (Or.inl rfl))

theorem firstMapIsOwed_spec (howed : a.firstMapIsOwed = true) :
    a.map.rebuildActive = false ∧ a.map.rebuildRequired = false := by
  unfold firstMapIsOwed at howed
  simp only [Bool.and_eq_true, Bool.not_eq_true'] at howed
  exact ⟨howed.2, howed.1.2⟩

theorem moves_recordRemovalBeforeFirstMap (report : DeletionReport) (howed : a.firstMapIsOwed = true) :
    Moves kind a.book (a.recordRemovalBeforeFirstMap report).book := by
  obtain ⟨hidle, hunasked⟩ := firstMapIsOwed_spec howed
  unfold recordRemovalBeforeFirstMap
  dsimp only
  split
  · split
    · refine moves_owes rfl ⟨⟨rfl, rfl, fun _ h => Or.inl h⟩, rfl, rfl, rfl,
        List.subset_append_left _ _, fun h => ?_, ?_⟩ rfl
      · change (a.map.removals.rebuild || _) = true
        rw [h, Bool.true_or]
      · rintro (hactive | hrequired)
        · exact absurd (hidle.symm.trans hactive) Bool.false_ne_true
        · exact absurd (hunasked.symm.trans hrequired) Bool.false_ne_true
    · exact moves_owes rfl ⟨⟨rfl, rfl, fun _ h => Or.inl h⟩, rfl, rfl, rfl, fun _ h => h, fun _ => rfl,
        fun _ _ h => h⟩ rfl
  · exact moves_owes rfl ⟨⟨rfl, rfl, fun _ h => Or.inl h⟩, rfl, rfl, rfl, fun _ h => h, fun _ => rfl,
      fun _ _ h => h⟩ rfl

/-- Once no map of the removals comes, because the store is lost, nothing is owed for them; a map
that is there is rebuilt, or keeps what it owes. -/
theorem moves_settleRemovals (ht : a.scanStore.threaded = true)
    (hmap : a.map.scanStoreAvailable = true → a.scanStore.published.isSome = true) :
    Moves kind a.book (a.settleRemovalsBeforeFirstMap env w).book := by
  unfold settleRemovalsBeforeFirstMap
  split
  · exact .refl
  · split
    · rename_i hlost
      refine .single (.loses rfl ⟨⟨rfl, rfl, fun _ h => Or.inl h⟩, ?_, rfl, rfl, List.nil_subset _,
        fun _ _ => rfl⟩ fun _ => rfl)
      change a.map.scanStoreAvailable = false
      cases havailable : a.map.scanStoreAvailable with
      | false => rfl
      | true =>
        have hsome := hmap havailable
        cases hp : a.scanStore.published with
        | none =>
          rw [hp] at hsome
          cases hsome
        | some p =>
          rw [havailable, hp] at hlost
          cases hlost
    · split
      · exact moves_invalidate env w ht
      · exact .refl

theorem moves_startNextRemovalOverlay (ht : a.scanStore.threaded = true) :
    Moves kind a.book (a.startNextRemovalOverlay env w).book := by
  unfold startNextRemovalOverlay
  split
  · exact .refl
  · rename_i hidle
    split
    · exact .refl
    · rename_i removed later hprefixes
      dsimp only
      -- the overlay could not be asked for: the removal goes with the invalidated map
      have hfail {store : StoreHandle} {m : MapState} (hq : StoreHandle.QueuesNeutral a.scanStore store)
          (hm : m.publications = a.map.publications) (hsame : SameRebuild a.map m)
          (hfinished : m.finishedPublications = a.map.finishedPublications)
          (hinvalidated : m.rebuildInvalidated = a.map.rebuildInvalidated) :
          Moves kind a.book ((App.mk m a.view store).invalidateSnapshotViewForLiveMutation env w).book := by
        obtain ⟨commands, hq, hneutral⟩ := hq
        obtain ⟨store', commands', map, heq, hpubs, hinv, hq', hquiet⟩ :=
          invalidate_eq env w (a := App.mk m a.view store) hq.threaded
        rw [heq]
        refine Move.thenSends (.invalidates (hpubs.trans hm)
          ⟨⟨?_, ?_, ?_⟩, hinv.required, ?_, hinv.dropped, hinv.finished.trans hfinished⟩)
          (hq.trans hq') fun c hc => ?_
        · exact hinv.active.trans hsame.active
        · exact hinv.target.trans hsame.target
        · intro f hf
          rcases hinv.ended f hf with hf | hf | ⟨hrebuild, hf⟩
          · exact hsame.ended f hf
          · exact Or.inr (Or.inl hf)
          · exact Or.inr (Or.inr ⟨by rw [← hm]; exact hrebuild, hf⟩)
        · rw [hinv.invalidated]
          change (m.rebuildInvalidated || m.rebuildActive) = _
          rw [hinvalidated, hsame.active]
        · rcases List.mem_append.mp hc with hc | hc
          · exact Or.inl (hneutral c hc)
          · exact hquiet c hc
      split
      · exact hfail (.refl ht) rfl ⟨rfl, rfl, fun _ h => Or.inl h⟩ rfl rfl
      · rename_i next hnext
        split
        · rename_i error store hs
          exact hfail ((StoreHandle.queues_beginOverlay ht).2 hs) rfl ⟨rfl, rfl, fun _ h => Or.inl h⟩
            rfl rfl
        · rename_i store hs
          obtain ⟨hgone, p, h₁, notes, hp, rfl, hnotes, hq⟩ :=
            (StoreHandle.queues_beginOverlay (e := ⟨""⟩) ht).1 hs
          have hpubs : a.map.publications = [] := by
            simp only [Bool.or_eq_true, Bool.not_eq_true', not_or] at hidle
            simpa using hidle.1.2
          have hasked : Move kind a.book ({ a.map with
              publications := a.map.publications ++ [.Overlay removed]
              removals := { a.map.removals with
                prefixes := later
                recordedBeforeMap := a.map.removals.recordedBeforeMap - 1 } },
              h₁.noteGeneration next) := by
            refine .asksOverlay hpubs hp hnext rfl hprefixes hgone hnotes hq rfl ?_
            rw [hpubs]
            rfl
          split
          · exact .single hasked
          · exact .head hasked (moves_invalidate env w (a := { a with
              scanStore := h₁.noteGeneration next
              map := { a.map with
                publications := a.map.publications ++ [.Overlay removed]
                removals := { a.map.removals with
                  prefixes := later
                  recordedBeforeMap := a.map.removals.recordedBeforeMap - 1 } } }) hq.threaded)

theorem described_available {report : DeletionReport} {removed : RelativePath}
    (h : a.describedTarget report = some removed) : a.map.scanStoreAvailable = true := by
  have hdescribed := (Option.filter_eq_some_iff.mp h).2
  unfold removalCanBeDescribed at hdescribed
  simp only [Bool.and_eq_true] at hdescribed
  exact hdescribed.1.1

/-- The removal is to leave the map installed: an overlay is asked for, or waits for one. -/
def takesOutOfMap (a : App) (report : DeletionReport) : Bool :=
  decide (report.deletedEntries ≠ 0) && (a.describedTarget report).isSome &&
    a.scanStore.published.isSome &&
    !a.map.publications.any (fun p => decide (p = .Primary) || decide (p = .Rebuild)) &&
    decide (a.map.removals.prefixes.length < maxRemovalsBeforeFirstMap)

/-- A deletion that removed something is owed before anything else follows. -/
theorem moves_reconcileGeneration (ht : a.scanStore.threaded = true) {report : DeletionReport}
    (hspared : kind.spared → a.map.rebuildActive = true → a.takesOutOfMap report = false)
    (hdeleted : report.deletedEntries ≠ 0) : MovesOwing kind (a.describedTarget report) a.book
      (a.reconcileGenerationAfterDeletion env w report).book := by
  have hinvalid : MovesOwing kind (a.describedTarget report) a.book
      (a.invalidateSnapshotViewForLiveMutation env w).book := by
    obtain ⟨store, commands, map, heq, -, hinv, -⟩ := invalidate_eq env w ht
    refine ⟨map, store, ?_, Or.inr (Or.inl hinv.required), by rw [heq]⟩
    rw [← heq]
    exact moves_invalidate env w ht
  unfold reconcileGenerationAfterDeletion
  split
  · rename_i hno
    exact absurd hno hdeleted
  · split
    · rename_i howed
      exact ⟨_, _, moves_recordRemovalBeforeFirstMap report howed,
        owed_recordRemovalBeforeFirstMap report, .refl⟩
    · split
      · exact hinvalid
      · rename_i removed htarget
        split
        · exact hinvalid
        · rename_i hready
          simp only [Bool.or_eq_true, not_or, Bool.not_eq_true, decide_eq_false_iff_not,
            not_le, Option.isNone_eq_false_iff] at hready
          obtain ⟨⟨hinstalled, hpubs⟩, hroom⟩ := hready
          refine ⟨{ a.map with removals := { a.map.removals with
            prefixes := a.map.removals.prefixes ++ [removed] } }, a.scanStore, ?_, ?_, ?_⟩
          · refine .single (.adds (described_available htarget) hinstalled (fun hyes => ?_) rfl)
            refine Bool.eq_false_iff.mpr fun hactive => ?_
            have hno := hspared hyes hactive
            unfold takesOutOfMap describedTarget at hno
            rw [htarget, hinstalled, hpubs, decide_eq_true hroom, decide_eq_true hdeleted] at hno
            cases hno
          · exact Or.inr (Or.inr (Or.inr
              ⟨removed, List.mem_append_right _ List.mem_cons_self, htarget⟩))
          · exact moves_startNextRemovalOverlay env w (a := { a with
              map := { a.map with removals := { a.map.removals with
                prefixes := a.map.removals.prefixes ++ [removed] } } }) ht

theorem moves_excusedExecutionEnded (ht : a.scanStore.threaded = true) (described : Bool) :
    Moves kind a.book (a.excusedExecutionEnded env w described).book := by
  have hfirst : Move kind a.book ({ a.map with
      removals := { a.map.removals with excusedUnderExecution := false } }, a.scanStore) :=
    .owes rfl ⟨⟨rfl, rfl, fun _ h => Or.inl h⟩, rfl, rfl, rfl, fun _ h => h, fun h => h, fun _ _ h => h⟩
      fun _ => rfl
  unfold excusedExecutionEnded
  dsimp only
  split
  · exact .single hfirst
  · split
    · exact .head hfirst (.single (.owes rfl
        ⟨⟨rfl, rfl, fun _ h => Or.inl h⟩, rfl, rfl, rfl, fun _ h => h, fun _ => rfl, fun _ _ h => h⟩
        fun _ => rfl))
    · split
      · exact .head hfirst (moves_invalidate env w (a := { a with map := { a.map with
          removals := { a.map.removals with excusedUnderExecution := false } } }) ht)
      · exact .single hfirst

/-- What the reader is told of a deletion moves nothing that is owed. -/
theorem moves_shown (kind : StepKind) (report : DeletionReport) : ∃ b : App,
    Moves kind a.book b.book ∧ (∃ owed listed, b.map = { a.map with
      refreshOwed := owed, removedButListed := listed }) ∧ b.scanStore = a.scanStore ∧
    (a.completeDeletion env w report).book =
      ((b.reconcileGenerationAfterDeletion env w report).excusedExecutionEnded env w
        (b.describes report)).book := by
  have howed : Moves kind a.book (({ a with map := { a.map with
      refreshOwed := a.map.refreshOwed || decide (0 < report.deletedEntries) } } : App).book) :=
    moves_owes rfl ⟨⟨rfl, rfl, fun _ h => Or.inl h⟩, rfl, rfl, rfl, fun _ h => h, fun h => h, fun _ _ h => h⟩
      rfl
  unfold completeDeletion leaveThePagesRemovalsEmptied
  dsimp only
  rw [leavePages_book]
  split
  · refine ⟨_, howed.trans (moves_hideRemovedTarget report), ?_, ?_, rfl⟩
    · unfold hideRemovedTarget
      split <;> exact ⟨_, _, rfl⟩
    · unfold hideRemovedTarget
      split <;> rfl
  · exact ⟨_, howed, ⟨_, _, rfl⟩, rfl, rfl⟩

theorem moves_completeDeletion (ht : a.scanStore.threaded = true) (report : DeletionReport)
    (hspared : kind.spared → a.map.rebuildActive = true → a.takesOutOfMap report = false) :
    Moves kind a.book (a.completeDeletion env w report).book ∧ (report.deletedEntries ≠ 0 →
      MovesOwing kind (a.describedTarget report) a.book (a.completeDeletion env w report).book) := by
  obtain ⟨b, hb, ⟨owed, listed, hmap⟩, hstore, heq⟩ := moves_shown env w (a := a) kind report
  have htb : b.scanStore.threaded = true := by rw [hstore]; exact ht
  have htarget : b.describedTarget report = a.describedTarget report := by
    unfold describedTarget removalCanBeDescribed
    rw [hmap]
  have hspared' : kind.spared → b.map.rebuildActive = true → b.takesOutOfMap report = false := by
    unfold takesOutOfMap at hspared ⊢
    rw [htarget, hstore, hmap]
    exact hspared
  rw [heq]
  by_cases hdeleted : report.deletedEntries = 0
  · have hrec : b.reconcileGenerationAfterDeletion env w report = b := by
      unfold reconcileGenerationAfterDeletion
      rw [if_pos hdeleted]
    rw [hrec]
    exact ⟨hb.trans (moves_excusedExecutionEnded env w htb _), fun hno => absurd hdeleted hno⟩
  · have hrec : MovesOwing kind (b.describedTarget report) b.book
        (b.reconcileGenerationAfterDeletion env w report).book :=
      moves_reconcileGeneration env w htb hspared' hdeleted
    rw [htarget] at hrec
    have hall := (hrec.after hb).before
      (moves_excusedExecutionEnded env w (hrec.moves.threaded htb) (b.describes report))
    exact ⟨hall.moves, fun _ => hall⟩

theorem moves_pathRemovedByADeletion (relative executing : Option RelativePath) :
    Moves kind a.book (a.pathRemovedByADeletion relative executing).1.book := by
  unfold pathRemovedByADeletion
  split
  · exact .refl
  · split
    · exact .refl
    · split
      · exact moves_owes rfl ⟨⟨rfl, rfl, fun _ h => Or.inl h⟩, rfl, rfl, rfl, fun _ h => h, fun h => h,
          fun _ _ h => h⟩ rfl
      · exact .refl

/-! ## The rest of the scan -/

theorem moves_startUi (hf : kind.finishes) (ht : a.scanStore.threaded = true) :
    Moves kind a.book (a.startUi env w).book :=
  .head (b := ({ a.map with loaded := true }, a.scanStore))
    (.owes rfl ⟨⟨rfl, rfl, fun _ h => Or.inl h⟩, rfl, rfl, rfl, fun _ h => h, fun h => h, fun _ _ h => h⟩
      fun hno => absurd hf hno)
    (moves_startNextRemovalOverlay env w (a := { a with map := { a.map with loaded := true } }) ht)

theorem moves_admitScanInputRuns (ht : a.scanStore.threaded = true) (lease : WorkLease)
    (runs : List FactRun) : Moves kind a.book (a.admitScanInputRuns env lease runs).book := by
  unfold admitScanInputRuns
  split
  · exact .refl
  · split
    · rename_i store hs
      exact Moves.of_neutral ((StoreHandle.queues_admitBatch (e := ⟨""⟩) ht).1 hs)
    · rename_i error store hs
      have hq := (StoreHandle.queues_admitBatch ht).2 hs
      refine (Moves.of_neutral hq).trans
        (moves_abandonWithFailure env (a := { a with scanStore := store }) ?_ _)
      obtain ⟨commands, hq, -⟩ := hq
      exact hq.threaded

theorem moves_noteScanStoreCapacityFailure (ht : a.scanStore.threaded = true) (message : String) :
    Moves kind a.book (a.noteScanStoreCapacityFailureFromWorker env message).book := by
  unfold noteScanStoreCapacityFailureFromWorker
  split
  · exact .refl
  · exact moves_abandonWithFailure env ht _

theorem moves_notes (ht : a.scanStore.threaded = true) (notes : StoreNotes) :
    Moves kind a.book (a.map, { a.scanStore with notes := notes }) :=
  Moves.of_neutral ((StoreHandle.QueuesNeutral.refl ht).after ⟨rfl, rfl, rfl, rfl⟩ rfl)

theorem moves_recordScanStoreUnrecordedPath (ht : a.scanStore.threaded = true) :
    Moves kind a.book a.recordScanStoreUnrecordedPath.book := by
  unfold recordScanStoreUnrecordedPath
  split
  · exact moves_notes ht _
  · exact .refl

theorem moves_recordUnreadableDirectory (ht : a.scanStore.threaded = true)
    (relative : Option RelativePath) :
    Moves kind a.book (a.recordUnreadableDirectory relative).book := by
  unfold recordUnreadableDirectory
  split
  · exact .refl
  · rename_i path _
    change Moves kind a.book (a.map, a.scanStore.recordUnreadableDirectory path)
    unfold StoreHandle.recordUnreadableDirectory
    split
    · exact moves_notes ht _
    · exact .refl

theorem moves_takeLandedRefresh : Moves kind a.book a.takeLandedRefresh.1.book := by
  unfold takeLandedRefresh
  split
  · exact .refl
  · exact moves_owes rfl ⟨⟨rfl, rfl, fun _ h => Or.inl h⟩, rfl, rfl, rfl, fun _ h => h, fun h => h, fun _ _ h => h⟩
      rfl

theorem moves_suppressGenerationRebuildRestart :
    Moves kind a.book a.suppressGenerationRebuildRestart.book :=
  moves_owes rfl ⟨⟨rfl, rfl, fun _ h => Or.inl h⟩, rfl, rfl, rfl, fun _ h => h, fun h => h, fun _ _ h => h⟩
      rfl

/-! ## Answers -/

/-- The app once the oldest result was taken and the publication it answers with it. -/
def popped (a : App) (store : StoreHandle) (rest : List PendingPublication) : App :=
  { a with scanStore := store, map := { a.map with publications := rest } }

variable {store : StoreHandle} {result : StoreResult} {pending : PendingPublication}
  {rest : List PendingPublication} {answer : Except ScanStoreError Publication}

theorem moves_popped (hk : kind.takes) (htakes : StoreHandle.Takes a.scanStore store result)
    (hanswer : result.answer? = some answer) (hpubs : a.map.publications = pending :: rest)
    (hscan : ∀ removed, pending ≠ .Overlay removed) : Moves kind a.book (a.popped store rest).book :=
  .single (.ends hk htakes (by rw [hanswer]; rfl) hpubs
    (.scanOver hscan ⟨⟨rfl, rfl, fun _ h => Or.inl h⟩, rfl, rfl, rfl, fun _ h => h, fun h => h, fun _ _ h => h⟩))

theorem takes_summary (htakes : StoreHandle.Takes a.scanStore store result)
    (summary : SummaryOnlyGeneration) :
    StoreHandle.Takes a.scanStore (store.install (.SummaryOnly summary)) result :=
  ⟨htakes.threaded, htakes.told, htakes.queued, htakes.gone, htakes.published, htakes.reported,
    htakes.latest⟩

theorem mem_finished {publication f : FinishedPublication}
    (h : f ∈ a.map.finishedPublications ++ [publication]) :
    f ∈ a.map.finishedPublications ∨ f = publication :=
  (List.mem_append.mp h).imp id List.mem_singleton.mp

theorem moves_finishedPrimary (hf : kind.finishes) : Moves kind a.book (a.finished .Primary).book := by
  refine .single (.owes rfl ⟨⟨rfl, rfl, fun f hmem => ?_⟩, rfl, rfl, rfl, fun _ h => h, fun h => h,
    fun _ _ h => h⟩ fun hno => absurd hf hno)
  exact (mem_finished hmem).imp id Or.inl

/-- The first map is shown, or lost. -/
theorem showPublishedMap_cases (current : RelativePath) :
    (a.showPublishedMap env w current).book = a.book ∨ ∃ failure,
      (a.showPublishedMap env w current).book = ({ a.map with
        scanStoreAvailable := false, scanStoreFailure := failure }, a.scanStore) := by
  have hload := loadEither_book env w { a with view := { a.view with
    pageCache := none, pageIsProvisional := false, pageHistory := [], filter := none
    provisionalPageWaiting := none } } current .root
  have hmap := congrArg Prod.fst hload
  have hstore := congrArg Prod.snd hload
  dsimp only [book] at hmap hstore
  unfold showPublishedMap
  dsimp only
  split
  · exact Or.inl hload
  · rename_i error _
    exact Or.inr ⟨some (.page error), Prod.ext (congrArg (fun m : MapState => { m with
      scanStoreAvailable := false, scanStoreFailure := some (.page error) }) hmap) hstore⟩

theorem moves_primaryOver (hf : kind.finishes) (ht : a.scanStore.threaded = true)
    (hmap : a.map.scanStoreAvailable = true → a.scanStore.published.isSome = true) :
    Moves kind a.book (((a.settleRemovalsBeforeFirstMap env w).finished .Primary).resumePendingNavigation
      env w).book :=
  ((moves_settleRemovals env w ht hmap).trans (moves_finishedPrimary hf)).trans
    (moves_of_book (resumePendingNavigation_book env w _))

/-- A first map that is lost takes the removals recorded for it along. -/
theorem moves_settledLost {b : App} {failure : Option OwnerFailure}
    (hb : b.book = ({ a.map with scanStoreAvailable := false, scanStoreFailure := failure }, a.scanStore)) :
    Moves kind a.book (b.settleRemovalsBeforeFirstMap env w).book := by
  obtain ⟨hmap, hstore⟩ := Prod.mk.inj hb
  unfold settleRemovalsBeforeFirstMap
  rw [hmap, hstore]
  split
  · rename_i hempty
    rw [hb]
    have hnone : a.map.removals.prefixes = [] := by
      simp only [RemovalsBeforeFirstMap.isEmpty, Bool.and_eq_true, List.isEmpty_iff] at hempty
      exact hempty.1
    exact .single (.loses rfl ⟨⟨rfl, rfl, fun _ h => Or.inl h⟩, rfl, rfl, rfl, fun _ h => h,
      fun _ _ => hnone⟩ fun _ => rfl)
  · exact .single (.loses rfl ⟨⟨rfl, rfl, fun _ h => Or.inl h⟩, rfl, rfl, rfl, List.nil_subset _,
      fun _ _ => rfl⟩ fun _ => rfl)

theorem moves_completePrimary (hk : kind.takes) (hf : kind.finishes) (ht : a.scanStore.threaded = true)
    (htakes : StoreHandle.Takes a.scanStore store result) (hanswer : result.answer? = some answer)
    (hpubs : a.map.publications = .Primary :: rest) :
    Moves kind a.book ((a.popped store rest).completePrimaryPublication env w (resultText answer)).book := by
  have hpop : Moves kind a.book (a.popped store rest).book :=
    moves_popped hk htakes hanswer hpubs fun _ h => nomatch h
  have hts : store.threaded = true := htakes.threaded
  have hover {b : App} (hb : Moves kind a.book (b.settleRemovalsBeforeFirstMap env w).book) :
      Moves kind a.book (((b.settleRemovalsBeforeFirstMap env w).finished
        .Primary).resumePendingNavigation env w).book :=
    (hb.trans (moves_finishedPrimary hf)).trans (moves_of_book (resumePendingNavigation_book env w _))
  -- without a map to show, the store is lost
  have hlost {b : App} (hb : Moves kind a.book b.book) (hno : b.map.scanStoreAvailable = false) :
      Moves kind a.book ((((b.showScanResultsUnavailable).settleRemovalsBeforeFirstMap env w).finished
        .Primary).resumePendingNavigation env w).book := by
    refine hb.trans (moves_primaryOver env w hf (a := b.showScanResultsUnavailable)
      (hb.threaded ht) fun hyes => ?_)
    rw [show b.showScanResultsUnavailable.map.scanStoreAvailable = false from hno] at hyes
    cases hyes
  unfold completePrimaryPublication takePrimaryPublication
  cases answer with
  | error error =>
    change Moves kind a.book _
    dsimp only [resultText, Except.mapError]
    rw [if_neg Bool.false_ne_true]
    split
    · exact hlost (hpop.trans (moves_abandonWithFailure env (a := a.popped store rest) hts
        (.store (.store error)))) rfl
    · rename_i hno
      exact hlost hpop (Bool.eq_false_iff.mpr hno)
  | ok publication =>
    dsimp only [resultText, Except.mapError]
    split
    · rename_i havailable
      cases publication with
      | SummaryOnly summary =>
        have hsum : Moves kind a.book
            (a.popped (store.install (.SummaryOnly summary)) rest).book :=
          moves_popped hk (takes_summary htakes summary) hanswer hpubs fun _ h => nomatch h
        exact hover (hsum.trans (moves_settledLost env w
          (a := a.popped (store.install (.SummaryOnly summary)) rest) rfl))
      | Published p =>
        have hinstall : Moves kind a.book (a.popped (store.install (.Published p)) rest).book :=
          .single (.installs hk htakes hanswer hpubs havailable (Or.inl rfl))
        rcases showPublishedMap_cases env w (a := a.popped (store.install (.Published p)) rest)
          a.view.currentRelative with hshown | ⟨failure, hshown⟩
        · have hall := hinstall.trans (moves_of_book hshown)
          refine hall.trans (moves_primaryOver env w hf (Moves.threaded hall ht) fun _ => ?_)
          rw [(Prod.mk.inj hshown).2]
          rfl
        · exact hover (hinstall.trans (moves_settledLost env w hshown))
    · rename_i hno
      exact hlost hpop (Bool.eq_false_iff.mpr hno)

theorem moves_completeRebuild (hk : kind.takes) (htakes : StoreHandle.Takes a.scanStore store result)
    (hanswer : result.answer? = some answer) (hpubs : a.map.publications = .Rebuild :: rest) :
    Moves kind a.book ((a.popped store rest).completeRebuildPublication (resultText answer)).book := by
  have hends {h : StoreHandle} (htakes : StoreHandle.Takes a.scanStore h result)
      {publication : FinishedPublication} (hno : publication.isReplacement = false) :
      Moves kind a.book ((a.popped h rest).finished publication).book := by
    refine .single (.ends hk htakes (by rw [hanswer]; rfl) hpubs (.scanOver (fun _ h => nomatch h) ?_))
    refine ⟨⟨rfl, rfl, fun f hf => ?_⟩, rfl, rfl, rfl, fun _ h => h, fun h => h, fun _ _ h => h⟩
    rcases mem_finished hf with hf | rfl
    · exact Or.inl hf
    · refine Or.inr (Or.inr ⟨?_, hno⟩)
      rw [hpubs]
      exact List.mem_cons_self
  unfold completeRebuildPublication
  split
  · exact hends htakes rfl
  · split
    · rename_i havailable
      cases answer with
      | error error => exact hends htakes rfl
      | ok publication =>
        cases publication with
        | SummaryOnly summary => exact hends (takes_summary htakes summary) rfl
        | Published p => exact .single (.installs hk htakes hanswer hpubs havailable (Or.inr ⟨rfl, rfl⟩))
    · exact hends htakes rfl

/-- An overlay that ends without a map leaves its removal to a scan. -/
theorem moves_invalidated (hk : kind.takes) {h : StoreHandle} (htakes : StoreHandle.Takes a.scanStore h result)
    (hanswer : result.answer? = some answer) (hpubs : a.map.publications = pending :: rest) :
    Moves kind a.book ((a.popped h rest).invalidateSnapshotViewForLiveMutation env w).book := by
  obtain ⟨store', commands, map, heq, hmap, hinv, hq, hquiet⟩ :=
    invalidate_eq env w (a := a.popped h rest) htakes.threaded
  rw [heq]
  have holdest : a.map.publications = pending :: map.publications := by
    rw [hmap]
    exact hpubs
  have hended : ∀ f ∈ map.finishedPublications, f ∈ a.map.finishedPublications ∨ f = .Primary ∨
      (.Rebuild ∈ a.map.publications ∧ f.isReplacement = false) := by
    intro f hf
    rcases hinv.ended f hf with hf | hf | ⟨hrebuild, hf⟩
    · exact Or.inl hf
    · exact Or.inr (Or.inl hf)
    · refine Or.inr (Or.inr ⟨?_, hf⟩)
      rw [hpubs]
      exact List.mem_cons_of_mem pending hrebuild
  have hends : Move kind a.book (map, h) := .ends hk htakes (by rw [hanswer]; rfl) holdest
    (.invalidates ⟨⟨hinv.active, hinv.target, hended⟩, hinv.required, hinv.invalidated, hinv.dropped,
      hinv.finished⟩)
  exact .tail (.single hends) (.sends hq hquiet)

theorem moves_installOverlay (hk : kind.takes) (ht : a.scanStore.threaded = true)
    (htakes : StoreHandle.Takes a.scanStore store result) {publication : Publication}
    (hanswer : result.answer? = some (.ok publication)) {removed : RelativePath}
    (hpubs : a.map.publications = .Overlay removed :: rest)
    (havailable : a.map.scanStoreAvailable = true) :
    Moves kind a.book ((a.popped store rest).installOverlay env w publication removed).book := by
  unfold installOverlay
  cases publication with
  | SummaryOnly summary => exact moves_invalidated env w hk (takes_summary htakes summary) hanswer hpubs
  | Published p =>
    have hinstall : Moves kind a.book (a.popped (store.install (.Published p)) rest).book :=
      .single (.installs hk htakes hanswer hpubs havailable (Or.inl rfl))
    dsimp only
    rw [if_neg (by exact Bool.false_ne_true)]
    have hnext {b : App} (hb : Moves kind a.book b.book) :
        Moves kind a.book (b.startNextRemovalOverlay env w).book :=
      hb.trans (moves_startNextRemovalOverlay env w (hb.threaded ht))
    have hload (folder : RelativePath) := hinstall.trans (moves_of_book (loadEither_book env w
      ((a.popped (store.install (.Published p)) rest).invalidateCachedPagesForOverlay removed)
      folder (relativeParentOrRoot removed)))
    have hshown (folder : RelativePath) := hnext ((hload folder).trans
      (moves_invalidate env w (Moves.threaded (hload folder) ht)))
    split
    · split
      · exact hshown _
      · exact hnext (hload _)
    · split
      · exact hshown _
      · exact hnext (hload _)

theorem moves_completeOverlay (hk : kind.takes) (ht : a.scanStore.threaded = true)
    (htakes : StoreHandle.Takes a.scanStore store result) (hanswer : result.answer? = some answer)
    {removed : RelativePath} (hpubs : a.map.publications = .Overlay removed :: rest) :
    Moves kind a.book ((a.popped store rest).completeOverlayPublication env w (resultText answer)
      removed).book := by
  have hdropped {m : MapState} (hrest : m.publications = rest)
      (hno : a.map.scanStoreAvailable = false) (howes : Owes a.map m) : Moves kind a.book (m, store) := by
    have holdest : a.map.publications = .Overlay removed :: m.publications := by
      rw [hrest]
      exact hpubs
    exact .single (.ends hk htakes (by rw [hanswer]; rfl) holdest (.unavailable hno howes))
  unfold completeOverlayPublication
  cases answer with
  | ok publication =>
    dsimp only [resultText, Except.mapError]
    split
    · rename_i havailable
      exact moves_installOverlay env w hk ht htakes hanswer hpubs havailable
    · rename_i hno
      exact hdropped rfl (Bool.eq_false_iff.mpr hno)
        ⟨⟨rfl, rfl, fun _ h => Or.inl h⟩, rfl, rfl, rfl, fun _ h => h, fun h => h, fun _ _ h => h⟩
  | error error =>
    dsimp only [resultText, Except.mapError]
    split
    · exact moves_invalidated env w hk htakes hanswer hpubs
    · rename_i hno
      exact hdropped rfl (Bool.eq_false_iff.mpr hno)
        ⟨⟨rfl, rfl, fun _ h => Or.inl h⟩, rfl, rfl, rfl, fun _ h => h, fun h => h, fun _ _ h => h⟩

theorem moves_applyPublicationResult (hk : kind.takes) (hf : kind.finishes)
    (ht : a.scanStore.threaded = true)
    (htakes : StoreHandle.Takes a.scanStore store result) (hanswer : result.answer? = some answer) :
    Moves kind a.book ({ a with scanStore := store }.applyPublicationResult env w (resultText answer)).book := by
  unfold applyPublicationResult
  split
  · rename_i hpubs
    exact .single (.stray hk htakes (by rw [hanswer]; rfl) hpubs)
  · rename_i pending rest hpubs
    cases pending with
    | Primary => exact moves_completePrimary env w hk hf ht htakes hanswer hpubs
    | Rebuild => exact moves_completeRebuild hk htakes hanswer hpubs
    | Overlay removed => exact moves_completeOverlay env w hk ht htakes hanswer hpubs

/-! ## Polls -/

/-- A lost store's publication ends as a failed one. -/
theorem lost_applyPublicationResult (failure : StoreFailure)
    (hpubs : a.map.publications = pending :: rest) (hno : a.map.scanStoreAvailable = false) :
    (a.applyPublicationResult env w (.error failure)).scanStore = a.scanStore ∧
      (a.applyPublicationResult env w (.error failure)).map.publications = rest ∧
      Loses a.map (a.applyPublicationResult env w (.error failure)).map := by
  have hlost {m : MapState} (hyes : a.map.scanStoreAvailable = true) :
      a.map.rebuildRequired = true → m.removals.prefixes = [] :=
    absurd (hno.symm.trans hyes) Bool.false_ne_true
  unfold applyPublicationResult
  rw [hpubs]
  dsimp only
  cases pending with
  | Primary =>
    have hover {b : App} (hb : b.book = ({ a.map with publications := rest }, a.scanStore)) :
        (b.settleRemovalsBeforeFirstMap env w).scanStore = a.scanStore ∧
          (b.settleRemovalsBeforeFirstMap env w).map.publications = rest ∧
          Loses a.map ((b.settleRemovalsBeforeFirstMap env w).finished .Primary).map := by
      obtain ⟨hmap, hstore⟩ := Prod.mk.inj hb
      have hended : ∀ f ∈ a.map.finishedPublications ++ [.Primary], f ∈ a.map.finishedPublications ∨
          f = .Primary ∨ (.Rebuild ∈ a.map.publications ∧ f.isReplacement = false) :=
        fun f hf => (mem_finished hf).imp id Or.inl
      unfold settleRemovalsBeforeFirstMap finished
      rw [hmap, hstore]
      split
      · rw [hmap, hstore]
        exact ⟨rfl, rfl, ⟨rfl, rfl, hended⟩, hno, rfl, rfl, fun _ h => h, hlost⟩
      · rw [hno]
        exact ⟨rfl, rfl, ⟨rfl, rfl, hended⟩, hno, rfl, rfl, List.nil_subset _, fun _ _ => rfl⟩
    have htaken : ({ a with map := { a.map with publications := rest } }.takePrimaryPublication env
        (.error failure)) = ({ a with map := { a.map with publications := rest } }, false) := by
      unfold takePrimaryPublication
      dsimp only
      rw [hno]
      rfl
    obtain ⟨hstore, hrest, hloses⟩ := hover (b := { a with
      map := { a.map with publications := rest }
      view := { a.view with filter := none } }) rfl
    have hbook := resumePendingNavigation_book env w (({ a with
      map := { a.map with publications := rest }
      view := { a.view with filter := none } }.settleRemovalsBeforeFirstMap env w).finished .Primary)
    unfold settlePublication completePrimaryPublication
    dsimp only
    rw [htaken]
    obtain ⟨hmap', hstore'⟩ := Prod.mk.inj hbook
    refine ⟨hstore'.trans hstore, (congrArg MapState.publications hmap').trans hrest, ?_⟩
    rw [← hmap'] at hloses
    exact hloses
  | Rebuild =>
    have hended {publication : FinishedPublication} (h : publication.isReplacement = false) :
        Loses a.map { a.map with
          publications := rest
          finishedPublications := a.map.finishedPublications ++ [publication] } := by
      refine ⟨⟨rfl, rfl, fun f hf => ?_⟩, hno, rfl, rfl, fun _ h => h, hlost⟩
      rcases mem_finished hf with hf | rfl
      · exact Or.inl hf
      · refine Or.inr (Or.inr ⟨?_, h⟩)
        rw [hpubs]
        exact List.mem_cons_self
    unfold settlePublication completeRebuildPublication
    dsimp only
    split
    · exact ⟨rfl, rfl, hended rfl⟩
    · rw [if_neg (Bool.eq_false_iff.mp hno)]
      exact ⟨rfl, rfl, hended rfl⟩
  | Overlay removed =>
    unfold settlePublication completeOverlayPublication
    dsimp only
    rw [if_neg (Bool.eq_false_iff.mp hno)]
    exact ⟨rfl, rfl, ⟨rfl, rfl, fun _ h => Or.inl h⟩, hno, rfl, rfl, fun _ h => h, hlost⟩

theorem lost_settleAll (failure : StoreFailure) (count : Nat) : ∀ a : App,
    a.map.publications.length = count → a.map.scanStoreAvailable = false →
    (a.settleAll env w failure count).scanStore = a.scanStore ∧
      (a.settleAll env w failure count).map.publications = [] ∧
      Loses a.map (a.settleAll env w failure count).map := by
  induction count with
  | zero =>
    intro a hcount hno
    exact ⟨rfl, List.eq_nil_of_length_eq_zero hcount, .refl _, hno, rfl, rfl, fun _ h => h,
      fun hyes => absurd (hno.symm.trans hyes) Bool.false_ne_true⟩
  | succ count ih =>
    intro a hcount hno
    obtain ⟨pending, rest, hpubs⟩ := List.exists_cons_of_length_eq_add_one hcount
    obtain ⟨hstore, hrest, hloses⟩ := lost_applyPublicationResult env w failure hpubs hno
    have hcount' : (a.applyPublicationResult env w (.error failure)).map.publications.length
        = count := by
      rw [hrest]
      rw [hpubs] at hcount
      exact Nat.succ.inj hcount
    obtain ⟨hstore', hnone, hloses'⟩ := ih _ hcount' hloses.available
    refine ⟨hstore'.trans hstore, hnone, hloses.trans hloses' ?_⟩
    rw [hrest, hpubs]
    exact List.subset_cons_self pending rest

/-- The store that stopped leaves nothing outstanding, and discards at most. -/
theorem stopped_eq (ht : a.scanStore.threaded = true) (failure : StoreFailure) :
    ∃ store commands map, (a.scanStoreStopped env w failure).book = (map, store) ∧
      map.publications = [] ∧ Loses a.map map ∧ StoreHandle.Queues a.scanStore store commands ∧
      ∀ c ∈ commands, c.isNeutral = true ∨ c = .DiscardActive := by
  have hfail : ∃ store commands, (a.failScanStore env (.store failure)).scanStore = store ∧
      (a.failScanStore env (.store failure)).map.publications = a.map.publications ∧
      Loses a.map (a.failScanStore env (.store failure)).map ∧
      StoreHandle.Queues a.scanStore store commands ∧
      ∀ c ∈ commands, c.isNeutral = true ∨ c = .DiscardActive := by
    unfold failScanStore abandonScanStoreGenerationWithFailure abandonScanStoreGeneration
    split
    · obtain ⟨store, text, commands, heq, hq, hquiet⟩ := discardActive_eq env
        (a := { a with map := { a.map with scanStoreFailure := some (.store failure) } }) ht
      rw [heq]
      exact ⟨store, commands, rfl, rfl, ⟨⟨rfl, rfl, fun _ h => Or.inl h⟩, rfl, rfl, rfl,
        List.nil_subset _, fun _ _ => rfl⟩, hq, hquiet⟩
    · rename_i hno
      exact ⟨_, [], rfl, rfl, ⟨⟨rfl, rfl, fun _ h => Or.inl h⟩, Bool.eq_false_iff.mpr hno, rfl, rfl,
        fun _ h => h, fun hyes => absurd hyes hno⟩, .refl ht, fun _ hc => absurd hc List.not_mem_nil⟩
  obtain ⟨store, commands, hstore, hpubs, hloses, hq, hquiet⟩ := hfail
  obtain ⟨hstore', hnone, hloses'⟩ := lost_settleAll env w failure _
    (a.failScanStore env (.store failure)) rfl hloses.available
  exact ⟨store, commands, _, Prod.ext rfl (hstore'.trans hstore), hnone,
    hloses.trans hloses' (by rw [hpubs]; exact fun _ h => h), hq, hquiet⟩

/-- A failure the thread reports of no publication finds none outstanding. -/
def Calm (a : App) : Prop :=
  ∀ error, a.scanStore.told.head? = some (.Failure error) → a.map.publications = []

theorem moves_processNextEvent (hcalm : kind.calm → a.Calm) (hk : kind.takes) (hf : kind.finishes)
    (ht : a.scanStore.threaded = true) : Moves kind a.book (a.processNextEvent env w).book := by
  have hpoll := StoreHandle.polls_poll env.engine ht
  unfold processNextEvent
  dsimp only
  generalize a.scanStore.poll env.engine = polled at hpoll
  cases hpoll with
  | idle => exact .refl
  | stopped told gone =>
    obtain ⟨store, commands, map, heq, hnone, hloses, hq, hquiet⟩ := stopped_eq env w
      (a := { a with scanStore := { a.scanStore with unavailableReported := true } }) ht .stopped
    change Moves kind a.book (App.scanStoreStopped env w .stopped _).book
    rw [heq]
    exact .tail (.single (.stops hk told gone hnone hloses)) (.sends hq hquiet)
  | admissionFailed takes =>
    exact .head (.takes hk takes rfl) (moves_failScanStore env (a := { a with scanStore := _ })
      takes.threaded _)
  | page takes next =>
    obtain ⟨commands, hq, hneutral⟩ := next
    exact .head (.takes hk takes rfl) (.head (.sends hq fun c hc => Or.inl (hneutral c hc))
      (moves_applyProvisionalPage env w (a := { a with scanStore := _ }) hq.threaded _ _))
  | published takes => exact moves_applyPublicationResult env w hk hf ht takes rfl
  | overlaid takes => exact moves_applyPublicationResult env w hk hf ht takes rfl
  | failure takes =>
    rename_i h' error
    obtain ⟨store, commands, map, heq, hnone, hloses, hq, hquiet⟩ := stopped_eq env w
      (a := { a with scanStore := h' }) takes.threaded (.store error)
    change Moves kind a.book (App.scanStoreStopped env w (.store error) _).book
    rw [heq]
    refine .tail (.single (.fails hk takes (fun hyes => hcalm hyes error ?_) hnone hloses)) (.sends hq hquiet)
    rw [takes.told]
    rfl

end App

end Excise
