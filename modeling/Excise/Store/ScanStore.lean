import Excise.Store.Session
import Excise.Coordinator.State

/-!
# The scan store

The owner's operations of `session.rs`: beginning, feeding, closing and publishing a generation,
overlays of a published one, and handing a publication over. The rendering of the live page is
left out; only whether one is kept matters to the admission of a run.
-/

namespace Excise
set_option autoImplicit false

structure ActiveGeneration where
  manifest : ScanManifest
  pathRuns : RunLevels Fact.key
  identityRuns : RunLevels Fact.key
  unrecordedPathCount : Nat
  unreadableDirectories : Finset RelativePath
  unreadableDirectoriesOverflowed : Bool
  acceptedRunIds : Finset UInt64
  hasProvisionalPage : Bool

abbrev ChildQueryRun := SealedRun PageRecord.key

structure PublishedGeneration where
  manifest : ScanManifest
  childQueries : ChildQueryRun
  pathCatalog : SealedRun PathCatalogEntry.path
  identityIndex : FactRun
  directorySummaryIndex : SealedRun (Prod.fst : Nat × DirectorySummary → Nat)
  rootPageMetrics : SummaryMetrics
  rootPageCoverage : Coverage
  unrecordedPathCount : Nat
  unreadableDirectories : Finset RelativePath
  unreadableDirectoriesOverflowed : Bool

structure SummaryOnlyGeneration where
  manifest : ScanManifest
  directorySummaries : SealedRun (Prod.fst : Nat × DirectorySummary → Nat)
  rootMetrics : SummaryMetrics
  rootCoverage : Coverage
  unrecordedPathCount : Nat

inductive Publication where
  | Published (generation : PublishedGeneration)
  | SummaryOnly (generation : SummaryOnlyGeneration)

structure ScanStore where
  session : ScanSessionId
  nextRunId : UInt64
  active : Option ActiveGeneration
  published : Option PublishedGeneration
  summaryOnly : Option SummaryOnlyGeneration
  retiredGeneration : Option ScanGeneration
  handedOffGeneration : Option ScanGeneration

abbrev StoreM := EStateM ScanStoreError ScanStore

/-! ## The active generation -/

/-- The two families of raw facts, each with a pyramid of its own. -/
inductive InputFamily where
  | Paths
  | Identities
  deriving DecidableEq, Repr

namespace InputFamily

def kind : InputFamily → RunKind
  | .Paths => .PathObservation
  | .Identities => .IdentityObservation

def other : InputFamily → InputFamily
  | .Paths => .Identities
  | .Identities => .Paths

end InputFamily

/-- The pyramid `input_runs_mut` selects; `none` is its `InvalidInputRunKind`. -/
def RunKind.family? : RunKind → Option InputFamily
  | .PathObservation => some .Paths
  | .IdentityObservation => some .Identities
  | _ => none

namespace ActiveGeneration

/-- A generation begins scanning at once: `Creating` admits the transition. -/
def new (session : ScanSessionId) (generation : ScanGeneration) : ActiveGeneration where
  manifest := { ScanManifest.new session generation with state := .Scanning }
  pathRuns := .empty
  identityRuns := .empty
  unrecordedPathCount := 0
  unreadableDirectories := ∅
  unreadableDirectoriesOverflowed := false
  acceptedRunIds := ∅
  hasProvisionalPage := false

def generation (a : ActiveGeneration) : ScanGeneration := a.manifest.generation

def unreadable (a : ActiveGeneration) : UnreadableDirectories :=
  if a.unreadableDirectoriesOverflowed then .Overflowed else .Tracked a.unreadableDirectories

def runsOf (a : ActiveGeneration) : InputFamily → RunLevels Fact.key
  | .Paths => a.pathRuns
  | .Identities => a.identityRuns

def setRunsOf (a : ActiveGeneration) (family : InputFamily) (levels : RunLevels Fact.key) :
    ActiveGeneration :=
  match family with
  | .Paths => { a with pathRuns := levels }
  | .Identities => { a with identityRuns := levels }

/-- `let _ = manifest.transition(Incomplete)`: a refused transition changes nothing. -/
def markIncomplete (a : ActiveGeneration) : ActiveGeneration :=
  match ScanManifest.transition .Incomplete a.manifest with
  | .ok () manifest | .error _ manifest => { a with manifest := manifest }

/-- `record_unreadable_directory_with_cap`. -/
def recordUnreadable (active : ActiveGeneration) (path : RelativePath) (cap : Nat) :
    ActiveGeneration :=
  if active.unreadableDirectoriesOverflowed then active
  else
    let tracked := insert path active.unreadableDirectories
    if cap < tracked.card then
      { active with unreadableDirectories := ∅, unreadableDirectoriesOverflowed := true }
    else { active with unreadableDirectories := tracked }

end ActiveGeneration

namespace ScanStore

def new (session : ScanSessionId) (generation : ScanGeneration) : ScanStore where
  session := session
  nextRunId := 0
  active := some (ActiveGeneration.new session generation)
  published := none
  summaryOnly := none
  retiredGeneration := none
  handedOffGeneration := none

def activeGeneration (s : ScanStore) : Option ScanGeneration :=
  s.active.map ActiveGeneration.generation

/-- The newest generation this store still knows of. -/
def latestGeneration (s : ScanStore) : Option ScanGeneration :=
  [s.activeGeneration, s.published.map (·.manifest.generation),
    s.summaryOnly.map (·.manifest.generation), s.retiredGeneration,
    s.handedOffGeneration].reduceOption.max?

def beginGeneration (generation : ScanGeneration) : StoreM Unit := fun s =>
  if s.latestGeneration.any fun latest => decide (generation ≤ latest) then
    .error .NonMonotonicGeneration s
  else .ok () { s with active := some (ActiveGeneration.new s.session generation) }

/-- The active generation is taken first: a refused transition drops it. -/
def closeActive (terminal : ScanGenerationState) : StoreM Unit := fun s =>
  match s.active with
  | none => .ok () s
  | some active =>
    if active.manifest.state = terminal then
      .ok () { s with active := none, retiredGeneration := some active.generation }
    else
      match ScanManifest.transition terminal active.manifest with
      | .error error _ => .error (.Manifest error) { s with active := none }
      | .ok () manifest =>
        .ok () { s with active := none, retiredGeneration := some manifest.generation }

def discardActive : StoreM Unit := closeActive .Incomplete

def cancelActive : StoreM Unit := closeActive .Cancelled

/-- `self.handed_off_generation.max(Some(generation))`. -/
def noteHandedOff (s : ScanStore) (generation : ScanGeneration) : ScanStore :=
  { s with
    handedOffGeneration :=
      match s.handedOffGeneration with
      | none => some generation
      | some handed => some (max handed generation) }

def takePublication : StoreM (Option Publication) := fun s =>
  match s.summaryOnly with
  | some summary =>
    .ok (some (.SummaryOnly summary))
      ({ s with summaryOnly := none }.noteHandedOff summary.manifest.generation)
  | none =>
    match s.published with
    | none => .ok none s
    | some published =>
      .ok (some (.Published published))
        ({ s with published := none }.noteHandedOff published.manifest.generation)

/-- Scanning or reducing becomes incomplete; any other state is left alone. -/
def markActiveIncomplete (s : ScanStore) : ScanStore :=
  { s with
    active := s.active.map fun active =>
      if active.manifest.acceptsRuns then active.markIncomplete else active }

/-! ## Notes -/

def recordUnrecordedPaths (count : Nat) (s : ScanStore) : ScanStore :=
  { s with
    active := s.active.map fun active =>
      { active with unrecordedPathCount := satAdd 64 active.unrecordedPathCount count } }

def maxTrackedUnreadableDirectories : Nat := 4096

def recordUnreadableDirectory (path : RelativePath) (s : ScanStore) : ScanStore :=
  { s with
    active := s.active.map fun active =>
      active.recordUnreadable path maxTrackedUnreadableDirectories }

/-! ## Admission -/

def acceptingGeneration (s : ScanStore) : Except ScanStoreError ScanGeneration :=
  match s.active with
  | none => .error .NoActiveGeneration
  | some active =>
    if active.manifest.state ≠ .Scanning then .error .ClosedGeneration else .ok active.generation

/-- Takes the run into the manifest; the run levels follow. A failure keeps everything but the
live page, which has seen part of the run. -/
def takeRun (io : Io) (run : FactRun) (active : ActiveGeneration) :
    EStateM.Result ScanStoreError ActiveGeneration Unit :=
  let descriptor := run.descriptor
  let isPath := decide (descriptor.kind = .PathObservation)
  if descriptor.runId ∈ active.acceptedRunIds then .error .DuplicateInputRun active
  else
    let observed := if isPath && active.hasProvisionalPage then io.read .Provisional descriptor.slot else none
    match observed with
    | some error => .error (.Run error) { active with hasProvisionalPage := false }
    | none =>
      match ScanManifest.addRun descriptor active.manifest with
      | .error error _ =>
        .error (.Manifest error)
          { active with hasProvisionalPage := active.hasProvisionalPage && !isPath }
      | .ok () manifest =>
        .ok ()
          { active with
            manifest := manifest
            acceptedRunIds := insert descriptor.runId active.acceptedRunIds }

/-- `compact_active_input_family` on an active generation taken out of the store. -/
def compactActive (io : Io) (family : InputFamily) (levels : RunLevels Fact.key) (nextRunId : UInt64)
    (active : ActiveGeneration) : UInt64 × ActiveGeneration × Except ScanStoreError Unit :=
  let r := compactLoop io active.generation family.kind levels ⟨nextRunId, active.manifest⟩
  match r.2 with
  | .ok () s => (s.nextRunId, { active with manifest := s.manifest }.setRunsOf family r.1, .ok ())
  | .error error s =>
    (s.nextRunId, { active with manifest := s.manifest }.setRunsOf family r.1, .error error)

def acceptInputRun (io : Io) (run : FactRun) : StoreM Unit := fun s =>
  let descriptor := run.descriptor
  if !isInputKind descriptor.kind then .error .InvalidInputRunKind s
  else
    match s.acceptingGeneration with
    | .error error => .error error s
    | .ok generation =>
      if descriptor.generation ≠ generation then .error .GenerationMismatch s
      else
        match s.active with
        | none => .error .NoActiveGeneration s
        | some active =>
          match takeRun io run active with
          | .error error active => .error error { s with active := some active }
          | .ok () active =>
            match descriptor.kind.family? with
            | none => .error .InvalidInputRunKind { s with active := none }
            | some family =>
              let r := compactActive io family ((active.runsOf family).push run) s.nextRunId active
              let s := { s with nextRunId := r.1, active := some r.2.1 }
              match r.2.2 with
              | .ok () => .ok () s
              | .error error => .error error s.markActiveIncomplete

/-- `true` when the run was admitted now, `false` when it was before. -/
def acceptLeasedInputRun (io : Io) (lease : WorkLease) (run : FactRun) : StoreM Bool := fun s =>
  if lease.key.session ≠ s.session then .error .LeaseSessionMismatch s
  else if lease.key.kind ≠ .EnumerateDirectory then .error .LeaseKindMismatch s
  else if run.descriptor.generation ≠ lease.key.generation then .error .LeaseGenerationMismatch s
  else if s.active.any fun active => decide (run.descriptor.runId ∈ active.acceptedRunIds) then
    .ok false s
  else
    match acceptInputRun io run s with
    | .ok () s => .ok true s
    | .error error s => .error error s

end ScanStore

/-! ## Batches -/

def Fact.encodeCheck : Fact → Except ScanStoreError Unit
  | .path o =>
    match o.encodeCheck with
    | .ok () => .ok ()
    | .error error => .error (.PathObservation error)
  | .identity o =>
    match o.encodeCheck with
    | .ok () => .ok ()
    | .error error => .error (.IdentityObservation error)

/-- `append_path_observation` and `append_identity_observation`. -/
def appendFact (writer : RunWriter Fact.key) (fact : Fact) :
    Except ScanStoreError (RunWriter Fact.key) :=
  match fact.encodeCheck with
  | .error error => .error error
  | .ok () =>
    match writer.append fact with
    | .error error => .error (.Run error)
    | .ok writer => .ok writer

/-- The facts of one family as a batch orders them. -/
def sortFacts (facts : List Fact) : List Fact := facts.mergeSort fun a b => decide (a.key ≤ b.key)

def sealFamily (io : Io) (generation : ScanGeneration) (kind : RunKind) (facts : List Fact) :
    StagingM (List FactRun) :=
  if facts.isEmpty then pure []
  else do
    let descriptor ← newRunWriter io generation kind
    let run ← writeRun io descriptor
      (((sortFacts facts).foldlM appendFact (RunWriter.new descriptor)).map RunWriter.sealRun)
    pure [run]

def sealObservationBatch (io : Io) (generation : ScanGeneration) (paths : List PathObservation)
    (identities : List IdentityObservation) : StagingM (List FactRun) := fun s =>
  if maxObservationsPerBatch < paths.length ∨ maxObservationsPerBatch < identities.length then
    .error .BatchTooLarge s
  else
    (do
      let pathRuns ← sealFamily io generation .PathObservation (paths.map Fact.path)
      let identityRuns ← sealFamily io generation .IdentityObservation (identities.map Fact.identity)
      pure (pathRuns ++ identityRuns) : StagingM (List FactRun)) s

namespace ScanStore

def acceptRuns (io : Io) : List FactRun → StoreM Unit
  | [] => pure ()
  | run :: rest => do
    acceptInputRun io run
    acceptRuns io rest

/-- The factory of the active generation seals the batch; nothing of it is admitted before. -/
def appendSealedObservationBatch (io : Io) (paths : List PathObservation)
    (identities : List IdentityObservation) : StoreM Unit := fun s =>
  match s.acceptingGeneration, s.active with
  | .error error, _ => .error error s
  | .ok _, none => .error .NoActiveGeneration s
  | .ok generation, some active =>
    match sealObservationBatch io generation paths identities ⟨s.nextRunId, active.manifest⟩ with
    | .error error staging => .error error { s with nextRunId := staging.nextRunId }
    | .ok runs staging => acceptRuns io runs { s with nextRunId := staging.nextRunId }

def appendObservationBatch (io : Io) (paths : List PathObservation)
    (identities : List IdentityObservation) : StoreM Unit := fun s =>
  match appendSealedObservationBatch io paths identities s with
  | .ok () s => .ok () s
  | .error error s => .error error s.markActiveIncomplete

end ScanStore

end Excise
