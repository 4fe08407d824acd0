import Excise.Lib.Triple
import Excise.Store.PageIndex
import Excise.Store.Runs

/-!
# The scan store: staging input runs

The active generation of `session.rs` and the admission of input runs into its run levels. Every
read and write of a run can fail: `Io` says, for one call, which ones do. What a call does to
`self` before it fails is kept, as in the source.
-/

namespace Excise
set_option autoImplicit false

/-- A refusal of the page-index database, or of the runs it reads and writes. -/
inductive PageIndexFault where
  | Io (kind : IoErrorKind)
  | Run (error : RunError)
  | Database
  deriving DecidableEq, Repr

inductive ScanStoreError where
  | Io (kind : IoErrorKind)
  | Run (error : RunError)
  | Merge (error : RunMergeError)
  | PathReduction (error : PathReductionError)
  | IdentityReduction (error : IdentityReductionError)
  | PageIndex (error : PageIndexError)
  | PageIndexFault (fault : PageIndexFault)
  | PathObservation (error : FactCodecError)
  | IdentityObservation (error : FactCodecError)
  | PathCatalog (error : PathCatalogError)
  | Manifest (error : ManifestError)
  | Recovery
  | NoActiveGeneration
  | NoPublishedGeneration
  | ClosedGeneration
  | GenerationMismatch
  | InvalidInputRunKind
  | NonMonotonicGeneration
  | RunIdOverflow
  | RunLevelOverflow
  | BatchTooLarge
  | LeaseSessionMismatch
  | LeaseGenerationMismatch
  | LeaseKindMismatch
  | DuplicateInputRun
  | OverlayNeedsRescan (reason : String)
  deriving DecidableEq, Repr

def IoErrorKind.isCapacity : IoErrorKind → Bool
  | .StorageFull | .QuotaExceeded => true
  | .Other => false

def RunError.isCapacity : RunError → Bool
  | .Io kind => kind.isCapacity
  | _ => false

/-- Walks the error chain to an `io::Error`. The page index wraps its own I/O errors
transparently, so the walk never reaches those. -/
def isScanStoreCapacityError : ScanStoreError → Bool
  | .Io kind => kind.isCapacity
  | .Run error => error.isCapacity
  | .Merge (.Run error) => error.isCapacity
  | .PageIndexFault (.Run error) => error.isCapacity
  | _ => false

/-- The pass that reads a run. -/
inductive ReadPass where
  | Merge
  | Provisional
  | Reduce
  | Catalog
  | Identity
  | SummaryRoot
  deriving DecidableEq, Repr

/-- A run as the environment knows it: a raw run by its descriptor, a derived one by its kind,
since one call writes at most one of each kind. -/
inductive RunSlot where
  | Input (descriptor : RunDescriptor)
  | Derived (kind : RunKind)

def RunDescriptor.slot (d : RunDescriptor) : RunSlot :=
  if isInputKind d.kind then .Input d else .Derived d.kind

/-- What the environment refuses during one call: creating the file of a run, writing or sealing
it, reading it back in a pass, and the page-index database. -/
structure Io where
  create : RunSlot → Option IoErrorKind
  write : RunSlot → Option RunError
  read : ReadPass → RunSlot → Option RunError
  index : Option PageIndexFault
  /-- The base run of an overlay fails after this many of its records. -/
  baseRead : Option (Nat × RunError)

/-- Nothing is refused. -/
def Io.none : Io := ⟨fun _ => .none, fun _ => .none, fun _ _ => .none, .none, .none⟩

abbrev FactRun := SealedRun Fact.key

def maxObservationsPerBatch : Nat := 128

/-! ## Writing and merging runs -/

/-- What the run writers change: the shared run-id counter and the active manifest. -/
structure Staging where
  nextRunId : UInt64
  manifest : ScanManifest

abbrev StagingM := EStateM ScanStoreError Staging

def newRunWriter (io : Io) (generation : ScanGeneration) (kind : RunKind) :
    StagingM RunDescriptor := fun s =>
  if 2 ^ 64 ≤ s.nextRunId.toNat + 1 then .error .RunIdOverflow s
  else
    match io.create (RunDescriptor.slot ⟨generation, s.nextRunId, kind⟩) with
    | some error => .error (.Io error) { s with nextRunId := s.nextRunId + 1 }
    | none => .ok ⟨generation, s.nextRunId, kind⟩ { s with nextRunId := s.nextRunId + 1 }

/-- Appending to the writer of `descriptor` and sealing it, with the outcome the records allow. -/
def writeRun {α : Type} (io : Io) (descriptor : RunDescriptor)
    (outcome : Except ScanStoreError α) : StagingM α := fun s =>
  match io.write descriptor.slot with
  | some error => .error (.Run error) s
  | none =>
    match outcome with
    | .error error => .error error s
    | .ok value => .ok value s

def readRun (io : Io) (pass : ReadPass) (descriptor : RunDescriptor) : StagingM Unit := fun s =>
  match io.read pass descriptor.slot with
  | some error => .error (.Run error) s
  | none => .ok () s

def readRuns (io : Io) (pass : ReadPass) : List RunDescriptor → StagingM Unit
  | [] => pure ()
  | descriptor :: rest => do
    readRun io pass descriptor
    readRuns io pass rest

def recordAddedRun (descriptor : RunDescriptor) : StagingM Unit := fun s =>
  match ScanManifest.addRun descriptor s.manifest with
  | .ok () manifest => .ok () { s with manifest := manifest }
  | .error error _ => .error (.Manifest error) s

def recordReplacedRuns (removed : List RunDescriptor) (descriptor : RunDescriptor) :
    StagingM Unit := fun s =>
  match ScanManifest.replaceRuns removed descriptor s.manifest with
  | .ok () manifest => .ok () { s with manifest := manifest }
  | .error error _ => .error (.Manifest error) s

def mergedRun (runs : List FactRun) (descriptor : RunDescriptor) : Except ScanStoreError FactRun :=
  match mergeSortedRuns runs (RunWriter.new descriptor) with
  | .error error => .error (.Merge error)
  | .ok writer => .ok writer.sealRun

def mergeFamily (io : Io) (generation : ScanGeneration) (kind : RunKind) :
    List FactRun → StagingM FactRun
  | [] => do
    let descriptor ← newRunWriter io generation kind
    let output ← writeRun io descriptor (.ok (RunWriter.new descriptor : RunWriter Fact.key).sealRun)
    recordAddedRun descriptor
    pure output
  | [run] => pure run
  | runs => do
    readRuns io .Merge (runs.map SealedRun.descriptor)
    let descriptor ← newRunWriter io generation kind
    let output ← writeRun io descriptor (mergedRun runs descriptor)
    recordReplacedRuns (runs.map SealedRun.descriptor) descriptor
    pure output

/-- Folds full levels into the next one until none is left. -/
def compactLoop (io : Io) (generation : ScanGeneration) (kind : RunKind)
    (levels : RunLevels Fact.key) (s : Staging) :
    RunLevels Fact.key × EStateM.Result ScanStoreError Staging Unit :=
  match _ht : levels.takeFullLevel with
  | none => (levels, .ok () s)
  | some (level, runs, rest) =>
    match mergeFamily io generation kind runs s with
    | .error error s => (rest, .error error s)
    | .ok merged s =>
      match _hp : rest.pushMerged level merged with
      | none => (rest, .error .RunLevelOverflow s)
      | some levels' => compactLoop io generation kind levels' s
termination_by levels.intoRuns.length
decreasing_by
  obtain ⟨hlen, -, -, hperm⟩ := RunLevels.takeFullLevel_spec _ht
  have h1 := hperm.length_eq
  have h2 := (RunLevels.pushMerged_intoRuns _hp).length_eq
  rw [List.length_append] at h1
  rw [List.length_cons] at h2
  unfold maxActiveInputRuns at hlen
  omega

/-- One round of `merge_tiered_family`: consecutive groups of the fan-in. -/
def mergeGroups (io : Io) (generation : ScanGeneration) (kind : RunKind) :
    List FactRun → StagingM (List FactRun)
  | [] => pure []
  | first :: rest => do
    let merged ← mergeFamily io generation kind (first :: rest.take (maxActiveInputRuns - 1))
    let next ← mergeGroups io generation kind (rest.drop (maxActiveInputRuns - 1))
    pure (merged :: next)
termination_by runs => runs.length
decreasing_by
  rw [List.length_drop, List.length_cons]
  omega

theorem mergeGroups_length (io : Io) (generation : ScanGeneration) (kind : RunKind)
    (pending : List FactRun) :
    Triple (fun _ => True) (mergeGroups io generation kind pending)
      (fun next _ => next.length ≤ pending.length ∧ (2 ≤ pending.length → next.length < pending.length))
      (fun _ _ => True) := by
  have htriv (c : StagingM FactRun) :
      Triple (fun _ => True) c (fun _ _ => True) (fun _ _ => True) :=
    Triple.of_result fun _ _ => ⟨fun _ _ _ => trivial, fun _ _ _ => trivial⟩
  induction hn : pending.length using Nat.strong_induction_on generalizing pending with
  | _ n ih =>
    cases pending with
    | nil =>
      rw [mergeGroups]
      apply Triple.pure
      intro s hs
      subst hn
      simp
    | cons first rest =>
      rw [mergeGroups]
      rw [List.length_cons] at hn
      have hdrop : (rest.drop (maxActiveInputRuns - 1)).length < n := by
        rw [List.length_drop]
        omega
      apply Triple.bind (htriv _)
      intro merged
      apply Triple.bind (ih _ hdrop _ rfl)
      intro next
      apply Triple.pure
      intro s hs
      obtain ⟨h1, -⟩ := hs
      rw [List.length_drop] at h1
      simp only [List.length_cons, maxActiveInputRuns] at *
      omega

/-- The rounds of `merge_tiered_family`, until one run is left. -/
def mergeRounds (io : Io) (generation : ScanGeneration) (kind : RunKind) (pending : List FactRun)
    (s : Staging) : EStateM.Result ScanStoreError Staging FactRun :=
  match pending with
  | [] => mergeFamily io generation kind [] s
  | [run] => .ok run s
  | first :: second :: rest =>
    match _h : mergeGroups io generation kind (first :: second :: rest) s with
    | .error error s => .error error s
    | .ok next s => mergeRounds io generation kind next s
termination_by pending.length
decreasing_by
  exact ((mergeGroups_length io generation kind _).ok trivial _h).2 (by simp)

def mergeTieredFamily (io : Io) (generation : ScanGeneration) (kind : RunKind)
    (levels : RunLevels Fact.key) : StagingM FactRun := fun s =>
  mergeRounds io generation kind levels.intoRuns s

end Excise
