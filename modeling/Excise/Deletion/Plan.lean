import Excise.Lib.Saturating
import Excise.Store.Facts

/-!
# Deletion plans and reports

The data of `deletion.rs`: what was reviewed of an entry, what became of it, and the report that
collects the outcomes. The collector keeps its records in memory up to a limit or in a spill file;
the storage of one record is a step of the executor.
-/

namespace Excise
set_option autoImplicit false

inductive PlannedKind where
  | Directory
  | File
  | Link
  deriving DecidableEq, Repr

structure PlannedSnapshot where
  identity : NativeIdentity
  kind : PlannedKind
  apparentBytes : Nat
  allocatedBytes : Option Nat
  modifiedNanos : Option Nat
  deriving DecidableEq

structure PlannedEntry where
  relativePath : RelativePath
  snapshot : PlannedSnapshot

structure DeletionPlan where
  rootRelativePath : RelativePath
  entries : List PlannedEntry
  rootSnapshot : PlannedSnapshot
  estimatedBytes : Nat

inductive ErrorKind where
  | NotFound
  | AlreadyExists
  | DirectoryNotEmpty
  | StorageFull
  | Other
  deriving DecidableEq, Repr

structure IoError where
  kind : ErrorKind
  message : String

inductive DeletionPlanError where
  | Root
  | InvalidRelativePath
  | Changed
  | Cancelled
  | Missing (path : RelativePath)
  | Io (path message : String) (kind : ErrorKind)
  | Unrepresentable (path message : String)

/-- How names and texts are made safe to show, and the size of a record in memory. -/
structure Host where
  safeDisplayText : String → String
  safeDisplayPathText : NativePath → String
  resultEntryBytes : Nat

namespace DeletionPlanError

def display (host : Host) : DeletionPlanError → String
  | .Root => "scan, filesystem, and mount roots cannot be deleted"
  | .InvalidRelativePath => "deletion target is not a safe relative path"
  | .Changed => "deletion target changed while its plan was built"
  | .Cancelled => "deletion planning was cancelled"
  | .Missing path =>
    "planned deletion entry is missing: " ++
      host.safeDisplayPathText (path.components.map Component.bytes)
  | .Io path message _ | .Unrepresentable path message =>
    "deletion planning failed for " ++ host.safeDisplayText path ++ ": " ++
      host.safeDisplayText message

/-- The guard `DeletionPlanError::Io { kind: NotFound, .. }`. -/
def isNotFound : DeletionPlanError → Bool
  | .Io _ _ kind => decide (kind = .NotFound)
  | _ => false

end DeletionPlanError

def planIo (host : Host) (path : NativePath) (error : IoError) : DeletionPlanError :=
  .Io (host.safeDisplayPathText path) (host.safeDisplayText error.message) error.kind

def sameObject (expected actual : NativeIdentity) : Bool :=
  decide (expected.fileId = actual.fileId) && decide (expected.reparsePoint = actual.reparsePoint)

def matchesForExecution (expected actual : PlannedSnapshot) : Bool :=
  sameObject expected.identity actual.identity && decide (expected.kind = actual.kind) &&
    (decide (expected.kind = .Directory) ||
      (decide (expected.apparentBytes = actual.apparentBytes) &&
        decide (expected.allocatedBytes = actual.allocatedBytes) &&
        decide (expected.modifiedNanos = actual.modifiedNanos)))

/-! ## Outcomes -/

inductive DeletionEntryOutcome where
  | Deleted
  | Changed (detail : String)
  | Missing
  | Failed (detail : String)
  | Unattempted
  deriving DecidableEq, Repr

structure DeletionEntryResult where
  entry : PlannedEntry
  outcome : DeletionEntryOutcome

def maxOutcomeDetailBytes : Nat := 128

def outcomeDetailTruncation : String := "…"

/-- The longest front of a text that takes at most `limit` bytes. -/
def takeBytes : Nat → List Char → List Char
  | _, [] => []
  | limit, c :: cs => if c.utf8Size ≤ limit then c :: takeBytes (limit - c.utf8Size) cs else []

def boundedOutcomeDetail (detail : String) : String :=
  if detail.utf8ByteSize ≤ maxOutcomeDetailBytes then detail
  else
    String.ofList (takeBytes (maxOutcomeDetailBytes - outcomeDetailTruncation.utf8ByteSize)
      detail.toList) ++ outcomeDetailTruncation

def DeletionEntryOutcome.bound : DeletionEntryOutcome → DeletionEntryOutcome
  | .Changed detail => .Changed (boundedOutcomeDetail detail)
  | .Failed detail => .Failed (boundedOutcomeDetail detail)
  | outcome => outcome

structure DeletionSummary where
  deleted : Nat := 0
  changed : Nat := 0
  missing : Nat := 0
  failed : Nat := 0
  unattempted : Nat := 0
  deletedApparentBytes : Nat := 0
  deletedAllocatedBytes : Nat := 0
  deletedWithOtherLinks : Bool := false

def PlannedKind.isFileOrLink : PlannedKind → Bool
  | .Directory => false
  | .File | .Link => true

def DeletionSummary.note (s : DeletionSummary) (result : DeletionEntryResult) : DeletionSummary :=
  match result.outcome with
  | .Deleted =>
    { s with
      deleted := satAdd 64 s.deleted 1
      deletedApparentBytes := satAdd 128 s.deletedApparentBytes result.entry.snapshot.apparentBytes
      deletedAllocatedBytes :=
        if result.entry.snapshot.kind.isFileOrLink &&
            decide (result.entry.snapshot.identity.linkCount = some 1) then
          satAdd 128 s.deletedAllocatedBytes (result.entry.snapshot.allocatedBytes.getD 0)
        else s.deletedAllocatedBytes }
  | .Changed _ => { s with changed := satAdd 64 s.changed 1 }
  | .Missing => { s with missing := satAdd 64 s.missing 1 }
  | .Failed _ => { s with failed := satAdd 64 s.failed 1 }
  | .Unattempted => { s with unattempted := satAdd 64 s.unattempted 1 }

/-! ## Collecting results -/

inductive ResultStorage where
  | InMemory (estimatedBytes maximumBytes : Nat)
  | Spilled

/-- Of either storage the records in the order of their push. -/
structure ResultCollector where
  entries : List DeletionEntryResult
  storage : ResultStorage
  target : RelativePath
  targetRemoved : Bool
  summary : DeletionSummary

/-- `PlannedResultStorage::into_collector`. -/
def ResultStorage.intoCollector (storage : ResultStorage) (target : RelativePath) :
    ResultCollector where
  entries := []
  storage := storage
  target := target
  targetRemoved := false
  summary := {}

def resultRemovesTarget (result : DeletionEntryResult) (target : RelativePath) : Bool :=
  decide (result.entry.relativePath = target) &&
    (decide (result.outcome = .Deleted) || decide (result.outcome = .Missing))

/-- The bytes of a relative path with its separators. -/
def RelativePath.nativeLength (p : RelativePath) : Nat :=
  (p.components.map fun c => c.bytes.length).sum + (p.components.length - 1)

def DeletionEntryOutcome.detailBytes : DeletionEntryOutcome → Nat
  | .Changed detail | .Failed detail => detail.utf8ByteSize
  | .Deleted | .Missing | .Unattempted => 0

def resultEntryResidentBytes (host : Host) (result : DeletionEntryResult) : Nat :=
  satAdd 64 (satAdd 64 (satAdd 64 host.resultEntryBytes
    (min (result.entry.relativePath.nativeLength * 2) (satMax 64))) result.outcome.detailBytes) 128

namespace ResultCollector

def noteOtherLinks (r : ResultCollector) : ResultCollector :=
  { r with summary := { r.summary with deletedWithOtherLinks := true } }

/-- What `push` notes before it stores the record. -/
def noted (r : ResultCollector) (result : DeletionEntryResult) : ResultCollector :=
  { r with
    targetRemoved := r.targetRemoved || resultRemovesTarget result r.target
    summary := r.summary.note result }

def stored (r : ResultCollector) (result : DeletionEntryResult) (storage : ResultStorage) :
    ResultCollector :=
  { r.noted result with entries := r.entries ++ [result], storage := storage }

end ResultCollector

structure DeletionEntries where
  entries : List DeletionEntryResult
  summary : DeletionSummary
  targetRemoved : Bool
  complete : Bool
  error : Option String

def ResultCollector.finish (r : ResultCollector) (complete : Bool) (error : Option String) :
    DeletionEntries where
  entries := r.entries
  summary := r.summary
  targetRemoved := r.targetRemoved
  complete := complete
  error := error.map boundedOutcomeDetail

structure DeletionReport where
  rootRelativePath : RelativePath
  scanRoot : OsString
  entries : DeletionEntries
  softCancelled : Bool
  precise : Bool
  estimatedBytes : Nat

/-- A link that may remain outside the target keeps no speculative count. -/
def noteDeletedLink (entry : PlannedEntry) : PlannedEntry :=
  if entry.snapshot.kind.isFileOrLink &&
      (entry.snapshot.identity.linkCount.any fun count => decide (1 < count)) then
    { entry with snapshot :=
      { entry.snapshot with identity := { entry.snapshot.identity with linkCount := none } } }
  else entry

def removedWithOtherLinks (kind : PlannedKind) (outcome : DeletionEntryOutcome)
    (noLinkSurvived : Bool) : Bool :=
  kind.isFileOrLink && !decide (outcome = .Unattempted) && !noLinkSurvived

def pathMax : Nat := 4096

def pastPathMax (scanRoot : OsString) (relative : RelativePath) : Bool :=
  decide (pathMax ≤ satAdd 64 (satAdd 64 scanRoot.length 1) relative.nativeLength)

end Excise
