import Excise.Deletion.Plan
import Excise.Deletion.RecordSpill
import Excise.Lib.JsonText

/-!
# Where a plan and its results are kept

The storage of `deletion.rs`: the entries of a plan, the directories still to be read and the
results of the deletion, each in memory until it moves to a spill file, and the place that is
reserved for a result when its entry is planned.
-/

namespace Excise
set_option autoImplicit false

def maxPlanSpillRecordBytes : Nat := 1024 * 1024

def maxJsonEscapedBytesPerInputByte : Nat := 6

def resultSpillEnvelopeBytes : Nat := 64

def maxResultSpillRecordBytes : Nat :=
  maxPlanSpillRecordBytes + maxOutcomeDetailBytes * maxJsonEscapedBytesPerInputByte +
    resultSpillEnvelopeBytes

def maxResidentDirectoryTasks : Nat := 64

/-- What `RecordSpill::new` meets, and what the file it makes meets. -/
structure SpillSource where
  host : SpillHost
  key : Except StorageError SpillAuthenticationKey

/-- What planning uses of its surroundings: sizes in memory, the texts of other crates, the
allocator's answer to a vector that is to hold so many entries, and the spill files. -/
structure PlanHost extends Host where
  plannedEntryBytes : Nat
  /-- The text of a name and whether it is deceptive. -/
  safeDisplayOsStr : OsString → String × Bool
  base64 : List UInt8 → List UInt8
  fileIdText : FileId → List UInt8
  decodeSpilledEntry : List UInt8 → Except StorageError PlannedEntry
  reserveEntries : Nat → Except String Unit
  reserveResults : Nat → Except String Unit
  reserveEntries_small : ∀ n, reserveEntries n = .ok () → n < 2 ^ 63
  entriesSpill : SpillSource
  pendingSpill : SpillSource
  resultsSpill : SpillSource

inductive PlanningError where
  | Synthetic
  | MemoryLimit (limit : Nat)
  | Storage (path message : String) (kind : StorageErrorKind)
  | Refused (e : DeletionPlanError)

variable (host : PlanHost)

def RelativePath.native (p : RelativePath) : NativePath := p.components.map Component.bytes

def safePathText (path : RelativePath) : String := host.safeDisplayPathText path.native

/-- `plan_io` of a failure of the storage. -/
def planStorageIo (context : RelativePath) (e : StorageError) : PlanningError :=
  .Storage (safePathText host context) (host.safeDisplayText e.message) e.kind

/-! ## Records -/

def RelativePath.nativeBytes (p : RelativePath) : List UInt8 :=
  List.intercalate [0x2F] (p.components.map Component.bytes)

/-- `NativePath::encode` on Unix, as `EncodedNativePath` is written. -/
def encodePathText (p : RelativePath) : List UInt8 :=
  jsonObject [("encoding", jsonString (ascii "unix-bytes")),
    ("data", jsonString (host.base64 p.nativeBytes))]

def encodeIdentityText (identity : NativeIdentity) : List UInt8 :=
  jsonObject [("file_id", host.fileIdText identity.fileId),
    ("link_count", jsonOption jsonNumber identity.linkCount),
    ("reparse_point", jsonBool identity.reparsePoint)]

def PlannedKind.text : PlannedKind → String
  | .Directory => "directory"
  | .File => "file"
  | .Link => "link"

def encodeSnapshotText (snapshot : PlannedSnapshot) : List UInt8 :=
  jsonObject [("identity", encodeIdentityText host snapshot.identity),
    ("kind", jsonString (ascii snapshot.kind.text)),
    ("apparent_bytes", jsonNumber snapshot.apparentBytes),
    ("allocated_bytes", jsonOption jsonNumber snapshot.allocatedBytes),
    ("modified_nanos", jsonOption jsonNumber snapshot.modifiedNanos)]

def utf8Bytes (text : String) : List UInt8 := text.toUTF8.data.toList

def encodeOutcomeText : DeletionEntryOutcome → List UInt8
  | .Deleted => jsonString (ascii "deleted")
  | .Changed detail => jsonObject [("changed", jsonString (utf8Bytes detail))]
  | .Missing => jsonString (ascii "missing")
  | .Failed detail => jsonObject [("failed", jsonString (utf8Bytes detail))]
  | .Unattempted => jsonString (ascii "unattempted")

def encodeSpilledEntry (entry : PlannedEntry) : List UInt8 :=
  jsonObject [("relative_path", encodePathText host entry.relativePath),
    ("snapshot", encodeSnapshotText host entry.snapshot)]

def encodeSpilledResult (result : DeletionEntryResult) : List UInt8 :=
  jsonObject [("relative_path", encodePathText host result.entry.relativePath),
    ("snapshot", encodeSnapshotText host result.entry.snapshot),
    ("outcome", encodeOutcomeText result.outcome)]

/-! ## What an entry is charged -/

def resultSpillRecordCapacity (entry : PlannedEntry) : Except StorageError Nat :=
  let base := (encodeSpilledResult host ⟨entry, .Changed ""⟩).length
  let payload :=
    base + maxOutcomeDetailBytes * maxJsonEscapedBytesPerInputByte + resultSpillEnvelopeBytes
  if 2 ^ 64 ≤ payload then .error ⟨.Other, "deletion result spill record length overflow"⟩
  else if maxResultSpillRecordBytes < payload then
    .error ⟨.InvalidData, "deletion result spill record exceeds the configured limit"⟩
  else RecordSpill.spillRecordLen payload

def plannedEntryResidentBytes (entry : PlannedEntry) : Nat :=
  satAdd 64 (satAdd 64 host.plannedEntryBytes
    (min (entry.relativePath.nativeLength * 2) (satMax 64))) 128

def resultEntryBound (entry : PlannedEntry) : Nat :=
  satAdd 64 (satAdd 64 (satAdd 64 host.resultEntryBytes
    (min (entry.relativePath.nativeLength * 2) (satMax 64))) maxOutcomeDetailBytes) 128

/-! ## Spill files -/

/-- A planning step gives up when its storage fails. -/
def runSpill {α : Type} (c : SpillM α) (spill : RecordSpill) :
    Except StorageError (α × RecordSpill) :=
  match c spill with
  | .ok a spill => .ok (a, spill)
  | .error e _ => .error e

/-- `RecordSpill::new`. -/
def SpillSource.open (source : SpillSource) (maximumPayload : Nat) :
    Except StorageError RecordSpill :=
  source.key.map fun key => RecordSpill.new key maximumPayload

def pushEntry (source : SpillSource) (spill : RecordSpill) (entry : PlannedEntry) :
    Except StorageError RecordSpill :=
  (runSpill (RecordSpill.push source.host (encodeSpilledEntry host entry)) spill).map Prod.snd

/-- A record of a spill file that is to hold entries of the plan of `target`. -/
def decodeFor (target : RelativePath) (payload : List UInt8) : Except PlanningError PlannedEntry :=
  match host.decodeSpilledEntry payload with
  | .error e => .error (planStorageIo host target e)
  | .ok entry => .ok entry

/-- `validate_entry_for_target`: a path of valid components can only lie elsewhere. -/
def validateEntryForTarget (entry target : RelativePath) : Except PlanningError Unit :=
  if target.isRoot then .error (.Refused .Root)
  else if entry.startsWith target then .ok ()
  else .error (.Refused .InvalidRelativePath)

/-! ## The entries of a plan -/

inductive PlanEntries where
  | InMemory (entries : List PlannedEntry)
  | Spilled (spill : RecordSpill)

namespace PlanEntries

def isSpilled : PlanEntries → Bool
  | .InMemory _ => false
  | .Spilled _ => true

def len : PlanEntries → Nat
  | .InMemory entries => entries.length
  | .Spilled spill => spill.records

def push (entries : PlanEntries) (entry : PlannedEntry) (spill : Bool) :
    Except StorageError PlanEntries :=
  match entries with
  | .InMemory retained =>
    if spill then do
      let spilled ← host.entriesSpill.open maxPlanSpillRecordBytes
      let spilled ← retained.foldlM (pushEntry host host.entriesSpill) spilled
      let spilled ← pushEntry host host.entriesSpill spilled entry
      return .Spilled spilled
    else
      match host.reserveEntries (retained.length + 1) with
      | .error text => .error ⟨.Other, text⟩
      | .ok () => .ok (.InMemory (retained ++ [entry]))
  | .Spilled spilled => (pushEntry host host.entriesSpill spilled entry).map .Spilled

/-- Checks an entry and shows it to the visitor of a pass, who is told how many came before. -/
def visitEntry (target : RelativePath) (visit : Nat → PlannedEntry → Except PlanningError Unit)
    (seen : Nat) (entry : PlannedEntry) : Except PlanningError Unit := do
  validateEntryForTarget entry.relativePath target
  visit seen entry

def visitPayload (target : RelativePath) (visit : Nat → PlannedEntry → Except PlanningError Unit)
    (seen : Nat) (payload : List UInt8) : Except PlanningError Unit := do
  visitEntry target visit seen (← decodeFor host target payload)

/-- What the visitor says when the records handed over so far end in this one. -/
def verdict (target : RelativePath) (visit : Nat → PlannedEntry → Except PlanningError Unit)
    (handed : List (List UInt8)) : Except PlanningError Unit :=
  match handed.getLast? with
  | none => .ok ()
  | some payload => visitPayload host target visit (handed.length - 1) payload

def visitResident (target : RelativePath)
    (visit : Nat → PlannedEntry → Except PlanningError Unit) :
    Nat → List PlannedEntry → Except PlanningError Unit
  | _, [] => .ok ()
  | seen, entry :: rest => do
    visitEntry target visit seen entry
    visitResident target visit (seen + 1) rest

/-- `try_for_each`; the file of a spill has been read afterwards. -/
def tryForEach (entries : PlanEntries) (target : RelativePath)
    (visit : Nat → PlannedEntry → Except PlanningError Unit) : Except PlanningError PlanEntries :=
  match entries with
  | .InMemory resident => (visitResident target visit 0 resident).map fun _ => .InMemory resident
  | .Spilled spill =>
    match RecordSpill.visit host.entriesSpill.host
        (fun handed => (verdict host target visit handed).isOk) spill with
    | ((_, .ok ()), spill) => .ok (.Spilled spill)
    | ((_, .error (.Io e)), _) => .error (planStorageIo host target e)
    | ((handed, .error .Visitor), spill) =>
      (verdict host target visit handed).map fun _ => .Spilled spill

end PlanEntries

/-! ## The directories still to be read -/

structure PendingDirectories where
  resident : List PlannedEntry
  spill : Option RecordSpill

namespace PendingDirectories

def push (pending : PendingDirectories) (entry : PlannedEntry) :
    Except StorageError PendingDirectories :=
  if pending.resident.length < maxResidentDirectoryTasks then
    .ok { pending with resident := pending.resident ++ [entry] }
  else do
    let spill ← match pending.spill with
      | some spill => .ok spill
      | none => host.pendingSpill.open maxPlanSpillRecordBytes
    let spill ← pushEntry host host.pendingSpill spill entry
    return { pending with spill := some spill }

/-- What `pop` takes, before it is checked. -/
def take (pending : PendingDirectories) (target : RelativePath) :
    Except PlanningError (Option PlannedEntry × PendingDirectories) :=
  match pending.resident.getLast? with
  | some entry => .ok (some entry, { pending with resident := pending.resident.dropLast })
  | none =>
    match pending.spill with
    | none => .ok (none, pending)
    | some spill =>
      match runSpill (RecordSpill.pop host.pendingSpill.host) spill with
      | .error e => .error (planStorageIo host target e)
      | .ok (none, spill) => .ok (none, { pending with spill := some spill })
      | .ok (some payload, spill) =>
        (decodeFor host target payload).map fun entry =>
          (some entry, { pending with spill := some spill })

def pop (pending : PendingDirectories) (target : RelativePath) :
    Except PlanningError (Option PlannedEntry × PendingDirectories) := do
  match ← pending.take host target with
  | (none, pending) => return (none, pending)
  | (some entry, pending) =>
    validateEntryForTarget entry.relativePath target
    return (some entry, pending)

end PendingDirectories

/-! ## The results to come -/

inductive PlannedResultStorage where
  | InMemory (maximumBytes potentialSpillBytes : Nat)
  | Spilled (resultSpill : RecordSpill)

namespace PlannedResultStorage

def new (maximumBytes : Nat) : PlannedResultStorage := .InMemory maximumBytes 0

/-- `reserve_to` of the result spill. -/
def reserveTo (resultSpill : RecordSpill) (bytes : Nat) : Except StorageError RecordSpill :=
  (runSpill (RecordSpill.growTo host.resultsSpill.host bytes) resultSpill).map Prod.snd

def nextReservation (reserved recordBytes : Nat) : Except StorageError Nat :=
  if 2 ^ 64 ≤ reserved + recordBytes then
    .error ⟨.Other, "deletion result spill reservation overflow"⟩
  else .ok (reserved + recordBytes)

def reserveFor (storage : PlannedResultStorage) (entry : PlannedEntry) (spill : Bool) :
    Except StorageError PlannedResultStorage := do
  let recordBytes ← resultSpillRecordCapacity host entry
  match storage with
  | .InMemory maximumBytes potentialSpillBytes =>
    let next ← nextReservation potentialSpillBytes recordBytes
    if spill then
      let resultSpill ← host.resultsSpill.open maxResultSpillRecordBytes
      return .Spilled (← reserveTo host resultSpill next)
    else return .InMemory maximumBytes next
  | .Spilled resultSpill =>
    let next ← nextReservation resultSpill.reserved recordBytes
    return .Spilled (← reserveTo host resultSpill next)

end PlannedResultStorage

/-! ## Planning one entry -/

structure PlanningStorage where
  entries : PlanEntries
  resultStorage : PlannedResultStorage
  estimatedBytes : Nat
  /-- History: the entries planned so far. -/
  planned : List PlannedEntry

def PlanningStorage.push (s : PlanningStorage) (entry : PlannedEntry) (maximumBytes : Nat)
    (allowSpill : Bool) (context : RelativePath) : Except PlanningError PlanningStorage :=
  let required := satAdd 64 (plannedEntryResidentBytes host entry) (resultEntryBound host entry)
  let next := satAdd 64 s.estimatedBytes required
  if maximumBytes < next && !allowSpill then .error (.MemoryLimit maximumBytes)
  else do
    let spill := allowSpill && decide (maximumBytes < next)
    let resultStorage ← (s.resultStorage.reserveFor host entry spill).mapError
      (planStorageIo host context)
    let entries ← (s.entries.push host entry spill).mapError (planStorageIo host context)
    return {
      entries := entries
      resultStorage := resultStorage
      estimatedBytes := if entries.isSpilled then 0 else next
      planned := s.planned ++ [entry] }

/-! ## Collecting the results -/

inductive CollectedResults where
  | InMemory (entries : List DeletionEntryResult) (estimatedBytes maximumBytes : Nat)
  | Spilled (resultSpill : RecordSpill)

/-- `ResultCollector` of the source, with the place of its records. -/
structure StoredCollector where
  results : CollectedResults
  target : RelativePath
  targetRemoved : Bool
  summary : DeletionSummary

def PlannedResultStorage.intoCollector (storage : PlannedResultStorage) (target : RelativePath) :
    StoredCollector where
  results :=
    match storage with
    | .InMemory maximumBytes _ => .InMemory [] 0 maximumBytes
    | .Spilled resultSpill => .Spilled resultSpill
  target := target
  targetRemoved := false
  summary := {}

namespace StoredCollector

def noted (c : StoredCollector) (result : DeletionEntryResult) : StoredCollector :=
  { c with
    targetRemoved := c.targetRemoved || resultRemovesTarget result c.target
    summary := c.summary.note result }

/-- `push` of a result whose detail is bounded. -/
def store (c : StoredCollector) (result : DeletionEntryResult) :
    Except StorageError Unit × StoredCollector :=
  match c.results with
  | .InMemory entries estimatedBytes maximumBytes =>
    let next := satAdd 64 estimatedBytes (resultEntryResidentBytes host.toHost result)
    if maximumBytes < next then
      (.error ⟨.StorageFull, "deletion result exceeds its resident storage limit"⟩, c)
    else
      match host.reserveResults (entries.length + 1) with
      | .error text => (.error ⟨.Other, text⟩, c)
      | .ok () => (.ok (), { c with results := .InMemory (entries ++ [result]) next maximumBytes })
  | .Spilled resultSpill =>
    match RecordSpill.pushReserved host.resultsSpill.host (encodeSpilledResult host result)
        resultSpill with
    | .ok () resultSpill => (.ok (), { c with results := .Spilled resultSpill })
    | .error e resultSpill => (.error e, { c with results := .Spilled resultSpill })

def push (c : StoredCollector) (result : DeletionEntryResult) :
    Except StorageError Unit × StoredCollector :=
  let bounded := { result with outcome := result.outcome.bound }
  (c.noted bounded).store host bounded

/-- One result after the other, until a push fails. -/
def pushAll (c : StoredCollector) : List DeletionEntryResult →
    Except StorageError Unit × StoredCollector
  | [] => (.ok (), c)
  | result :: rest =>
    match c.push host result with
    | (.ok (), c) => c.pushAll rest
    | (.error e, c) => (.error e, c)

end StoredCollector

end Excise
