import Excise.Deletion.Plan
import Excise.Lib.Interaction

/-!
# The isolation executor

`execute_plan_unix_with_mutation_gate` and what it calls, as a program over its system calls, the
cancellation flags and the mutation gate. An entry is isolated by exchanging its name with that of
a placeholder, inspected twice under the private name, and removed there.
-/

namespace Excise
set_option autoImplicit false

/-- An open directory, file, or link reference. -/
abbrev Handle := Nat

inductive ExecutorCall where
  | loadSoft
  | storeSoft
  | loadHard
  | tryClaim
  | tryBegin
  | openRoot
  | visitEntries
  | visitEntry (entry : PlannedEntry)
  | popReverse (entry : Option PlannedEntry)
  | storeResult (result : DeletionEntryResult)
  | cloneRoot (root : Handle)
  | openDirNofollow (parent : Handle) (name : OsString)
  | placeholderName
  | createNew (parent : Handle) (name : OsString)
  | fileMetadata (file : Handle)
  | statAt (parent : Handle) (name : OsString)
  | statOpen (directory : Handle)
  | exchange (parent : Handle) (source target : OsString)
  | renameNoreplace (parent : Handle) (source target : OsString)
  | removeFile (parent : Handle) (name : OsString)
  | removeDir (parent : Handle) (name : OsString)
  | removePlaceholder (parent : Handle) (name : OsString)
  | openReference (parent : Handle) (name : OsString) (expected : NativeIdentity)
  | referenceLinks (reference : Handle)
  | addProgress

/-- A `stat` may hold a value that cannot be kept. -/
def ExecutorCall.Answer : ExecutorCall → Type
  | .loadSoft | .loadHard | .tryClaim | .tryBegin => Bool
  | .storeSoft | .addProgress => Unit
  | .openRoot => Except DeletionPlanError Handle
  | .visitEntries | .visitEntry _ | .popReverse _ => Option DeletionPlanError
  | .storeResult _ => Option IoError
  | .cloneRoot _ | .openDirNofollow _ _ | .createNew _ _ => Except IoError Handle
  | .placeholderName => Except IoError OsString
  | .fileMetadata _ | .statOpen _ => Except IoError PlannedSnapshot
  | .statAt _ _ => Except IoError (Except String PlannedSnapshot)
  | .exchange .. | .renameNoreplace .. | .removeFile .. | .removeDir .. | .removePlaceholder .. =>
    Option IoError
  | .openReference .. => Option Handle
  | .referenceLinks _ => Option Nat

def executorSignature : Signature := ⟨ExecutorCall, ExecutorCall.Answer⟩

abbrev Executor (α : Type) := Program executorSignature α

namespace Executor

def loadSoft : Executor Bool := .ask (S := executorSignature) .loadSoft
def storeSoft : Executor Unit := .ask (S := executorSignature) .storeSoft
def loadHard : Executor Bool := .ask (S := executorSignature) .loadHard
def tryClaim : Executor Bool := .ask (S := executorSignature) .tryClaim
def tryBegin : Executor Bool := .ask (S := executorSignature) .tryBegin
def openRoot : Executor (Except DeletionPlanError Handle) := .ask (S := executorSignature) .openRoot
def visitEntries : Executor (Option DeletionPlanError) := .ask (S := executorSignature) .visitEntries
def visitEntry (entry : PlannedEntry) : Executor (Option DeletionPlanError) :=
  .ask (S := executorSignature) (.visitEntry entry)
def popReverse (entry : Option PlannedEntry) : Executor (Option DeletionPlanError) :=
  .ask (S := executorSignature) (.popReverse entry)
def storeResult (result : DeletionEntryResult) : Executor (Option IoError) :=
  .ask (S := executorSignature) (.storeResult result)
def cloneRoot (root : Handle) : Executor (Except IoError Handle) :=
  .ask (S := executorSignature) (.cloneRoot root)
def openDirNofollow (parent : Handle) (name : OsString) : Executor (Except IoError Handle) :=
  .ask (S := executorSignature) (.openDirNofollow parent name)
def placeholderName : Executor (Except IoError OsString) :=
  .ask (S := executorSignature) .placeholderName
def createNew (parent : Handle) (name : OsString) : Executor (Except IoError Handle) :=
  .ask (S := executorSignature) (.createNew parent name)
def fileMetadata (file : Handle) : Executor (Except IoError PlannedSnapshot) :=
  .ask (S := executorSignature) (.fileMetadata file)
def statAt (parent : Handle) (name : OsString) :
    Executor (Except IoError (Except String PlannedSnapshot)) :=
  .ask (S := executorSignature) (.statAt parent name)
def statOpen (directory : Handle) : Executor (Except IoError PlannedSnapshot) :=
  .ask (S := executorSignature) (.statOpen directory)
def exchange (parent : Handle) (source target : OsString) : Executor (Option IoError) :=
  .ask (S := executorSignature) (.exchange parent source target)
def renameNoreplace (parent : Handle) (source target : OsString) : Executor (Option IoError) :=
  .ask (S := executorSignature) (.renameNoreplace parent source target)
def removeFile (parent : Handle) (name : OsString) : Executor (Option IoError) :=
  .ask (S := executorSignature) (.removeFile parent name)
def removeDir (parent : Handle) (name : OsString) : Executor (Option IoError) :=
  .ask (S := executorSignature) (.removeDir parent name)
def removePlaceholder (parent : Handle) (name : OsString) : Executor (Option IoError) :=
  .ask (S := executorSignature) (.removePlaceholder parent name)
def openReference (parent : Handle) (name : OsString) (expected : NativeIdentity) :
    Executor (Option Handle) :=
  .ask (S := executorSignature) (.openReference parent name expected)
def referenceLinks (reference : Handle) : Executor (Option Nat) :=
  .ask (S := executorSignature) (.referenceLinks reference)
def addProgress : Executor Unit := .ask (S := executorSignature) .addProgress

variable (host : Host)

/-! ## Names and inspection -/

/-- The walk of `open_parent` through the folders above the entry. -/
def openParents (relative : NativePath) (parent : Handle) :
    List Component → Executor (Except DeletionPlanError Handle)
  | [] => pure (.ok parent)
  | c :: rest => do
    match ← openDirNofollow parent c.bytes with
    | .error e => pure (.error (planIo host relative e))
    | .ok next => openParents relative next rest

def openParent (root : Handle) (relative : RelativePath) :
    Executor (Except DeletionPlanError (Handle × OsString)) :=
  match relative.components.getLast? with
  | none => pure (.error .Root)
  | some name => do
    match ← cloneRoot root with
    | .error e => pure (.error (planIo host (relative.components.map Component.bytes) e))
    | .ok parent =>
      match ← openParents host (relative.components.map Component.bytes) parent
          relative.components.dropLast with
      | .error e => pure (.error e)
      | .ok parent => pure (.ok (parent, name.bytes))

/-- A folder is read through its own handle, anything else by one `fstatat`. -/
def inspectChild (parent : Handle) (name : OsString) (displayPath : NativePath) :
    Executor (Except DeletionPlanError PlannedSnapshot) := do
  match ← statAt parent name with
  | .error e => pure (.error (planIo host displayPath e))
  | .ok (.error message) =>
    pure (.error (.Unrepresentable (host.safeDisplayPathText displayPath)
      (host.safeDisplayText message)))
  | .ok (.ok stat) =>
    if stat.kind = .Directory then
      match ← openDirNofollow parent name with
      | .error e => pure (.error (planIo host displayPath e))
      | .ok handle =>
        match ← statOpen handle with
        | .error e => pure (.error (planIo host displayPath e))
        | .ok snapshot => pure (.ok snapshot)
    else pure (.ok stat)

/-- `inspect_relative`: an entry that is no longer there is missing. -/
def inspectRelative (root : Handle) (relative : RelativePath) :
    Executor (Except DeletionPlanError PlannedSnapshot) := do
  match ← openParent host root relative with
  | .error e => pure (.error e)
  | .ok (parent, name) =>
    match ← inspectChild host parent name (relative.components.map Component.bytes) with
    | .error e => pure (.error (if e.isNotFound then .Missing relative else e))
    | .ok snapshot => pure (.ok snapshot)

def placeholderNameAttempts : Nat := 128

def createPlaceholder (parent : Handle) : Nat → Executor (Except IoError (OsString × PlannedSnapshot))
  | 0 => pure (.error ⟨.AlreadyExists, "could not reserve an isolated deletion name"⟩)
  | attempts + 1 => do
    match ← placeholderName with
    | .error e => pure (.error e)
    | .ok name =>
      match ← createNew parent name with
      | .ok file =>
        match ← fileMetadata file with
        | .error e => pure (.error e)
        | .ok snapshot => pure (.ok (name, snapshot))
      | .error e => if e.kind = .AlreadyExists then createPlaceholder parent attempts else pure (.error e)

def otherError (message : String) : IoError := ⟨.Other, message⟩

def removeVerifiedPlaceholder (parent : Handle) (name : OsString) (expected : PlannedSnapshot) :
    Executor (Option IoError) := do
  match ← inspectChild host parent name [name] with
  | .error e => pure (some (otherError (e.display host)))
  | .ok actual =>
    if actual ≠ expected then
      pure (some (otherError "isolated deletion placeholder identity changed"))
    else removePlaceholder parent name

/-- The check both `restore_detached` and `finalize_placeholder` start with. -/
def originalHoldsPlaceholder (parent : Handle) (original : OsString) (placeholder : PlannedSnapshot) :
    Executor (Option IoError) := do
  match ← inspectChild host parent original [original] with
  | .error e => pure (some (otherError (e.display host)))
  | .ok actual =>
    if actual ≠ placeholder then
      pure (some (otherError "original name no longer contains the deletion placeholder"))
    else pure none

def restoreDetached (parent : Handle) (original detached : OsString) (placeholder : PlannedSnapshot) :
    Executor (Option IoError) := do
  match ← originalHoldsPlaceholder host parent original placeholder with
  | some e => pure (some e)
  | none =>
    match ← exchange parent original detached with
    | some e => pure (some e)
    | none => removeVerifiedPlaceholder host parent detached placeholder

/-- The renames of `finalize_placeholder`; a refused name is never used again. -/
def finalizeFrom (parent : Handle) (original : OsString) (placeholder : PlannedSnapshot) :
    Nat → OsString → Executor (Option IoError)
  | 0, _ => pure (some ⟨.AlreadyExists,
      "could not reserve a private name to remove the deletion placeholder"⟩)
  | attempts + 1, name => do
    match ← renameNoreplace parent original name with
    | none => removeVerifiedPlaceholder host parent name placeholder
    | some e =>
      if e.kind = .AlreadyExists then
        match ← placeholderName with
        | .error e => pure (some e)
        | .ok fresh => finalizeFrom parent original placeholder attempts fresh
      else pure (some e)

def finalizePlaceholder (parent : Handle) (original detached : OsString)
    (placeholder : PlannedSnapshot) : Executor (Option IoError) := do
  match ← originalHoldsPlaceholder host parent original placeholder with
  | some e => pure (some e)
  | none => finalizeFrom host parent original placeholder placeholderNameAttempts detached

/-! ## One entry -/

structure Isolation where
  deep : Bool
  refused : Bool
  noLinkSurvived : Bool

/-- What the executor learns of an entry: its outcome, the entry with the link count it saw, and
how its isolation went. -/
structure Executed where
  outcome : DeletionEntryOutcome
  entry : PlannedEntry
  isolation : Isolation

/-- What is known of the isolated entry while its removal is decided. -/
structure Detached where
  parent : Handle
  original : OsString
  detached : OsString
  placeholder : PlannedSnapshot

def withLinkCount (entry : PlannedEntry) (linkCount : Option Nat) : PlannedEntry :=
  { entry with snapshot :=
    { entry.snapshot with identity := { entry.snapshot.identity with linkCount := linkCount } } }

def entryPath (entry : PlannedEntry) : NativePath := entry.relativePath.components.map Component.bytes

/-- The entry is gone from its private name: only the placeholder is left to remove. -/
def finalizeTo (d : Detached) (outcome : DeletionEntryOutcome) (failure : String) :
    Executor DeletionEntryOutcome := do
  match ← finalizePlaceholder host d.parent d.original d.detached d.placeholder with
  | none => pure outcome
  | some e => pure (.Failed (failure ++ "; namespace cleanup failed: " ++ e.message))

/-- The entry goes back to its name: `restored` when that works, `failure` with the reason else. -/
def restoreTo (d : Detached) (restored : DeletionEntryOutcome) (failure : String) :
    Executor DeletionEntryOutcome := do
  match ← restoreDetached host d.parent d.original d.detached d.placeholder with
  | none => pure restored
  | some e => pure (.Failed (failure ++ "; namespace recovery failed: " ++ e.message))

/-- An inspection of the isolated entry that failed. -/
def inspectionFailed (d : Detached) (e : DeletionPlanError) : Executor DeletionEntryOutcome :=
  if e.isNotFound then finalizeTo host d .Missing "isolated entry disappeared"
  else restoreTo host d (.Failed (e.display host)) (e.display host)

def changedDetail : String := "identity, type, size, allocation, or modification changed"

/-- The removal by the kind of the entry. -/
def removeTarget (d : Detached) : PlannedKind → Executor (Option IoError)
  | .Directory => removeDir d.parent d.detached
  | .File | .Link => removeFile d.parent d.detached

/-- The links that outlive the removal, as far as a reference counts them. -/
def survivingLinks : Option Handle → Executor (Option Nat)
  | none => pure none
  | some reference => referenceLinks reference

/-- A reference is made to a file or link that had one link when it was isolated. -/
def linkReference (d : Detached) (kind : PlannedKind) (actual : NativeIdentity) :
    Executor (Option Handle) :=
  if kind.isFileOrLink && decide (actual.linkCount = some 1) then
    openReference d.parent d.detached actual
  else pure none

/-- The removal and what its answer leads to. -/
def removeIsolated (d : Detached) (entry : PlannedEntry) (isolation : Isolation)
    (reference : Option Handle) : Executor Executed := do
  match ← removeTarget d entry.snapshot.kind with
  | none =>
    if entry.snapshot.kind.isFileOrLink then
      let links ← survivingLinks reference
      let outcome ← finalizeTo host d .Deleted "target deleted"
      if links = some 0 then
        pure ⟨outcome, entry, { isolation with noLinkSurvived := true }⟩
      else
        pure ⟨outcome, withLinkCount entry none, { isolation with noLinkSurvived := false }⟩
    else
      let outcome ← finalizeTo host d .Deleted "target deleted"
      pure ⟨outcome, entry, isolation⟩
  | some e =>
    if e.kind = .NotFound then
      let outcome ← finalizeTo host d .Missing "target disappeared"
      pure ⟨outcome, entry, isolation⟩
    else if e.kind = .DirectoryNotEmpty then
      let outcome ← restoreTo host d (.Changed "directory contains a new or changed entry")
        "directory changed"
      pure ⟨outcome, entry, isolation⟩
    else
      let outcome ← restoreTo host d (.Failed e.message) e.message
      pure ⟨outcome, entry, isolation⟩

/-- The two inspections under the private name, and the removal. -/
def executeIsolated (d : Detached) (entry : PlannedEntry) (isolation : Isolation) :
    Executor Executed := do
  match ← inspectChild host d.parent d.detached (entryPath entry) with
  | .error e => do
    let outcome ← inspectionFailed host d e
    pure ⟨outcome, entry, isolation⟩
  | .ok actual =>
    if !matchesForExecution entry.snapshot actual then
      let outcome ← restoreTo host d (.Changed changedDetail) "entry changed"
      pure ⟨outcome, withLinkCount entry actual.identity.linkCount, isolation⟩
    else
      addProgress
      match ← inspectChild host d.parent d.detached (entryPath entry) with
      | .error e => do
        let outcome ← inspectionFailed host d e
        pure ⟨outcome, withLinkCount entry actual.identity.linkCount, isolation⟩
      | .ok revalidated =>
        if !matchesForExecution entry.snapshot revalidated then
          let outcome ← restoreTo host d (.Changed changedDetail) "entry changed"
          pure ⟨outcome, withLinkCount entry actual.identity.linkCount, isolation⟩
        else
          let reference ← linkReference d entry.snapshot.kind actual.identity
          removeIsolated host d (withLinkCount entry revalidated.identity.linkCount) isolation
            reference

section Gate
variable (tryClaimMutation tryBeginMutation : Executor Bool)

/-- An isolation that the system refused. -/
def isolationFailed (d : Detached) (entry : PlannedEntry) (isolation : Isolation) (e : IoError) :
    Executor Executed := do
  let cleanup ← removeVerifiedPlaceholder host d.parent d.detached d.placeholder
  if e.kind = .NotFound then
    match cleanup with
    | some c =>
      pure ⟨.Failed ("target disappeared; placeholder cleanup failed: " ++ c.message), entry,
        isolation⟩
    | none => pure ⟨.Missing, entry, isolation⟩
  else
    let detail :=
      match cleanup with
      | some c => e.message ++ "; placeholder cleanup failed: " ++ c.message
      | none => e.message
    pure ⟨.Failed (if isolation.deep then
        "the system refuses the rename that isolates an entry this deep: " ++ detail
      else detail), entry, { isolation with refused := true }⟩

def executeUnixEntry (root : Handle) (entry : PlannedEntry) (isolation : Isolation) :
    Executor Executed := do
  match ← openParent host root entry.relativePath with
  | .error e =>
    if e.isNotFound then
      pure ⟨.Changed "entry parent or namespace disappeared", entry, isolation⟩
    else pure ⟨.Failed (e.display host), entry, isolation⟩
  | .ok (parent, original) =>
    if ← tryClaimMutation then
      match ← createPlaceholder parent placeholderNameAttempts with
      | .error e => pure ⟨.Failed e.message, entry, isolation⟩
      | .ok (detached, placeholder) =>
        if ← tryBeginMutation then
          match ← exchange parent detached original with
          | some e => isolationFailed host ⟨parent, original, detached, placeholder⟩ entry isolation e
          | none => executeIsolated host ⟨parent, original, detached, placeholder⟩ entry isolation
        else
          storeSoft
          match ← removeVerifiedPlaceholder host parent detached placeholder with
          | some e =>
            pure ⟨.Failed ("cancellation placeholder cleanup failed: " ++ e.message), entry,
              isolation⟩
          | none => pure ⟨.Unattempted, entry, isolation⟩
    else pure ⟨.Unattempted, entry, isolation⟩

/-! ## The plan -/

/-- `ResultCollector::push`: what it notes stays noted when the record cannot be stored. -/
def push (r : ResultCollector) (result : DeletionEntryResult) :
    Executor (ResultCollector × Option IoError) :=
  let bounded := { result with outcome := result.outcome.bound }
  match r.storage with
  | .InMemory estimatedBytes maximumBytes =>
    let next := satAdd 64 estimatedBytes (resultEntryResidentBytes host bounded)
    if next > maximumBytes then
      pure (r.noted bounded, some ⟨.StorageFull,
        "deletion result exceeds its resident storage limit"⟩)
    else do
      match ← storeResult bounded with
      | some e => pure (r.noted bounded, some e)
      | none => pure (r.stored bounded (.InMemory next maximumBytes), none)
  | .Spilled => do
    match ← storeResult bounded with
    | some e => pure (r.noted bounded, some e)
    | none => pure (r.stored bounded .Spilled, none)

section Plan
variable (scanRoot : OsString) (plan : DeletionPlan)

def reportFromParts (r : ResultCollector) (softCancelled precise complete : Bool)
    (error : Option String) : DeletionReport where
  rootRelativePath := plan.rootRelativePath
  scanRoot := scanRoot
  entries := r.finish complete error
  softCancelled := softCancelled
  precise := precise
  estimatedBytes := plan.estimatedBytes

def finishReport (r : ResultCollector) (softCancelled precise : Bool) : DeletionReport :=
  reportFromParts scanRoot plan r softCancelled precise true none

def incompleteReport (r : ResultCollector) (softCancelled : Bool) (error : String) :
    DeletionReport :=
  reportFromParts scanRoot plan r softCancelled false false (some (boundedOutcomeDetail error))

def resultStorageFailureReport (r : ResultCollector) (e : IoError) (softCancelled : Bool) :
    DeletionReport :=
  incompleteReport scanRoot plan r softCancelled
    ("deletion result storage failed during execution: " ++ e.message)

def planReadFailureReport (r : ResultCollector) (e : DeletionPlanError) (softCancelled : Bool) :
    Executor DeletionReport := do
  let marker : DeletionEntryResult :=
    ⟨⟨plan.rootRelativePath, plan.rootSnapshot⟩,
      .Failed ("deletion plan storage failed during execution: " ++ e.display host)⟩
  match ← push host r marker with
  | (r, some e) => pure (resultStorageFailureReport scanRoot plan r e softCancelled)
  | (r, none) =>
    pure (incompleteReport scanRoot plan r softCancelled
      "deletion plan storage could not be read; no further entries were executed")

/-- `failed_report`, from the entries that are left in reverse order. -/
def failedReport (message : String) :
    ResultCollector → List PlannedEntry → Executor DeletionReport
  | r, [] => do
    match ← popReverse none with
    | some e => planReadFailureReport host scanRoot plan r e false
    | none => pure (finishReport scanRoot plan r false true)
  | r, entry :: rest => do
    match ← popReverse (some entry) with
    | some e => planReadFailureReport host scanRoot plan r e false
    | none =>
      match ← push host r ⟨entry, .Failed message⟩ with
      | (r, some e) => pure (resultStorageFailureReport scanRoot plan r e false)
      | (r, none) => failedReport message r rest

/-- The outcome of an executed entry as it is recorded. -/
def recorded (executed : Executed) : DeletionEntryResult :=
  ⟨if executed.outcome = .Deleted then noteDeletedLink executed.entry else executed.entry,
    executed.outcome⟩

/-- The test before an entry: `stopped || soft || hard`, each loaded only when it is reached. -/
def mayExecute (stopped : Bool) : Executor Bool := do
  if stopped then pure false
  else
    if ← loadSoft then pure false
    else
      if ← loadHard then pure false
      else pure true

/-- An entry left unattempted stops the run. -/
def stopAfter (outcome : DeletionEntryOutcome) : Executor Unit :=
  if outcome = .Unattempted then storeSoft else pure ()

/-- One entry, from the loop's test to its recorded result: the collector, whether to stop, and
what storing the result answered. -/
def executeEntry (root : Handle) (r : ResultCollector) (stopped : Bool) (entry : PlannedEntry) :
    Executor (ResultCollector × Bool × Option IoError) := do
  if ← mayExecute stopped then
    let executed ← executeUnixEntry host tryClaimMutation tryBeginMutation root entry
      ⟨pastPathMax scanRoot entry.relativePath, false, false⟩
    stopAfter executed.outcome
    let (collected, error) ← push host
      (if removedWithOtherLinks executed.entry.snapshot.kind executed.outcome
          executed.isolation.noLinkSurvived then r.noteOtherLinks else r) (recorded executed)
    pure (collected, decide (executed.outcome = .Unattempted) ||
      executed.isolation.deep && executed.isolation.refused, error)
  else
    let (collected, error) ← push host r ⟨entry, .Unattempted⟩
    pure (collected, true, error)

/-- The loop over the entries that are left, in reverse order. -/
def executeEntries (root : Handle) :
    ResultCollector → Bool → List PlannedEntry → Executor DeletionReport
  | r, _, [] => do
    match ← popReverse none with
    | some e =>
      let soft ← loadSoft
      planReadFailureReport host scanRoot plan r e soft
    | none =>
      let soft ← loadSoft
      let hard ← loadHard
      pure (finishReport scanRoot plan r soft !hard)
  | r, stopped, entry :: rest => do
    match ← popReverse (some entry) with
    | some e =>
      let soft ← loadSoft
      planReadFailureReport host scanRoot plan r e soft
    | none =>
      match ← executeEntry host tryClaimMutation tryBeginMutation scanRoot root r stopped entry with
      | (r, _, some e) =>
        let soft ← loadSoft
        pure (resultStorageFailureReport scanRoot plan r e soft)
      | (r, stopped, none) => executeEntries root r stopped rest

def executePlan (storage : ResultStorage) : Executor DeletionReport := do
  let r := storage.intoCollector plan.rootRelativePath
  match ← openRoot with
  | .error e =>
    failedReport host scanRoot plan (boundedOutcomeDetail (e.display host)) r plan.entries.reverse
  | .ok root =>
    match ← visitEntries with
    | some e =>
      failedReport host scanRoot plan (boundedOutcomeDetail (e.display host)) r plan.entries.reverse
    | none =>
      executeEntries host tryClaimMutation tryBeginMutation scanRoot plan root r false
        plan.entries.reverse

end Plan

end Gate

/-! ## The worker -/

/-- The entries of `revalidate_plan_cancellable` that are left. -/
def revalidateEntries (root : Handle) (target : RelativePath) :
    List PlannedEntry → Executor (Option DeletionPlanError)
  | [] => pure none
  | entry :: rest => do
    match ← visitEntry entry with
    | some e => pure (some e)
    | none =>
      if ← loadSoft then pure (some .Cancelled)
      else
        match ← inspectRelative host root entry.relativePath with
        | .error (.Missing path) =>
          pure (some (if path = target then .Missing path else .Changed))
        | .error e => pure (some e)
        | .ok actual =>
          if actual ≠ entry.snapshot then pure (some .Changed)
          else revalidateEntries root target rest

def revalidatePlan (plan : DeletionPlan) : Executor (Option DeletionPlanError) := do
  match ← openRoot with
  | .error e => pure (some e)
  | .ok root => revalidateEntries host root plan.rootRelativePath plan.entries

/-- The gate of `execution_worker`: no claim and no start once the session is cancelled. -/
def gatedClaim : Executor Bool := do
  if ← loadHard then pure false else tryClaim

def gatedBegin : Executor Bool := do
  if ← loadHard then pure false else tryBegin

/-- One command of `execution_worker`: the rejection of a stale plan or the report. -/
def executionWorker (scanRoot : OsString) (plan : DeletionPlan) (storage : ResultStorage) :
    Executor (Except DeletionPlanError DeletionReport) := do
  match ← revalidatePlan host plan with
  | some e => pure (.error e)
  | none =>
    let report ← executePlan host gatedClaim gatedBegin scanRoot plan storage
    pure (.ok report)

end Executor

end Excise
