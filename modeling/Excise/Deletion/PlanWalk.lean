import Excise.Deletion.PlanStorage
import Excise.Lib.Search
import Excise.Rail.State

/-!
# Building a plan

`build_plan` of `deletion.rs`: the target is checked against what was shown, the tree below it is
read folder by folder, every entry goes into the plan and every folder among them is read in turn.
What the file system answers comes with each call, by the number of calls before it.
-/

namespace Excise
set_option autoImplicit false

structure ReviewedEntry where
  relativePath : RelativePath
  snapshot : PlannedSnapshot

structure PlanTarget extends FileToDelete where
  synthetic : Bool
  expectedSnapshot : EntrySnapshot
  reviewedEntries : List ReviewedEntry

/-- Why the status of an entry gives no snapshot. -/
inductive InspectFailure where
  | Io (e : IoError)
  | Unrepresentable (message : String)

/-- A snapshot is that of a directory exactly when a handle of it comes with it. -/
structure PlanWorld where
  openRoot : Nat → Option DeletionPlanError
  openParent : Nat → RelativePath → Option IoError
  mountRoot : Nat → RelativePath → Except IoError Bool
  inspect : Nat → RelativePath → Except InspectFailure PlannedSnapshot
  readDir : Nat → RelativePath → Except IoError (List (Except IoError OsString))
  cancelled : Nat → Bool

/-! ## The challenge -/

inductive ConfirmationChallenge where
  | ConfirmFile
  | TypeName (name : String)
  | TypePhrase (phrase : String)
  | ReducedGuard

def challengeAlphabet : List Char := "ABCDEFGHJKLMNPQRSTUVWXYZ23456789".toList

def challengeCode (text : List UInt8) : String :=
  let hash := text.foldl (fun hash byte => (hash ^^^ byte.toNat) * 0x100000001b3 % 2 ^ 64)
    0xcbf29ce484222325
  String.ofList ((List.range 4).map fun shift =>
    (challengeAlphabet[hash >>> (shift * 5) % 32]?).getD 'A')

variable (host : PlanHost)

def challengeFor (target : PlanTarget) (snapshot : PlannedSnapshot) (reducedGuardrails : Bool) :
    ConfirmationChallenge :=
  let name := host.safeDisplayOsStr ((target.pathToFile.getLast?.map Component.bytes).getD [])
  if name.2 then
    .TypePhrase ("DELETE " ++ challengeCode (host.fileIdText snapshot.identity.fileId))
  else if reducedGuardrails then .ReducedGuard
  else .ConfirmFile

/-! ## What was shown -/

def validateModelSnapshot (target : PlanTarget) (actual : PlannedSnapshot) :
    Except PlanningError Unit :=
  let expectedKind :=
    match target.expectedSnapshot.kind with
    | .Directory => some PlannedKind.Directory
    | .File => some .File
    | .Link => some .Link
    | .Root | .Synthetic => none
  match expectedKind with
  | none => .error .Synthetic
  | some expectedKind =>
    if expectedKind ≠ actual.kind || target.expectedSnapshot.apparentBytes ≠ actual.apparentBytes ||
        target.expectedSnapshot.modifiedNanos ≠ actual.modifiedNanos ||
        target.expectedSnapshot.identity.any (fun identity => identity ≠ actual.identity) then
      .error (.Refused .Changed)
    else .ok ()

/-- `binary_search_by` over the sorted entries of the review. -/
def findReviewed (reviewed : List ReviewedEntry) (path : RelativePath) : Option ReviewedEntry :=
  let low := fun i => reviewed[i]?.any fun r => r.relativePath ≤ path
  match reviewed[bisect low 0 reviewed.length]? with
  | none => none
  | some r => if r.relativePath = path then some r else none

def matchesReview (reviewed : List ReviewedEntry) (entry : PlannedEntry) :
    Except PlanningError Unit :=
  if (findReviewed reviewed entry.relativePath).any fun r => r.snapshot = entry.snapshot then .ok ()
  else .error (.Refused .Changed)

/-! ## The walk -/

structure WalkState where
  calls : Nat
  storage : PlanningStorage
  pending : PendingDirectories
  apparentBytes : Nat

abbrev WalkM := EStateM PlanningError WalkState

/-- What stays the same throughout one plan. -/
structure PlanRequest where
  relative : RelativePath
  maximumBytes : Nat
  directoryTarget : Bool

namespace PlanWalk
variable (world : PlanWorld)

def refuse {α : Type} (e : PlanningError) : WalkM α := fun s => .error e s

/-- The number of calls before this one. -/
def systemCall : WalkM Nat := fun s => .ok s.calls { s with calls := s.calls + 1 }

def ofExcept {α : Type} (x : Except PlanningError α) : WalkM α := fun s =>
  match x with
  | .ok a => .ok a s
  | .error e => .error e s

def ensureNotCancelled : WalkM Unit := do
  let at_ ← systemCall
  ofExcept (if world.cancelled at_ then .error (.Refused .Cancelled) else .ok ())

def openRoot : WalkM Unit := do
  let at_ ← systemCall
  ofExcept (match world.openRoot at_ with
    | none => .ok ()
    | some e => .error (.Refused e))

def ioRefused (path : RelativePath) (e : IoError) : PlanningError :=
  .Refused (planIo host.toHost path.native e)

def openParent (path : RelativePath) : WalkM Unit := do
  let at_ ← systemCall
  ofExcept (match world.openParent at_ path with
    | none => .ok ()
    | some e => .error (ioRefused host path e))

def mountRoot (path : RelativePath) : WalkM (Except IoError Bool) := do
  let at_ ← systemCall
  return world.mountRoot at_ path

def inspectFailed (path : RelativePath) : InspectFailure → DeletionPlanError
  | .Io e => planIo host.toHost path.native e
  | .Unrepresentable message =>
    .Unrepresentable (safePathText host path) (host.safeDisplayText message)

def inspectChild (path : RelativePath) : WalkM (Except DeletionPlanError PlannedSnapshot) := do
  let at_ ← systemCall
  return (world.inspect at_ path).mapError (inspectFailed host path)

/-- An entry that is no longer there is missing. -/
def inspectEntry (path : RelativePath) : WalkM (Except DeletionPlanError PlannedSnapshot) := do
  let answer ← inspectChild host world path
  return answer.mapError fun e => if e.isNotFound then .Missing path else e

@[irreducible] def pushEntry (request : PlanRequest) (entry : PlannedEntry) : WalkM Unit := fun s =>
  match s.storage.push host entry request.maximumBytes request.directoryTarget request.relative with
  | .ok storage => .ok () { s with storage := storage }
  | .error e => .error e s

@[irreducible] def pushPending (request : PlanRequest) (entry : PlannedEntry) : WalkM Unit := fun s =>
  match s.pending.push host entry with
  | .ok pending => .ok () { s with pending := pending }
  | .error e => .error (planStorageIo host request.relative e) s

@[irreducible] def popPending (request : PlanRequest) : WalkM (Option PlannedEntry) := fun s =>
  match s.pending.pop host request.relative with
  | .ok (entry, pending) => .ok entry { s with pending := pending }
  | .error e => .error e s

def addApparent (bytes : Nat) : WalkM Unit := fun s =>
  .ok () { s with apparentBytes := satAdd 128 s.apparentBytes bytes }

/-- `validate_component`, and `join`: a listed name holds no separator. -/
def joinChild (folder : RelativePath) (name : OsString) : Except PlanningError RelativePath :=
  if h : ValidComponent name then .ok ⟨folder.components ++ [⟨name, h⟩]⟩
  else .error (.Refused .InvalidRelativePath)

/-- What becomes of one listed entry. -/
def planChild (request : PlanRequest) (folder : RelativePath) (child : Except IoError OsString) :
    WalkM Unit := do
  ensureNotCancelled world
  let name ← ofExcept (child.mapError (ioRefused host folder))
  let childRelative ← ofExcept (joinChild folder name)
  let answer ← inspectChild host world childRelative
  let snapshot ← ofExcept (answer.mapError .Refused)
  addApparent snapshot.apparentBytes
  pushEntry host request ⟨childRelative, snapshot⟩
  if snapshot.kind = .Directory then pushPending host request ⟨childRelative, snapshot⟩

def planChildren (request : PlanRequest) (folder : RelativePath) :
    List (Except IoError OsString) → WalkM Unit
  | [] => pure ()
  | child :: rest => do
    planChild host world request folder child
    planChildren request folder rest

/-- Nothing but the target may be on another file system. -/
def refuseMounted (request : PlanRequest) (path : RelativePath) : WalkM Unit :=
  if path = request.relative then pure ()
  else do
    let mounted ← ofExcept ((← mountRoot world path).mapError (ioRefused host path))
    ofExcept (if mounted then .error (.Refused .Root) else .ok ())

/-- A directory that is missing by now has changed. -/
def changedWhenMissing : DeletionPlanError → PlanningError
  | .Missing _ => .Refused .Changed
  | e => .Refused e

def planDirectory (request : PlanRequest) (directory : PlannedEntry) : WalkM Unit := do
  ensureNotCancelled world
  openParent host world directory.relativePath
  refuseMounted host world request directory.relativePath
  let answer ← inspectEntry host world directory.relativePath
  let actual ← ofExcept (answer.mapError changedWhenMissing)
  ofExcept (if actual = directory.snapshot then .ok () else .error (.Refused .Changed))
  ofExcept (if actual.kind = .Directory then .ok () else .error (.Refused .Changed))
  let at_ ← systemCall
  let children ← ofExcept
    ((world.readDir at_ directory.relativePath).mapError (ioRefused host directory.relativePath))
  planChildren host world request directory.relativePath children

/-- Reads at most so many directories; says whether all were read. -/
def walk (request : PlanRequest) : Nat → WalkM Bool
  | 0 => pure false
  | fuel + 1 => do
    match ← popPending host request with
    | none => return true
    | some directory =>
      planDirectory host world request directory
      walk request fuel

/-! ## The whole plan -/

/-- A target that is the root of a mount. -/
def checkMountedTarget (target : PlanTarget) (path : RelativePath) : WalkM Unit := do
  match ← mountRoot world path with
  | .error e => if e.kind = .NotFound then pure () else refuse (ioRefused host path e)
  | .ok false => pure ()
  | .ok true =>
    match target.expectedSnapshot.identity with
    | none => refuse (.Refused .Changed)
    | some expected =>
      match ← inspectEntry host world path with
      | .error _ => refuse (.Refused .Changed)
      | .ok actual =>
        refuse (.Refused (if actual.kind = .Directory && sameObject expected actual.identity then
          .Root else .Changed))

/-- Only a folder can be the root of a mount. -/
def refuseMountedTarget (target : PlanTarget) (request : PlanRequest) : WalkM Unit :=
  if request.directoryTarget then checkMountedTarget host world target request.relative
  else pure ()

def inspectTarget (target : PlanTarget) (request : PlanRequest) : WalkM PlannedSnapshot := do
  openRoot world
  openParent host world request.relative
  refuseMountedTarget host world target request
  let answer ← inspectEntry host world request.relative
  let snapshot ← ofExcept (answer.mapError .Refused)
  ofExcept (validateModelSnapshot target snapshot)
  return snapshot

/-- The entries below the target; `false` when the walk had to stop early. -/
def planTree (request : PlanRequest) (snapshot : PlannedSnapshot) (fuel : Nat) : WalkM Bool := do
  addApparent snapshot.apparentBytes
  pushEntry host request ⟨request.relative, snapshot⟩
  if snapshot.kind = .Directory then do
    pushPending host request ⟨request.relative, snapshot⟩
    walk host world request fuel
  else return true

@[irreducible] def visitPlan (request : PlanRequest) (visit : Nat → PlannedEntry → Except PlanningError Unit) :
    WalkM Unit := fun s =>
  match s.storage.entries.tryForEach host request.relative visit with
  | .ok entries => .ok () { s with storage := { s.storage with entries := entries } }
  | .error e => .error e s

def compareReview (target : PlanTarget) (request : PlanRequest) : WalkM Unit := do
  let reviewed := target.reviewedEntries.mergeSort fun l r => l.relativePath ≤ r.relativePath
  if reviewed.isEmpty then pure ()
  else do
    let s ← get
    ofExcept (if s.storage.entries.len = reviewed.length then .ok () else .error (.Refused .Changed))
    visitPlan host request fun _ => matchesReview reviewed

/-- The visitor of `revalidate_plan_cancellable`, which makes three calls for each entry. -/
def revalidateEntry (request : PlanRequest) (start seen : Nat) (entry : PlannedEntry) :
    Except PlanningError Unit :=
  let path := entry.relativePath
  if world.cancelled (start + 3 * seen) then .error (.Refused .Cancelled)
  else
    match world.openParent (start + 3 * seen + 1) path with
    | some e => .error (ioRefused host path e)
    | none =>
      match (world.inspect (start + 3 * seen + 2) path).mapError (inspectFailed host path) with
      | .error e =>
        .error (.Refused (if e.isNotFound then
          if path = request.relative then .Missing path else .Changed else e))
      | .ok actual => if actual = entry.snapshot then .ok () else .error (.Refused .Changed)

def revalidatePlan (request : PlanRequest) : WalkM Unit := do
  openRoot world
  let s ← get
  visitPlan host request (revalidateEntry host world request s.calls)

end PlanWalk

structure BuiltPlan where
  target : PlanTarget
  rootRelativePath : RelativePath
  entries : PlanEntries
  resultStorage : PlannedResultStorage
  rootSnapshot : PlannedSnapshot
  challenge : ConfirmationChallenge
  apparentBytes : Nat
  estimatedBytes : Nat
  /-- History: the entries planned. -/
  planned : List PlannedEntry

namespace PlanWalk
variable (world : PlanWorld)

def start (maximumBytes : Nat) : WalkState where
  calls := 0
  storage := ⟨.InMemory [], .new maximumBytes, 0, []⟩
  pending := ⟨[], none⟩
  apparentBytes := 0

/-- `none` when more than `fuel` directories would have to be read. -/
def planTarget (target : PlanTarget) (request : PlanRequest) (reducedGuardrails : Bool)
    (fuel : Nat) : WalkM (Option BuiltPlan) := do
  let snapshot ← inspectTarget host world target request
  if ← planTree host world request snapshot fuel then do
    compareReview host target request
    revalidatePlan host world request
    let s ← get
    return some {
      target := target
      rootRelativePath := request.relative
      entries := s.storage.entries
      resultStorage := s.storage.resultStorage
      rootSnapshot := snapshot
      challenge := challengeFor host target snapshot reducedGuardrails
      apparentBytes := s.apparentBytes
      estimatedBytes := s.storage.estimatedBytes
      planned := s.storage.planned }
  else return none

end PlanWalk

/-- `build_plan_cancellable_with_root_identity_and_temporary_storage`. -/
def buildPlan (world : PlanWorld) (target : PlanTarget) (reducedGuardrails : Bool)
    (maximumBytes fuel : Nat) : Except PlanningError (Option BuiltPlan) :=
  let request : PlanRequest :=
    ⟨⟨target.pathToFile⟩, maximumBytes, decide (target.expectedSnapshot.kind = .Directory)⟩
  if target.synthetic then .error .Synthetic
  else if request.relative.isRoot then .error (.Refused .Root)
  else
    match PlanWalk.planTarget host world target request reducedGuardrails fuel
        (PlanWalk.start maximumBytes) with
    | .ok plan _ => .ok plan
    | .error e _ => .error e

end Excise
