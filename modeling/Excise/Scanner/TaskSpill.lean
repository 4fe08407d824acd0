import Excise.Deletion.RecordSpill
import Excise.Scanner.Scheduler

/-!
# The scanner's task spill

`task_spill.rs`: the journal of directory tasks in a file that only its owner has open. A record is
the length of a task's encoding and the encoding; a selected record is first moved to the front, and
what was read is given back by moving the live range down. Each call to the system may fail.
-/

namespace Excise
set_option autoImplicit false

def maxSpilledTaskBytes : Nat := 1024 * 1024

def spillLengthBytes : Nat := 8

def taskSpillCompactionBytes : Nat := 64 * 1024

/-- What one call meets: whether it fails, and the budget that a reservation grows from. -/
structure TaskSpillEvent where
  failure : Option CallFailure
  storage : TemporaryStorageState
  stopSeen : Bool

/-- `encode` and `decode` are `serde_json` over the encoded path and the identity. -/
structure TaskSpillHost where
  encode : DirectoryTask → Except StorageError (List UInt8)
  decode : List UInt8 → Except StorageError DirectoryTask
  events : Nat → TaskSpillEvent

structure TaskSpill where
  file : List UInt8
  position : Nat
  /-- The calls made so far. -/
  calls : Nat
  nextRead : Nat
  nextWrite : Nat
  pending : Nat
  reserved : Nat

inductive TaskSpillStep where
  | push (task : DirectoryTask)
  | take
  | takePath (path : NativePath)
  | compact

abbrev TaskSpillM := EStateM StorageError TaskSpill

/-- A record that was read; it ends behind the place where it starts. -/
structure SpilledTask (offset : Nat) where
  task : DirectoryTask
  recordEnd : Nat
  advances : offset < recordEnd

namespace TaskSpill

def new : TaskSpill := ⟨[], 0, 0, 0, 0, 0, 0⟩

variable (host : TaskSpillHost)

/-! ## The calls -/

def systemCall : TaskSpillM TaskSpillEvent := fun s =>
  .ok (host.events s.calls) { s with calls := s.calls + 1 }

def failIfFails (e : TaskSpillEvent) : TaskSpillM Unit := fun s =>
  match e.failure with
  | none => .ok () s
  | some failure => .error failure.error s

def seek (offset : Nat) : TaskSpillM Unit := do
  failIfFails (← systemCall host)
  fun s => .ok () { s with position := offset }

def readExact (count : Nat) : TaskSpillM (List UInt8) := do
  failIfFails (← systemCall host)
  fun s =>
    if s.file.length < s.position + count then
      .error ⟨.UnexpectedEof, "failed to fill whole buffer"⟩ s
    else .ok (slice s.file s.position count) { s with position := s.position + count }

def writeAll (bytes : List UInt8) : TaskSpillM Unit := do
  let e ← systemCall host
  fun s =>
    match e.failure with
    | none =>
      .ok () { s with
        file := overwrite s.file s.position bytes
        position := s.position + bytes.length }
    | some failure =>
      .error failure.error { s with
        file := overwrite s.file s.position (bytes.take failure.written)
        position := s.position + (bytes.take failure.written).length }

/-- `truncate`. -/
def truncate (len : Nat) : TaskSpillM Unit := do
  failIfFails (← systemCall host)
  fun s => .ok () { s with file := s.file.take len ++ List.replicate (len - s.file.length) 0 }

/-- `grow_to` of the reservation. -/
def growTo (bytes : Nat) : TaskSpillM Unit := do
  let e ← systemCall host
  fun s =>
    match e.storage.growTo e.stopSeen s.reserved bytes with
    | .ok (_, reserved) => .ok () { s with reserved := reserved }
    | .error e => .error e s

def shrinkTo (bytes : Nat) : TaskSpillM Unit := fun s =>
  .ok () { s with reserved := min s.reserved bytes }

def offsetOverflow : StorageError := ⟨.Other, "scanner task spill offset overflow"⟩

def outOfOrder : StorageError := ⟨.Other, "scanner task spill offsets are out of order"⟩

/-! ## Records -/

def writeRecord (offset : Nat) (payload : List UInt8) : TaskSpillM Unit := do
  seek host offset
  writeAll host (leBytes 8 payload.length)
  writeAll host payload

def push (task : DirectoryTask) : TaskSpillM Unit := do
  let payload ← liftExcept (host.encode task)
  checkThat (payload.length ≤ maxSpilledTaskBytes)
    ⟨.InvalidData, "scanner task path exceeds the spill record limit"⟩
  let s ← get
  let nextWrite := s.nextWrite + spillLengthBytes + payload.length
  checkThat (nextWrite < 2 ^ 64) offsetOverflow
  let pending := s.pending + 1
  checkThat (pending < 2 ^ 64) ⟨.Other, "scanner task spill count overflow"⟩
  growTo host nextWrite
  writeRecord host s.nextWrite payload
  modify fun s => { s with nextWrite := nextWrite, pending := pending }

/-- What `read_record_at` does when it has read the length. -/
def readPayload (offset nextWrite payloadLen : Nat) : TaskSpillM (SpilledTask offset) := do
  checkThat (payloadLen ≤ maxSpilledTaskBytes)
    ⟨.InvalidData, "scanner task spill record exceeds the configured limit"⟩
  let recordEnd := offset + spillLengthBytes + payloadLen
  checkThat (recordEnd < 2 ^ 64) offsetOverflow
  checkThat (recordEnd ≤ nextWrite) ⟨.InvalidData, "scanner task spill record is truncated"⟩
  let payload ← readExact host payloadLen
  let task ← liftExcept (host.decode payload)
  return ⟨task, recordEnd, by simp only [recordEnd, spillLengthBytes]; omega⟩

def readRecordAt (offset : Nat) : TaskSpillM (SpilledTask offset) := do
  let headerEnd := offset + spillLengthBytes
  checkThat (headerEnd < 2 ^ 64) offsetOverflow
  let s ← get
  checkThat (headerEnd ≤ s.nextWrite) ⟨.InvalidData, "scanner task spill record is truncated"⟩
  seek host offset
  let length ← readExact host 8
  readPayload host offset s.nextWrite (leNat length)

/-! ## Moving bytes -/

/-- From the last chunk to the first. -/
def shiftChunks (start distance remaining : Nat) : TaskSpillM Unit :=
  if h : remaining = 0 then pure ()
  else do
    let chunk := min remaining taskSpillCompactionBytes
    checkThat (start + remaining < 2 ^ 64) offsetOverflow
    let source := start + remaining - chunk
    seek host source
    let buffer ← readExact host chunk
    checkThat (source + distance < 2 ^ 64) offsetOverflow
    seek host (source + distance)
    writeAll host buffer
    shiftChunks start distance (remaining - chunk)
termination_by remaining
decreasing_by simp only [taskSpillCompactionBytes]; omega

def shiftRangeRight (start stop distance : Nat) : TaskSpillM Unit := do
  checkThat (start ≤ stop) outOfOrder
  shiftChunks host start distance (stop - start)

/-- From the first chunk to the last. -/
def compactChunks (source destination bytesLeft : Nat) : TaskSpillM Unit :=
  if h : bytesLeft = 0 then pure ()
  else do
    let chunk := min bytesLeft taskSpillCompactionBytes
    seek host source
    let buffer ← readExact host chunk
    seek host destination
    writeAll host buffer
    checkThat (source + chunk < 2 ^ 64) offsetOverflow
    checkThat (destination + chunk < 2 ^ 64) offsetOverflow
    compactChunks (source + chunk) (destination + chunk) (bytesLeft - chunk)
termination_by bytesLeft
decreasing_by simp only [taskSpillCompactionBytes]; omega

def compactAfterRead : TaskSpillM Unit := do
  let s ← get
  checkThat (s.nextRead ≤ s.nextWrite) outOfOrder
  let remaining := s.nextWrite - s.nextRead
  checkThat (remaining ≠ 0) ⟨.Other, "scanner task spill has queued tasks without record data"⟩
  let compactAfter := min s.reserved taskSpillCompactionBytes
  if s.nextRead < compactAfter && s.nextRead < remaining then return ()
  else do
    compactChunks host s.nextRead 0 remaining
    truncate host remaining
    shrinkTo remaining
    modify fun s => { s with nextRead := 0, nextWrite := remaining }

/-! ## Taking -/

/-- What `take` does when the record is read. -/
def giveBack : TaskSpillM Unit := do
  let s ← get
  if s.pending = 0 then
    modify fun s => { s with nextRead := 0, nextWrite := 0 }
    truncate host 0
    shrinkTo 0
  else compactAfterRead host

def take : TaskSpillM (Option DirectoryTask) := do
  let s ← get
  if s.pending = 0 then return none
  else do
    let record ← readRecordAt host s.nextRead
    modify fun s => { s with nextRead := record.recordEnd, pending := s.pending - 1 }
    giveBack host
    return some record.task

/-- What `take_path` does with a record it is not the front one. -/
def moveToFront (offset recordEnd : Nat) : TaskSpillM Unit := do
  let s ← get
  if offset = s.nextRead then return ()
  else do
    checkThat (offset ≤ recordEnd) outOfOrder
    let recordLen := recordEnd - offset
    seek host offset
    let record ← readExact host recordLen
    shiftRangeRight host s.nextRead offset recordLen
    seek host s.nextRead
    writeAll host record

def takePathFrom (path : NativePath) (nextWrite offset : Nat) :
    TaskSpillM (Option DirectoryTask) :=
  if offset < nextWrite then do
    let record ← readRecordAt host offset
    if record.task.path = path then do
      moveToFront host offset record.recordEnd
      take host
    else takePathFrom path nextWrite record.recordEnd
  else return none
termination_by nextWrite - offset
decreasing_by have := record.advances; omega

def takePath (path : NativePath) : TaskSpillM (Option DirectoryTask) := do
  let s ← get
  takePathFrom host path s.nextWrite s.nextRead

/-- A compaction is made where `take` makes one: while something is pending. -/
def step : TaskSpillStep → TaskSpillM (Option DirectoryTask)
  | .push task => do
    push host task
    return none
  | .take => take host
  | .takePath path => takePath host path
  | .compact => do
    let s ← get
    if s.pending = 0 then return none
    else do
      compactAfterRead host
      return none

end TaskSpill

end Excise
