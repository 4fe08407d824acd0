import Excise.Lib.Bytes
import Excise.Lib.FileBytes
import Excise.Lib.Triple
import Excise.Storage.TemporaryStorage

/-!
# The deletion spill file

`RecordSpill` of `deletion.rs`: records between two copies of their length, each with a tag over its
position, its length and its bytes, read from the front or taken off the end. Before each call to
the system somebody else may have changed the file, and each call may fail.
-/

namespace Excise
set_option autoImplicit false

def spillRecordLengthBytes : Nat := 8

def spillRecordMacBytes : Nat := 32

def hmacBlockBytes : Nat := 64

/-- A call that fails; a write has then put `written` of its bytes into the file. -/
structure CallFailure where
  error : StorageError
  written : Nat

/-- What one call meets: how the file was changed before it, whether it fails, and the budget that
a reservation grows from. -/
structure SpillEvent where
  modify : List UInt8 → List UInt8
  failure : Option CallFailure
  storage : TemporaryStorageState
  stopSeen : Bool

structure SpillHost where
  sha256 : List UInt8 → Vector UInt8 32
  events : Nat → SpillEvent

/-! ## Tags -/

structure SpillAuthenticationKey where
  bytes : Vector UInt8 32

namespace SpillAuthenticationKey

/-- `excise/deletion-spill-v1` and a zero byte. -/
def domain : List UInt8 :=
  [101, 120, 99, 105, 115, 101, 47, 100, 101, 108, 101, 116, 105, 111, 110, 45, 115, 112, 105, 108,
    108, 45, 118, 49, 0]

def tag (sha256 : List UInt8 → Vector UInt8 32) (key : SpillAuthenticationKey) (offset : Nat)
    (payloadLen payload : List UInt8) : Vector UInt8 32 :=
  let keyBlock := key.bytes.toList ++ List.replicate (hmacBlockBytes - 32) 0
  let innerPad := keyBlock.map fun byte => byte ^^^ 0x36
  let outerPad := keyBlock.map fun byte => byte ^^^ 0x5c
  let inner := sha256 (innerPad ++ domain ++ leBytes 8 offset ++ payloadLen ++ payload)
  sha256 (outerPad ++ inner.toList)

/-- `matches`, whose comparison takes the same time wherever the tags differ. -/
def tagMatches (sha256 : List UInt8 → Vector UInt8 32) (key : SpillAuthenticationKey)
    (offset : Nat) (payloadLen payload actual : List UInt8) : Bool :=
  let expected := key.tag sha256 offset payloadLen payload
  (expected.toList.zip actual).foldl (fun difference pair => difference ||| (pair.1 ^^^ pair.2)) 0
    == 0

end SpillAuthenticationKey

/-! ## The calls -/

structure RecordSpill where
  file : List UInt8
  position : Nat
  /-- The calls made so far. -/
  calls : Nat
  length : Nat
  records : Nat
  reserved : Nat
  maximumPayload : Nat
  authentication : SpillAuthenticationKey
  /-- History: the positions and payloads that tags were made for. -/
  tagged : List (Nat × List UInt8)
  /-- History: the positions and payloads whose tags were accepted. -/
  accepted : List (Nat × List UInt8)

/-- How a pass ends early. -/
inductive SpillVisitError where
  | Io (e : StorageError)
  | Visitor
  deriving DecidableEq

/-- A call is charged to the state also when it fails. -/
abbrev SpillM := EStateM StorageError RecordSpill

namespace RecordSpill
variable (host : SpillHost)

def systemCall : SpillM SpillEvent := fun s =>
  .ok (host.events s.calls)
    { s with calls := s.calls + 1, file := (host.events s.calls).modify s.file }

def failIfFails (e : SpillEvent) : SpillM Unit := fun s =>
  match e.failure with
  | none => .ok () s
  | some failure => .error failure.error s

def ensure (check : Bool) (e : StorageError) : SpillM Unit := fun s =>
  if check then .ok () s else .error e s

def ofExcept {α : Type} (x : Except StorageError α) : SpillM α := fun s =>
  match x with
  | .ok a => .ok a s
  | .error e => .error e s

def metadataLen : SpillM Nat := do
  failIfFails (← systemCall host)
  fun s => .ok s.file.length s

def seek (offset : Nat) : SpillM Unit := do
  failIfFails (← systemCall host)
  fun s => .ok () { s with position := offset }

def readExact (count : Nat) : SpillM (List UInt8) := do
  failIfFails (← systemCall host)
  fun s =>
    if s.file.length < s.position + count then
      .error ⟨.UnexpectedEof, "failed to fill whole buffer"⟩ s
    else .ok ((s.file.drop s.position).take count) { s with position := s.position + count }

def writeAll (bytes : List UInt8) : SpillM Unit := do
  let e ← systemCall host
  fun s =>
    match e.failure with
    | none =>
      .ok () { s with
        file := overwrite s.file s.position bytes
        position := s.position + bytes.length }
    | some failure =>
      .error failure.error { s with
        file := overwrite s.file s.position (bytes.take failure.written)
        position := s.position + (bytes.take failure.written).length }

def setLen (length : Nat) : SpillM Unit := do
  failIfFails (← systemCall host)
  fun s => .ok () { s with
    file := s.file.take length ++ List.replicate (length - s.file.length) 0 }

/-- `grow_to` of the reservation. -/
def growTo (bytes : Nat) : SpillM Unit := do
  let e ← systemCall host
  fun s =>
    match e.storage.growTo e.stopSeen s.reserved bytes with
    | .ok (_, reserved) => .ok () { s with reserved := reserved }
    | .error e => .error e s

/-! ## Records -/

def spillRecordLen (payloadLen : Nat) : Except StorageError Nat :=
  let length := spillRecordLengthBytes + payloadLen + spillRecordMacBytes + spillRecordLengthBytes
  if 2 ^ 64 ≤ length then .error ⟨.Other, "deletion spill record length overflow"⟩ else .ok length

def verifyLength : SpillM Unit := do
  let actual ← metadataLen host
  fun s =>
    if actual = s.length then .ok () s
    else
      .error ⟨.InvalidData, "deletion spill file changed outside its accounting boundary"⟩ s

def payloadLen (payload : List UInt8) : SpillM Nat := fun s =>
  if 2 ^ 64 ≤ payload.length then .error ⟨.InvalidData, "deletion spill record length overflow"⟩ s
  else if s.maximumPayload < payload.length then
    .error ⟨.InvalidData, "deletion spill record exceeds the configured limit"⟩ s
  else .ok payload.length s

def reserve (growReservation : Bool) (nextLength : Nat) : SpillM Unit :=
  if growReservation then growTo host nextLength
  else fun s =>
    if s.reserved < nextLength then
      .error ⟨.StorageFull, "deletion result exceeds its reserved temporary storage"⟩ s
    else .ok () s

def makeTag (header payload : List UInt8) : SpillM (Vector UInt8 32) := fun s =>
  .ok (s.authentication.tag host.sha256 s.length header payload)
    { s with tagged := s.tagged ++ [(s.length, payload)] }

def writeRecord (header payload : List UInt8) (tag : Vector UInt8 32) : SpillM Unit := do
  writeAll host header
  writeAll host payload
  writeAll host tag.toList
  writeAll host header

def append (payload : List UInt8) (growReservation : Bool) : SpillM Unit := do
  let payloadLen ← payloadLen payload
  let recordLen ← ofExcept (spillRecordLen payloadLen)
  let s ← get
  let nextLength := s.length + recordLen
  ensure (nextLength < 2 ^ 64) ⟨.Other, "deletion spill offset overflow"⟩
  let nextRecords := s.records + 1
  ensure (nextRecords < 2 ^ 64) ⟨.Other, "deletion spill count overflow"⟩
  verifyLength host
  reserve host growReservation nextLength
  let header := leBytes 8 payloadLen
  let tag ← makeTag host header payload
  seek host s.length
  writeRecord host header payload tag
  modify fun s => { s with length := nextLength, records := nextRecords }

def push (payload : List UInt8) : SpillM Unit := append host payload true

def pushReserved (payload : List UInt8) : SpillM Unit := append host payload false

def checkTag (offset : Nat) (header payload tag : List UInt8) : SpillM Unit := fun s =>
  if s.authentication.tagMatches host.sha256 offset header payload tag then
    .ok () { s with accepted := s.accepted ++ [(offset, payload)] }
  else .error ⟨.InvalidData, "deletion spill record authentication failed"⟩ s

/-- `read_spill_record`. -/
def readRecord (offset finish : Nat) : SpillM (List UInt8 × Nat) := do
  let headerEnd := offset + spillRecordLengthBytes
  ensure (headerEnd < 2 ^ 64) ⟨.InvalidData, "deletion spill offset overflow"⟩
  ensure (headerEnd ≤ finish) ⟨.InvalidData, "deletion spill record is truncated"⟩
  seek host offset
  let header ← readExact host 8
  let payloadLen := leNat header
  let s ← get
  ensure (payloadLen ≤ s.maximumPayload)
    ⟨.InvalidData, "deletion spill record exceeds the configured limit"⟩
  let recordLen ← ofExcept (spillRecordLen payloadLen)
  let recordEnd := offset + recordLen
  ensure (recordEnd < 2 ^ 64) ⟨.InvalidData, "deletion spill offset overflow"⟩
  ensure (recordEnd ≤ finish) ⟨.InvalidData, "deletion spill record is truncated"⟩
  let payload ← readExact host payloadLen
  let tag ← readExact host spillRecordMacBytes
  let trailer ← readExact host 8
  ensure (trailer == header) ⟨.InvalidData, "deletion spill record length is inconsistent"⟩
  checkTag host offset header payload tag
  return (payload, recordEnd)

def readAt (offset : Nat) : SpillM (List UInt8 × Nat) := do
  verifyLength host
  let s ← get
  readRecord host offset s.length

/-- What `pop` does with the record before the end. -/
def popLast : SpillM (List UInt8) := do
  let s ← get
  ensure (spillRecordLengthBytes ≤ s.length) ⟨.InvalidData, "deletion spill is truncated"⟩
  seek host (s.length - spillRecordLengthBytes)
  let trailer ← readExact host 8
  let payloadLen := leNat trailer
  ensure (payloadLen ≤ s.maximumPayload)
    ⟨.InvalidData, "deletion spill record exceeds the configured limit"⟩
  let recordLen ← ofExcept (spillRecordLen payloadLen)
  ensure (recordLen ≤ s.length) ⟨.InvalidData, "deletion spill record is truncated"⟩
  let start := s.length - recordLen
  let (payload, recordEnd) ← readRecord host start s.length
  ensure (recordEnd == s.length) ⟨.InvalidData, "deletion spill record length is inconsistent"⟩
  setLen host start
  modify fun s => { s with reserved := min s.reserved start, length := start }
  ensure (s.records ≠ 0) ⟨.Other, "deletion spill count underflow"⟩
  modify fun s => { s with records := s.records - 1 }
  return payload

def pop : SpillM (Option (List UInt8)) := do
  verifyLength host
  let s ← get
  if s.records = 0 then
    ensure (s.length == 0) ⟨.InvalidData, "deletion spill has bytes without records"⟩
    return none
  else return some (← popLast host)

/-! ## Passes -/

/-- Reads `remaining` records from `offset` on and hands each to a visitor, who may refuse. The
records handed over stay with the visitor whatever comes next. -/
def readRecords (read : Nat → SpillM (List UInt8 × Nat)) (accept : List (List UInt8) → Bool) :
    Nat → Nat → List (List UInt8) → RecordSpill →
      (List (List UInt8) × Except SpillVisitError Nat) × RecordSpill
  | 0, offset, handed, s => ((handed, .ok offset), s)
  | remaining + 1, offset, handed, s =>
    match read offset s with
    | .error e s => ((handed, .error (.Io e)), s)
    | .ok (payload, next) s =>
      if accept (handed ++ [payload]) then
        readRecords read accept remaining next (handed ++ [payload]) s
      else ((handed ++ [payload], .error .Visitor), s)

def visit (accept : List (List UInt8) → Bool) (s : RecordSpill) :
    (List (List UInt8) × Except SpillVisitError Unit) × RecordSpill :=
  match verifyLength host s with
  | .error e s => (([], .error (.Io e)), s)
  | .ok () s =>
    match readRecords (fun offset => readRecord host offset s.length) accept s.records 0 [] s with
    | ((handed, .error e), s) => ((handed, .error e), s)
    | ((handed, .ok offset), s) =>
      if offset = s.length then ((handed, .ok ()), s)
      else
        ((handed, .error (.Io
          ⟨.InvalidData, "deletion spill length does not match its records"⟩)), s)

/-- A `DeletionEntriesIter` asked at most `count` times. -/
def iterate (count : Nat) (s : RecordSpill) :
    (List (List UInt8) × Except SpillVisitError Unit) × RecordSpill :=
  match readRecords (readAt host) (fun _ => true) (min count s.records) 0 [] s with
  | ((handed, outcome), s) => ((handed, outcome.map fun _ => ()), s)

/-- `RecordSpill::new`: an empty file, with no reservation yet. -/
def new (authentication : SpillAuthenticationKey) (maximumPayload : Nat) : RecordSpill :=
  ⟨[], 0, 0, 0, 0, 0, maximumPayload, authentication, [], []⟩

end RecordSpill

end Excise
