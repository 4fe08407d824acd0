import Excise.Lib.Keyed
import Excise.Lib.Machine

/-!
# Temporary storage

The byte budget of `temporary_storage.rs`: the counter that `reserve` and `release` move, the
reservations that own parts of it, and the file whose length one reservation follows. A compare
exchange loop is one step; the steps of different owners follow each other in any order.
-/

namespace Excise
set_option autoImplicit false

/-- The kinds of `io::Error` that this code makes or looks at. -/
inductive StorageErrorKind where
  | StorageFull
  | InvalidInput
  | InvalidData
  | UnexpectedEof
  | WriteZero
  | Other
  deriving DecidableEq

structure StorageError where
  kind : StorageErrorKind
  message : String
  deriving DecidableEq

structure TemporaryStorageState where
  limit : Nat
  capacityName : String
  increaseFlag : String
  used : Nat
  stopped : Bool
  deriving DecidableEq

namespace TemporaryStorageState

def withLimitBytesNamed (limit : Nat) (capacityName increaseFlag : String) :
    TemporaryStorageState := ⟨limit, capacityName, increaseFlag, 0, false⟩

def stop (s : TemporaryStorageState) : TemporaryStorageState := { s with stopped := true }

/-- `stopSeen` is the flag as the call loaded it; a stop may come between that and the loop. -/
def ensureRunning (stopSeen : Bool) : Except StorageError Unit :=
  if stopSeen then .error ⟨.Other, "the scan store session was stopped"⟩ else .ok ()

def reserve (s : TemporaryStorageState) (stopSeen : Bool) (bytes : Nat) :
    Except StorageError TemporaryStorageState :=
  match ensureRunning stopSeen with
  | .error e => .error e
  | .ok () =>
    let required := s.used + bytes
    if 2 ^ 64 ≤ required then
      .error ⟨.StorageFull, s!"{s.capacityName} capacity exhausted: more than {s.limit} bytes " ++
        s!"are required; increase {s.increaseFlag}"⟩
    else if s.limit < required then
      .error ⟨.StorageFull, s!"{s.capacityName} capacity exhausted: {required} bytes exceed the " ++
        s!"{s.limit} byte session limit; increase {s.increaseFlag}"⟩
    else .ok { s with used := required }

/-- `none` where `release` panics. -/
def release (s : TemporaryStorageState) (bytes : Nat) : Option TemporaryStorageState :=
  if s.used < bytes then none else some { s with used := s.used - bytes }

/-- `grow_to` of a reservation of `own` bytes. -/
def growTo (s : TemporaryStorageState) (stopSeen : Bool) (own bytes : Nat) :
    Except StorageError (TemporaryStorageState × Nat) :=
  if bytes ≤ own then .ok (s, own)
  else (s.reserve stopSeen (bytes - own)).map fun s => (s, bytes)

theorem growTo_eq_ok {s s' : TemporaryStorageState} {stopSeen : Bool} {own bytes reserved : Nat}
    (h : s.growTo stopSeen own bytes = .ok (s', reserved)) : reserved = max own bytes := by
  unfold growTo at h
  split at h
  · cases h
    omega
  · cases hr : s.reserve stopSeen (bytes - own) with
    | error e =>
      rw [hr] at h
      cases h
    | ok t =>
      rw [hr] at h
      cases h
      omega

/-- `shrink_to` of a reservation of `own` bytes. -/
def shrinkTo (s : TemporaryStorageState) (own bytes : Nat) :
    Option (TemporaryStorageState × Nat) :=
  if own ≤ bytes then some (s, own) else (s.release (own - bytes)).map fun s => (s, bytes)

end TemporaryStorageState

/-! ## The bounded file -/

/-- Where a call of `set_len` stands that holds both locks. -/
inductive SetLenPhase where
  | idle
  | growing (len : Nat)
  | shrinking (len : Nat)
  deriving DecidableEq

/-- The recorded length of the file. The file itself is outside: what it answers comes with
each call. -/
structure BoundedFile where
  length : Nat
  phase : SetLenPhase
  deriving DecidableEq

namespace BoundedFile

def verifyLength (file : BoundedFile) (metadata : Except StorageError Nat) : Except StorageError Unit :=
  match metadata with
  | .error e => .error e
  | .ok len =>
    if len ≠ file.length then
      .error ⟨.InvalidData, "temporary storage file changed outside its accounting boundary"⟩
    else .ok ()

/-- What a read or a write of `count` bytes at `offset` checks before it touches the file. -/
def checkRange (file : BoundedFile) (offset count : Nat) (overflows exceeds : StorageError) :
    Except StorageError Unit :=
  if 2 ^ 64 ≤ offset + count then .error overflows
  else if file.length < offset + count then .error exceeds
  else .ok ()

def read (file : BoundedFile) (offset count : Nat) (seek readExact : Except StorageError Unit) :
    Except StorageError Unit := do
  file.checkRange offset count ⟨.InvalidInput, "temporary storage read overflows"⟩
    ⟨.UnexpectedEof, "temporary storage read exceeds the bounded file"⟩
  seek
  readExact

def write (file : BoundedFile) (offset count : Nat) (seek writeAll : Except StorageError Unit) :
    Except StorageError Unit := do
  file.checkRange offset count ⟨.InvalidInput, "temporary storage write overflows"⟩
    ⟨.WriteZero, "temporary storage write exceeds the reserved file length"⟩
  seek
  writeAll

end BoundedFile

/-- What a call answers. `waiting` is `set_len` at its call of the file's own `set_len`; `absent`
answers a call that its owner cannot make: the value is gone, is held by a backend, or its locks
are taken. -/
inductive StorageAnswer where
  | done
  | reserved (owner : Nat)
  | waiting
  | refused (e : StorageError)
  | panicked
  | absent
  deriving DecidableEq

def StorageAnswer.ofExcept : Except StorageError Unit → StorageAnswer
  | .ok () => .done
  | .error e => .refused e

/-- A live reservation, and the file of the backend that holds it, if one does. -/
structure Holder where
  owner : Nat
  bytes : Nat
  file : Option BoundedFile
  capacityExhausted : Bool
  deriving DecidableEq

namespace Holder

/-- `note_capacity_error`. -/
def noteCapacityError (h : Holder) (e : StorageError) : Holder :=
  if e.kind = .StorageFull then { h with capacityExhausted := true } else h

/-- `BoundedFileBackend::new`. -/
def newBackend (s : TemporaryStorageState) (h : Holder) (metadata : Except StorageError Nat)
    (stopSeen : Bool) : TemporaryStorageState × Holder × StorageAnswer :=
  match metadata with
  | .error e => (s, h, .refused e)
  | .ok length =>
    if h.bytes ≠ 0 then
      (s, h, .refused ⟨.InvalidInput, "temporary storage database reservation was not empty"⟩)
    else
      match s.growTo stopSeen h.bytes length with
      | .error e => (s, h.noteCapacityError e, .refused e)
      | .ok (s, bytes) => (s, { h with bytes := bytes, file := some ⟨length, .idle⟩ }, .done)

/-- `set_len` up to the call of the file's own `set_len`, or to its end where it makes none. -/
def setLen (s : TemporaryStorageState) (h : Holder) (file : BoundedFile) (len : Nat)
    (metadata : Except StorageError Nat) (stopSeen : Bool) :
    TemporaryStorageState × Holder × StorageAnswer :=
  match file.verifyLength metadata with
  | .error e => (s, h, .refused e)
  | .ok () =>
    if h.bytes ≠ file.length then
      (s, h, .refused
        ⟨.InvalidData, "temporary storage database reservation does not match its file"⟩)
    else if file.length < len then
      match s.growTo stopSeen h.bytes len with
      | .error e => (s, h.noteCapacityError e, .refused e)
      | .ok (s, bytes) =>
        (s, { h with bytes := bytes, file := some { file with phase := .growing len } }, .waiting)
    else if len < file.length then
      (s, { h with file := some { file with phase := .shrinking len } }, .waiting)
    else (s, { h with file := some { file with length := len } }, .done)

/-- `set_len` from what the file's own `set_len` answered: the growth is kept or given back. -/
def setLenGrown (s : TemporaryStorageState) (h : Holder) (file : BoundedFile) (len : Nat)
    (result : Except StorageError Unit) : TemporaryStorageState × Holder × StorageAnswer :=
  match result with
  | .ok () => (s, { h with file := some ⟨len, .idle⟩ }, .done)
  | .error e =>
    match s.shrinkTo h.bytes file.length with
    | none => (s, h, .panicked)
    | some (s, bytes) =>
      (s, { h with bytes := bytes, file := some { file with phase := .idle } }, .refused e)

/-- `set_len` from what the file's own `set_len` answered to a smaller length. -/
def setLenShrunk (s : TemporaryStorageState) (h : Holder) (file : BoundedFile) (len : Nat)
    (result : Except StorageError Unit) : TemporaryStorageState × Holder × StorageAnswer :=
  match result with
  | .error e => (s, { h with file := some { file with phase := .idle } }, .refused e)
  | .ok () =>
    match s.shrinkTo h.bytes len with
    | none => (s, h, .panicked)
    | some (s, bytes) => (s, { h with bytes := bytes, file := some ⟨len, .idle⟩ }, .done)

end Holder

/-! ## All owners together -/

structure StorageSession where
  storage : TemporaryStorageState
  holders : List Holder
  nextOwner : Nat
  deriving DecidableEq

inductive StorageCall where
  | stop
  | reservation (bytes : Nat) (stopSeen : Bool)
  | growTo (owner bytes : Nat) (stopSeen : Bool)
  | shrinkTo (owner bytes : Nat)
  | drop (owner : Nat)
  | newBackend (owner : Nat) (metadata : Except StorageError Nat) (stopSeen : Bool)
  | setLen (owner len : Nat) (metadata : Except StorageError Nat) (stopSeen : Bool)
  | fileSetLen (owner : Nat) (result : Except StorageError Unit)
  | read (owner offset count : Nat) (seek readExact : Except StorageError Unit)
  | write (owner offset count : Nat) (seek writeAll : Except StorageError Unit)

namespace StorageSession

def new (storage : TemporaryStorageState) : StorageSession := ⟨storage, [], 0⟩

def holder (s : StorageSession) (owner : Nat) : Option Holder :=
  s.holders.find? fun h => h.owner = owner

/-- The holder's value after a step of its owner. -/
def put (s : StorageSession) (storage : TemporaryStorageState) (h : Holder) : StorageSession :=
  { s with
    storage := storage
    holders := Keyed.updateFirst (fun x => x.owner = h.owner) (fun _ => h) s.holders }

def reservation (s : StorageSession) (bytes : Nat) (stopSeen : Bool) :
    StorageSession × StorageAnswer :=
  match s.storage.reserve stopSeen bytes with
  | .error e => (s, .refused e)
  | .ok storage =>
    (⟨storage, s.holders ++ [⟨s.nextOwner, bytes, none, false⟩], s.nextOwner + 1⟩,
      .reserved s.nextOwner)

def growTo (s : StorageSession) (h : Holder) (bytes : Nat) (stopSeen : Bool) :
    StorageSession × StorageAnswer :=
  match s.storage.growTo stopSeen h.bytes bytes with
  | .error e => (s, .refused e)
  | .ok (storage, bytes) => (s.put storage { h with bytes := bytes }, .done)

def shrinkTo (s : StorageSession) (h : Holder) (bytes : Nat) : StorageSession × StorageAnswer :=
  match s.storage.shrinkTo h.bytes bytes with
  | none => (s, .panicked)
  | some (storage, bytes) => (s.put storage { h with bytes := bytes }, .done)

/-- Dropping a reservation, or the backend that holds it when no call of it is under way. -/
def drop (s : StorageSession) (h : Holder) : StorageSession × StorageAnswer :=
  if h.file.all fun file => file.phase = .idle then
    match s.storage.release h.bytes with
    | none => (s, .panicked)
    | some storage =>
      ({ s with storage := storage, holders := s.holders.eraseP fun x => x.owner = h.owner }, .done)
  else (s, .absent)

/-- The state after a step of a backend. -/
def settle (s : StorageSession) (r : TemporaryStorageState × Holder × StorageAnswer) :
    StorageSession × StorageAnswer := (s.put r.1 r.2.1, r.2.2)

/-- What the file's own `set_len` answers to the call that waits for it. -/
def fileSetLen (s : StorageSession) (h : Holder) (file : BoundedFile)
    (result : Except StorageError Unit) : StorageSession × StorageAnswer :=
  match file.phase with
  | .idle => (s, .absent)
  | .growing len => s.settle (h.setLenGrown s.storage file len result)
  | .shrinking len => s.settle (h.setLenShrunk s.storage file len result)

def withHolder (s : StorageSession) (owner : Nat)
    (f : Holder → StorageSession × StorageAnswer) : StorageSession × StorageAnswer :=
  match s.holder owner with
  | some h => f h
  | none => (s, .absent)

/-- A call on a reservation that no backend holds. -/
def withReservation (s : StorageSession) (owner : Nat)
    (f : Holder → StorageSession × StorageAnswer) : StorageSession × StorageAnswer :=
  s.withHolder owner fun h => if h.file = none then f h else (s, .absent)

/-- A call on a backend, in whatever phase it is. -/
def withFile (s : StorageSession) (owner : Nat)
    (f : Holder → BoundedFile → StorageSession × StorageAnswer) : StorageSession × StorageAnswer :=
  s.withHolder owner fun h =>
    match h.file with
    | some file => f h file
    | none => (s, .absent)

/-- A call on a backend that is not inside another one. -/
def withIdleFile (s : StorageSession) (owner : Nat)
    (f : Holder → BoundedFile → StorageSession × StorageAnswer) : StorageSession × StorageAnswer :=
  s.withFile owner fun h file => if file.phase = .idle then f h file else (s, .absent)

def step (s : StorageSession) : StorageCall → StorageSession × StorageAnswer
  | .stop => ({ s with storage := s.storage.stop }, .done)
  | .reservation bytes stopSeen => s.reservation bytes stopSeen
  | .growTo owner bytes stopSeen => s.withReservation owner fun h => s.growTo h bytes stopSeen
  | .shrinkTo owner bytes => s.withReservation owner fun h => s.shrinkTo h bytes
  | .drop owner => s.withHolder owner fun h => s.drop h
  | .newBackend owner metadata stopSeen =>
    s.withReservation owner fun h => s.settle (h.newBackend s.storage metadata stopSeen)
  | .setLen owner len metadata stopSeen =>
    s.withIdleFile owner fun h file =>
      s.settle (h.setLen s.storage file len metadata stopSeen)
  | .fileSetLen owner result => s.withFile owner fun h file => s.fileSetLen h file result
  | .read owner offset count seek readExact =>
    s.withIdleFile owner fun _ file => (s, .ofExcept (file.read offset count seek readExact))
  | .write owner offset count seek writeAll =>
    s.withIdleFile owner fun _ file => (s, .ofExcept (file.write offset count seek writeAll))

/-- The calls of all owners in the order in which they take effect. -/
def machine : Machine StorageSession StorageCall StorageAnswer := ⟨step⟩

end StorageSession

end Excise
