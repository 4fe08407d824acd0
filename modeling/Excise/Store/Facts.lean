import Excise.Path
import Excise.Lib.Bytes
import Excise.Lib.Saturating
import Mathlib.Data.Prod.Lex
import Mathlib.Order.WithBot

/-!
# Scan facts

Path observations and identity observations as `path_reducer.rs`, `identity_observation.rs` and
`model/types.rs` have them. Byte amounts are `u128` and saturate, descendant counts are `u64` and
saturate. The refusals of the record encoders and decoders are kept as checks on the typed fact.
-/

namespace Excise
set_option autoImplicit false

/-- `u128` amounts saturate at this many bits. -/
abbrev byteBits : Nat := 128

structure ByteBounds where
  lower : Nat
  upper : Option Nat
  deriving DecidableEq, Repr

namespace ByteBounds

def exact (bytes : Nat) : ByteBounds := ⟨bytes, some bytes⟩

def unknown : ByteBounds := ⟨0, none⟩

def add (b other : ByteBounds) : ByteBounds where
  lower := satAdd byteBits b.lower other.lower
  upper :=
    match b.upper, other.upper with
    | some left, some right => some (satAdd byteBits left right)
    | _, _ => none

/-- `validate_bounds`, and the check of `decode_summary_metrics`. -/
def consistent (b : ByteBounds) : Bool :=
  match b.upper with
  | some upper => decide (b.lower ≤ upper)
  | none => true

end ByteBounds

inductive Coverage where
  | Complete
  | Uncertain
  deriving DecidableEq, Repr

def Coverage.combine : Coverage → Coverage → Coverage
  | .Complete, .Complete => .Complete
  | _, _ => .Uncertain

inductive PathEntryKind where
  | Directory
  | File
  | Link
  deriving DecidableEq, Repr

inductive NodeKind where
  | Root
  | Directory
  | File
  | Link
  | Synthetic
  deriving DecidableEq, Repr

def nodeKindForEntry : PathEntryKind → NodeKind
  | .Directory => .Directory
  | .File => .File
  | .Link => .Link

structure SummaryMetrics where
  apparentBytes : Nat
  allocatedBytes : ByteBounds
  reclaimableBytes : ByteBounds
  descendants : Nat
  deriving DecidableEq, Repr

namespace SummaryMetrics

/-- `SummaryMetrics::default`. -/
def zero : SummaryMetrics := ⟨0, .exact 0, .exact 0, 0⟩

def leaf (apparent : Nat) (allocated reclaimable : ByteBounds) : SummaryMetrics :=
  ⟨apparent, allocated, reclaimable, 0⟩

def addChild (m child : SummaryMetrics) : SummaryMetrics where
  apparentBytes := satAdd byteBits m.apparentBytes child.apparentBytes
  allocatedBytes := m.allocatedBytes.add child.allocatedBytes
  reclaimableBytes := m.reclaimableBytes.add child.reclaimableBytes
  descendants := satAdd 64 (satAdd 64 m.descendants child.descendants) 1

/-- `add_physical` of the page index. -/
def addPhysical (m : SummaryMetrics) (allocated reclaimable : ByteBounds) : SummaryMetrics :=
  { m with
    allocatedBytes := m.allocatedBytes.add allocated
    reclaimableBytes := m.reclaimableBytes.add reclaimable }

/-- `mark_metrics_uncertain`: the known lower bounds stay. -/
def openUpper (m : SummaryMetrics) : SummaryMetrics :=
  { m with
    allocatedBytes := { m.allocatedBytes with upper := none }
    reclaimableBytes := { m.reclaimableBytes with upper := none } }

def consistent (m : SummaryMetrics) : Bool :=
  m.allocatedBytes.consistent && m.reclaimableBytes.consistent

end SummaryMetrics

/-- `file_id::FileId`. -/
inductive FileId where
  | Inode (deviceId inodeNumber : UInt64)
  | LowRes (volumeSerialNumber : UInt32) (fileIndex : UInt64)
  | HighRes (volumeSerialNumber : UInt64) (fileId : BitVec 128)

/-- `append_file_id`: the canonical key bytes, which also order the identity runs. -/
def FileId.encode : FileId → List UInt8
  | .Inode deviceId inodeNumber => 0 :: (leBytes 8 deviceId.toNat ++ leBytes 8 inodeNumber.toNat)
  | .LowRes volume index => 1 :: (leBytes 4 volume.toNat ++ leBytes 8 index.toNat)
  | .HighRes volume fileId => 2 :: (leBytes 8 volume.toNat ++ leBytes 16 fileId.toNat)

theorem FileId.encode_injective : Function.Injective FileId.encode := by
  -- the tag separates the variants; equal tags mean fields of equal widths
  have append_inj {n : Nat} {a b : Nat} {s t : List UInt8} (ha : a < 256 ^ n) (hb : b < 256 ^ n)
      (h : leBytes n a ++ s = leBytes n b ++ t) : a = b ∧ s = t := by
    obtain ⟨h1, h2⟩ := List.append_inj h (by rw [leBytes_length, leBytes_length])
    exact ⟨leBytes_inj ha hb h1, h2⟩
  intro a b h
  cases a with
  | Inode d i =>
    cases b with
    | Inode d' i' =>
      obtain ⟨hd, hi⟩ := append_inj d.toNat_lt d'.toNat_lt (List.cons.inj h).2
      have hi := leBytes_inj i.toNat_lt i'.toNat_lt hi
      rw [UInt64.toNat_inj] at hd hi
      rw [hd, hi]
    | LowRes => exact absurd (List.cons.inj h).1 (by decide)
    | HighRes => exact absurd (List.cons.inj h).1 (by decide)
  | LowRes v i =>
    cases b with
    | Inode => exact absurd (List.cons.inj h).1 (by decide)
    | LowRes v' i' =>
      obtain ⟨hv, hi⟩ := append_inj v.toNat_lt v'.toNat_lt (List.cons.inj h).2
      have hi := leBytes_inj i.toNat_lt i'.toNat_lt hi
      rw [UInt32.toNat_inj] at hv
      rw [UInt64.toNat_inj] at hi
      rw [hv, hi]
    | HighRes => exact absurd (List.cons.inj h).1 (by decide)
  | HighRes v i =>
    cases b with
    | Inode => exact absurd (List.cons.inj h).1 (by decide)
    | LowRes => exact absurd (List.cons.inj h).1 (by decide)
    | HighRes v' i' =>
      obtain ⟨hv, hi⟩ := append_inj v.toNat_lt v'.toNat_lt (List.cons.inj h).2
      have hi := leBytes_inj i.isLt i'.isLt hi
      rw [UInt64.toNat_inj] at hv
      rw [hv, BitVec.eq_of_toNat_eq hi]

instance : LinearOrder FileId := LinearOrder.lift' FileId.encode FileId.encode_injective

structure NativeIdentity where
  fileId : FileId
  linkCount : Option Nat
  reparsePoint : Bool
  deriving DecidableEq

structure EntrySnapshot where
  identity : Option NativeIdentity
  kind : NodeKind
  apparentBytes : Nat
  allocatedBytes : Option Nat
  modifiedNanos : Option Nat
  deriving DecidableEq

structure PathObservation where
  path : RelativePath
  kind : PathEntryKind
  metrics : SummaryMetrics
  coverage : Coverage
  snapshot : Option EntrySnapshot
  deriving DecidableEq

structure IdentityObservation where
  path : RelativePath
  fileId : FileId
  declaredLinks : Option Nat
  allocatedBytes : ByteBounds
  deriving DecidableEq

inductive FactCodecError where
  | NulComponent
  | SnapshotKindMismatch
  | RootPath
  | InconsistentBounds
  | Malformed
  deriving DecidableEq, Repr

/-- A path key cannot hold a NUL byte. -/
def RelativePath.hasNul (p : RelativePath) : Bool := p.components.any fun c => c.bytes.contains 0

/-- What `encode_path_observation_into` refuses. -/
def PathObservation.encodeCheck (o : PathObservation) : Except FactCodecError Unit :=
  if o.path.hasNul then .error .NulComponent
  else
    match o.snapshot with
    | none => .ok ()
    | some snapshot =>
      if snapshot.kind ≠ nodeKindForEntry o.kind ∨
          snapshot.apparentBytes ≠ o.metrics.apparentBytes ∨
          (snapshot.identity.any fun id => id.reparsePoint != decide (o.kind = .Link)) then
        .error .SnapshotKindMismatch
      else if (snapshot.identity.any fun id => id.linkCount == some 0) then .error .Malformed
      else .ok ()

/-- What `decode_path_observation` still refuses of an encoded observation. -/
def PathObservation.decodeCheck (o : PathObservation) : Except FactCodecError Unit :=
  if o.metrics.consistent then .ok () else .error .Malformed

/-- What `encode_identity_observation_into` refuses. -/
def IdentityObservation.encodeCheck (o : IdentityObservation) : Except FactCodecError Unit :=
  if o.path.isRoot then .error .RootPath
  else if !o.allocatedBytes.consistent then .error .InconsistentBounds
  else if o.declaredLinks = some 0 then .error .Malformed
  else if o.path.hasNul then .error .NulComponent
  else .ok ()

/-- A record of one of the two raw fact families. -/
inductive Fact where
  | path (o : PathObservation)
  | identity (o : IdentityObservation)
  deriving DecidableEq

/-- The run key of a fact: the path key, or the file identity followed by the path key. -/
inductive FactKey where
  | path (p : RelativePath)
  | identity (id : FileId) (p : RelativePath)

def FactKey.toPair : FactKey → WithBot FileId ×ₗ RelativePath
  | .path p => toLex (⊥, p)
  | .identity id p => toLex (↑id, p)

theorem FactKey.toPair_injective : Function.Injective FactKey.toPair := by
  intro a b h
  cases a <;> cases b <;> simp_all [FactKey.toPair]

instance : LinearOrder FactKey := LinearOrder.lift' FactKey.toPair FactKey.toPair_injective

def Fact.key : Fact → FactKey
  | .path o => .path o.path
  | .identity o => .identity o.fileId o.path

theorem FactKey.identity_lt_identity {a b : FileId} {p q : RelativePath} :
    FactKey.identity a p < .identity b q ↔ a < b ∨ a = b ∧ p < q := by
  show FactKey.toPair (.identity a p) < FactKey.toPair (.identity b q) ↔ _
  simp [FactKey.toPair, Prod.Lex.toLex_lt_toLex]

end Excise
