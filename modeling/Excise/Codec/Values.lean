import Excise.Lib.Bytes
import Excise.Store.Reduction

/-!
# The shared record fields

File identities (`file_id_codec.rs`), coverage codes and summary metrics
(`summary_metrics.rs`), with the flag words that announce optional fields.
-/

namespace Excise
set_option autoImplicit false

open ByteReader

/-! ## Flag words -/

/-- `flags |= bit` under a condition. -/
def withFlag (flags bit : UInt8) (present : Bool) : UInt8 := if present then flags ||| bit else flags

/-- `flags & bit != 0`. -/
def hasFlag (flags bit : UInt8) : Bool := flags &&& bit != 0

/-- `flags & !known == 0`. -/
def onlyFlags (flags known : UInt8) : Bool := flags &&& ~~~known == 0

theorem hasFlag_or (flags a b : UInt8) :
    hasFlag flags (a ||| b) = (hasFlag flags a || hasFlag flags b) := by
  have hdistrib : flags &&& (a ||| b) = flags &&& a ||| flags &&& b := by
    apply UInt8.toBitVec_inj.mp
    rw [UInt8.toBitVec_and, UInt8.toBitVec_or, UInt8.toBitVec_or, UInt8.toBitVec_and,
      UInt8.toBitVec_and, BitVec.and_or_distrib_left]
  unfold hasFlag
  rw [hdistrib, Bool.eq_iff_iff, Bool.or_eq_true, bne_iff_ne, bne_iff_ne, bne_iff_ne, ne_eq,
    UInt8.or_eq_zero_iff, not_and_or]

theorem forall_byte {P : UInt8 → Prop} (h : ∀ n : Fin 256, P (UInt8.ofNat n.val)) (b : UInt8) :
    P b := by
  have hb := h ⟨b.toNat, b.toNat_lt⟩
  rwa [UInt8.ofNat_toNat] at hb

/-! ## File identities -/

inductive FileIdCodecError where
  | Malformed
  deriving DecidableEq, Repr

/-- `decode_file_id_prefix`: the identity and what follows it. -/
def decodeFileIdPrefix : ByteReader FileIdCodecError FileId := do
  let tag ← byte .Malformed
  if tag = 0 then
    let deviceId ← le .Malformed 8
    let inodeNumber ← le .Malformed 8
    return .Inode (UInt64.ofNat deviceId) (UInt64.ofNat inodeNumber)
  else if tag = 1 then
    let volume ← le .Malformed 4
    let index ← le .Malformed 8
    return .LowRes (UInt32.ofNat volume) (UInt64.ofNat index)
  else if tag = 2 then
    let volume ← le .Malformed 8
    let fileId ← le .Malformed 16
    return .HighRes (UInt64.ofNat volume) (BitVec.ofNat 128 fileId)
  else fail .Malformed

/-- `decode_file_id`: the identity is all there is. -/
def decodeFileId (encoded : List UInt8) : Except FileIdCodecError FileId :=
  match decodeFileIdPrefix.run encoded with
  | .error e => .error e
  | .ok (fileId, rest) => if rest.isEmpty then .ok fileId else .error .Malformed

theorem reads_fileId : Reads decodeFileIdPrefix (fun _ => True) FileId.encode := by
  intro input id rest
  unfold decodeFileIdPrefix
  simp only [bind_ok, byte_ok, true_and]
  constructor
  · rintro ⟨tag, mid, rfl, h⟩
    split at h
    · rename_i htag
      simp only [bind_ok, le_ok, pure_ok] at h
      obtain ⟨d, _, ⟨hd, rfl⟩, i, _, ⟨hi, rfl⟩, rfl, rfl⟩ := h
      rw [htag, FileId.encode, UInt64.toNat_ofNat_of_lt' hd, UInt64.toNat_ofNat_of_lt' hi]
      simp
    split at h
    · rename_i htag
      simp only [bind_ok, le_ok, pure_ok] at h
      obtain ⟨d, _, ⟨hd, rfl⟩, i, _, ⟨hi, rfl⟩, rfl, rfl⟩ := h
      rw [htag, FileId.encode, UInt32.toNat_ofNat_of_lt' hd, UInt64.toNat_ofNat_of_lt' hi]
      simp
    split at h
    · rename_i htag
      simp only [bind_ok, le_ok, pure_ok] at h
      obtain ⟨d, _, ⟨hd, rfl⟩, i, _, ⟨hi, rfl⟩, rfl, rfl⟩ := h
      have hid : (BitVec.ofNat 128 i).toNat = i := by
        rw [BitVec.toNat_ofNat]
        exact Nat.mod_eq_of_lt hi
      rw [htag, FileId.encode, UInt64.toNat_ofNat_of_lt' hd, hid]
      simp
    · cases h
  · rintro rfl
    cases id with
    | Inode d i =>
      refine ⟨0, _, rfl, ?_⟩
      rw [if_pos rfl]
      simp only [bind_ok, le_ok, pure_ok]
      exact ⟨d.toNat, _, ⟨d.toNat_lt, List.append_assoc _ _ _⟩, i.toNat, _, ⟨i.toNat_lt, rfl⟩, by simp⟩
    | LowRes v i =>
      refine ⟨1, _, rfl, ?_⟩
      rw [if_neg (by decide), if_pos rfl]
      simp only [bind_ok, le_ok, pure_ok]
      exact ⟨v.toNat, _, ⟨v.toNat_lt, List.append_assoc _ _ _⟩, i.toNat, _, ⟨i.toNat_lt, rfl⟩, by simp⟩
    | HighRes v i =>
      refine ⟨2, _, rfl, ?_⟩
      rw [if_neg (by decide), if_neg (by decide), if_pos rfl]
      simp only [bind_ok, le_ok, pure_ok]
      exact ⟨v.toNat, _, ⟨v.toNat_lt, List.append_assoc _ _ _⟩, i.toNat, _, ⟨i.isLt, rfl⟩, by simp⟩

theorem decodeFileId_eq_ok {encoded : List UInt8} {id : FileId} :
    decodeFileId encoded = .ok id ↔ encoded = id.encode := by
  have hread := reads_fileId encoded
  unfold decodeFileId
  constructor
  · intro h
    split at h
    · cases h
    · rename_i id' rest hid
      split at h
      · rename_i hnil
        cases h
        obtain ⟨-, rfl⟩ := (hread id rest).mp hid
        rw [List.isEmpty_iff.mp hnil, List.append_nil]
      · cases h
  · rintro rfl
    rw [(hread id []).mpr ⟨trivial, (List.append_nil _).symm⟩]
    rfl

/-! ## Coverage -/

def coverageCode : Coverage → UInt8
  | .Complete => 1
  | .Uncertain => 2

def coverageFromCode (value : UInt8) : Option Coverage :=
  if value = 1 then some .Complete else if value = 2 then some .Uncertain else none

theorem coverageFromCode_eq_some {value : UInt8} {c : Coverage} :
    coverageFromCode value = some c ↔ value = coverageCode c := by
  unfold coverageFromCode
  cases c with
  | Complete =>
    by_cases h : value = 1
    · simp [h, coverageCode]
    · simp [h, coverageCode]
  | Uncertain =>
    by_cases h : value = 1
    · simp [h, coverageCode]
    · simp [h, coverageCode]

/-! ## Summary metrics -/

inductive SummaryMetricsCodecError where
  | Malformed
  deriving DecidableEq, Repr

/-- `ALLOCATED_UPPER_PRESENT` and `RECLAIMABLE_UPPER_PRESENT`. -/
def summaryMetricsFlags (m : SummaryMetrics) : UInt8 :=
  withFlag (withFlag 0 1 m.allocatedBytes.upper.isSome) 2 m.reclaimableBytes.upper.isSome

/-- `encode_summary_metrics_into`. -/
def encodeSummaryMetrics (m : SummaryMetrics) : List UInt8 :=
  leBytes 16 m.apparentBytes ++ (leBytes 16 m.allocatedBytes.lower ++
    (leBytes 16 m.reclaimableBytes.lower ++ (leBytes 8 m.descendants ++
      (m.allocatedBytes.upper.elim [] (leBytes 16) ++
        m.reclaimableBytes.upper.elim [] (leBytes 16)))))

def decodeSummaryMetrics (flags : UInt8) : ByteReader SummaryMetricsCodecError SummaryMetrics := do
  require .Malformed (onlyFlags flags 3)
  let apparentBytes ← le .Malformed 16
  let allocatedLower ← le .Malformed 16
  let reclaimableLower ← le .Malformed 16
  let descendants ← le .Malformed 8
  let allocatedUpper ← optional (hasFlag flags 1) (le .Malformed 16)
  let reclaimableUpper ← optional (hasFlag flags 2) (le .Malformed 16)
  require .Malformed
    (!(allocatedUpper.any (· < allocatedLower) || reclaimableUpper.any (· < reclaimableLower)))
  return ⟨apparentBytes, ⟨allocatedLower, allocatedUpper⟩, ⟨reclaimableLower, reclaimableUpper⟩,
    descendants⟩

/-- The amounts are `u128`. -/
def ByteBounds.Representable (b : ByteBounds) : Prop :=
  b.lower < 256 ^ 16 ∧ ∀ upper ∈ b.upper, upper < 256 ^ 16

/-- The numbers are those of the source's fields: `u128` amounts and a `u64` count. -/
structure SummaryMetrics.Representable (m : SummaryMetrics) : Prop where
  apparent : m.apparentBytes < 256 ^ 16
  allocated : m.allocatedBytes.Representable
  reclaimable : m.reclaimableBytes.Representable
  descendants : m.descendants < 256 ^ 8

instance (b : ByteBounds) : Decidable b.Representable :=
  inferInstanceAs (Decidable (b.lower < 256 ^ 16 ∧ ∀ upper ∈ b.upper, upper < 256 ^ 16))

instance (m : SummaryMetrics) : Decidable m.Representable :=
  decidable_of_iff (m.apparentBytes < 256 ^ 16 ∧ m.allocatedBytes.Representable ∧
      m.reclaimableBytes.Representable ∧ m.descendants < 256 ^ 8)
    ⟨fun ⟨ha, hal, hr, hd⟩ => ⟨ha, hal, hr, hd⟩, fun ⟨ha, hal, hr, hd⟩ => ⟨ha, hal, hr, hd⟩⟩

theorem any_lt_eq_not_consistent (b : ByteBounds) :
    (b.upper.any fun upper => decide (upper < b.lower)) = !b.consistent := by
  unfold ByteBounds.consistent
  cases b.upper with
  | none => rfl
  | some upper =>
    show decide (upper < b.lower) = !decide (b.lower ≤ upper)
    rw [← decide_not, decide_eq_decide]
    omega

/-- A metrics flag word says which upper bounds are there, and nothing else. -/
theorem metricsFlags_iff {flags : UInt8} (allocated reclaimable : Bool) :
    onlyFlags flags 3 = true ∧ allocated = hasFlag flags 1 ∧ reclaimable = hasFlag flags 2 ↔
      flags = withFlag (withFlag 0 1 allocated) 2 reclaimable := by
  revert allocated reclaimable
  refine forall_byte (P := fun flags => ∀ allocated reclaimable : Bool,
    onlyFlags flags 3 = true ∧ allocated = hasFlag flags 1 ∧ reclaimable = hasFlag flags 2 ↔
      flags = withFlag (withFlag 0 1 allocated) 2 reclaimable) ?_ flags
  decide +kernel

theorem reads_summaryMetrics (flags : UInt8) :
    Reads (decodeSummaryMetrics flags)
      (fun m => m.Representable ∧ m.consistent = true ∧ flags = summaryMetricsFlags m)
      encodeSummaryMetrics := by
  have hle := reads_le SummaryMetricsCodecError.Malformed 16
  intro input m rest
  unfold decodeSummaryMetrics
  simp only [bind_ok, require_ok, le_ok, optional_ok hle, pure_ok]
  unfold summaryMetricsFlags
  rw [← metricsFlags_iff]
  constructor
  · rintro ⟨-, _, ⟨hflags, rfl⟩, a, _, ⟨ha, rfl⟩, al, _, ⟨hal, rfl⟩, rl, _, ⟨hrl, rfl⟩, d, _,
      ⟨hd, rfl⟩, au, _, ⟨⟨hau, haub⟩, rfl⟩, ru, _, ⟨⟨hru, hrub⟩, rfl⟩, -, _, ⟨hcheck, rfl⟩, rfl, rfl⟩
    refine ⟨⟨⟨ha, ⟨hal, haub⟩, ⟨hrl, hrub⟩, hd⟩, ?_, hflags, hau, hru⟩, ?_⟩
    · have hallocated := any_lt_eq_not_consistent ⟨al, au⟩
      have hreclaimable := any_lt_eq_not_consistent ⟨rl, ru⟩
      simp only at hallocated hreclaimable
      rw [hallocated, hreclaimable] at hcheck
      simpa [SummaryMetrics.consistent] using hcheck
    · simp [encodeSummaryMetrics]
  · rintro ⟨⟨hrep, hcons, hflags, hau, hru⟩, rfl⟩
    refine ⟨(), _, ⟨hflags, rfl⟩, m.apparentBytes, _, ⟨hrep.apparent, List.append_assoc _ _ _⟩,
      m.allocatedBytes.lower, _, ⟨hrep.allocated.1, List.append_assoc _ _ _⟩,
      m.reclaimableBytes.lower, _, ⟨hrep.reclaimable.1, List.append_assoc _ _ _⟩, m.descendants, _,
      ⟨hrep.descendants, List.append_assoc _ _ _⟩, m.allocatedBytes.upper, _,
      ⟨⟨hau, hrep.allocated.2⟩, List.append_assoc _ _ _⟩, m.reclaimableBytes.upper, _,
      ⟨⟨hru, hrep.reclaimable.2⟩, rfl⟩, (), _, ⟨?_, rfl⟩, rfl, rfl⟩
    rw [any_lt_eq_not_consistent, any_lt_eq_not_consistent]
    simpa [SummaryMetrics.consistent] using hcons

end Excise
