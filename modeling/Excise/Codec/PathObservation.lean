import Excise.Codec.PathKey
import Excise.Codec.Values

/-!
# Path observation records

`path_observation.rs`: the key is the path key, the value a version, a kind, a coverage, a flag
word, the metrics and the optional fields of the snapshot.
-/

namespace Excise
set_option autoImplicit false

open ByteReader

inductive PathObservationCodecError where
  | PathKey (e : PathKeyError)
  | FileId (e : FileIdCodecError)
  | SnapshotKindMismatch
  | Malformed
  deriving DecidableEq, Repr

def entryKindByte : PathEntryKind → UInt8
  | .Directory => 1
  | .File => 2
  | .Link => 3

def entryKindFromByte (value : UInt8) : Option PathEntryKind :=
  if value = 1 then some .Directory
  else if value = 2 then some .File
  else if value = 3 then some .Link
  else none

/-! The bits of the flag word above those of the metrics. -/

def snapshotPresent : UInt8 := 4
def snapshotIdentityPresent : UInt8 := 8
def snapshotLinkCountPresent : UInt8 := 16
def snapshotAllocatedPresent : UInt8 := 32
def snapshotModifiedPresent : UInt8 := 64
def snapshotReparsePoint : UInt8 := 128

/-- The flags an identity of the snapshot adds. -/
def identityFlags (flags : UInt8) : Option NativeIdentity → UInt8
  | none => flags
  | some identity =>
    withFlag
      (withFlag (flags ||| snapshotIdentityPresent) snapshotLinkCountPresent
        identity.linkCount.isSome)
      snapshotReparsePoint identity.reparsePoint

def snapshotFlags (flags : UInt8) : Option EntrySnapshot → UInt8
  | none => flags
  | some snapshot =>
    withFlag
      (withFlag (identityFlags (flags ||| snapshotPresent) snapshot.identity)
        snapshotAllocatedPresent snapshot.allocatedBytes.isSome)
      snapshotModifiedPresent snapshot.modifiedNanos.isSome

def pathObservationFlags (o : PathObservation) : UInt8 :=
  snapshotFlags (summaryMetricsFlags o.metrics) o.snapshot

def encodeIdentityBytes (identity : NativeIdentity) : List UInt8 :=
  identity.fileId.encode ++ identity.linkCount.elim [] (leBytes 8)

def encodeSnapshotBytes (snapshot : EntrySnapshot) : List UInt8 :=
  snapshot.identity.elim [] encodeIdentityBytes ++
    (snapshot.allocatedBytes.elim [] (leBytes 16) ++ snapshot.modifiedNanos.elim [] (leBytes 16))

/-- The value under a given flag word. -/
def pathObservationValue (flags : UInt8) (o : PathObservation) : List UInt8 :=
  2 :: entryKindByte o.kind :: coverageCode o.coverage :: flags ::
    (encodeSummaryMetrics o.metrics ++ o.snapshot.elim [] encodeSnapshotBytes)

/-- The checks of the snapshot against the entry. -/
def checkSnapshot (o : PathObservation) : Except PathObservationCodecError Unit :=
  match o.snapshot with
  | none => .ok ()
  | some snapshot =>
    if snapshot.kind ≠ nodeKindForEntry o.kind ∨
        snapshot.apparentBytes ≠ o.metrics.apparentBytes ∨
        (snapshot.identity.any fun identity => identity.reparsePoint != decide (o.kind = .Link)) then
      .error .SnapshotKindMismatch
    else if (snapshot.identity.any fun identity => identity.linkCount == some 0) then
      .error .Malformed
    else .ok ()

/-- `encode_path_observation_into`: the key and the value. -/
def encodePathObservation (o : PathObservation) :
    Except PathObservationCodecError (List UInt8 × List UInt8) :=
  match encodePathKey o.path with
  | .error e => .error (.PathKey e)
  | .ok key =>
    match checkSnapshot o with
    | .error e => .error e
    | .ok () => .ok (key, pathObservationValue (pathObservationFlags o) o)

def decodeSnapshotIdentity (flags : UInt8) :
    ByteReader PathObservationCodecError (Option NativeIdentity) :=
  if !hasFlag flags snapshotIdentityPresent then do
    require .Malformed (!hasFlag flags (snapshotLinkCountPresent ||| snapshotReparsePoint))
    return none
  else do
    let fileId ← decodeFileIdPrefix.mapError .FileId
    let linkCount ← optional (hasFlag flags snapshotLinkCountPresent) (le .Malformed 8)
    require .Malformed (linkCount != some 0)
    return some ⟨fileId, linkCount, hasFlag flags snapshotReparsePoint⟩

def decodeSnapshot (flags : UInt8) (kind : PathEntryKind) (metrics : SummaryMetrics) :
    ByteReader PathObservationCodecError (Option EntrySnapshot) :=
  if !hasFlag flags snapshotPresent then return none
  else do
    let identity ← decodeSnapshotIdentity flags
    require .Malformed
      (!identity.any fun identity => identity.reparsePoint != decide (kind = .Link))
    let allocatedBytes ← optional (hasFlag flags snapshotAllocatedPresent) (le .Malformed 16)
    let modifiedNanos ← optional (hasFlag flags snapshotModifiedPresent) (le .Malformed 16)
    return some ⟨identity, nodeKindForEntry kind, metrics.apparentBytes, allocatedBytes, modifiedNanos⟩

/-- The first condition on the flags is as the source has it: no word passes the first half and
fails the second. -/
def readPathObservation (key : List UInt8) :
    ByteReader PathObservationCodecError PathObservation := do
  let version ← byte .Malformed
  require .Malformed (version == 2)
  let kindByte ← byte .Malformed
  let kind ← ofOption .Malformed (entryKindFromByte kindByte)
  let coverageByte ← byte .Malformed
  let coverage ← ofOption .Malformed (coverageFromCode coverageByte)
  let flags ← byte .Malformed
  require .Malformed
    (!(onlyFlags flags snapshotPresent &&
      hasFlag flags (snapshotIdentityPresent ||| snapshotLinkCountPresent |||
        snapshotAllocatedPresent ||| snapshotModifiedPresent ||| snapshotReparsePoint)))
  let metrics ← (decodeSummaryMetrics (flags &&& 3)).mapError fun _ => .Malformed
  let snapshot ← decodeSnapshot flags kind metrics
  finish .Malformed
  let path ← ofExcept .PathKey (decodePathKey key)
  return ⟨path, kind, metrics, coverage, snapshot⟩

def decodePathObservation (key value : List UInt8) :
    Except PathObservationCodecError PathObservation :=
  (readPathObservation key).decode value

/-! ## What is accepted -/

theorem entryKindFromByte_eq_some {value : UInt8} {kind : PathEntryKind} :
    entryKindFromByte value = some kind ↔ value = entryKindByte kind := by
  revert kind
  refine forall_byte (P := fun value => ∀ {kind : PathEntryKind},
    entryKindFromByte value = some kind ↔ value = entryKindByte kind) ?_ value
  intro n kind
  cases kind <;> revert n <;> decide +kernel

/-- The bits that go with an identity say what it holds. -/
structure IdentityBits (flags : UInt8) (identity : Option NativeIdentity) : Prop where
  present : hasFlag flags snapshotIdentityPresent = identity.isSome
  linkCount : hasFlag flags snapshotLinkCountPresent = identity.any fun i => i.linkCount.isSome
  reparse : hasFlag flags snapshotReparsePoint = identity.any fun i => i.reparsePoint

/-- Without the snapshot bit the bits above it say nothing. -/
structure SnapshotBits (flags : UInt8) (snapshot : Option EntrySnapshot) : Prop where
  present : hasFlag flags snapshotPresent = snapshot.isSome
  identity : ∀ s ∈ snapshot, IdentityBits flags s.identity
  allocated : ∀ s ∈ snapshot, hasFlag flags snapshotAllocatedPresent = s.allocatedBytes.isSome
  modified : ∀ s ∈ snapshot, hasFlag flags snapshotModifiedPresent = s.modifiedNanos.isSome

/-- Link counts are `u64`. -/
def NativeIdentity.Representable (i : NativeIdentity) : Prop := ∀ n ∈ i.linkCount, n < 256 ^ 8

structure EntrySnapshot.Representable (s : EntrySnapshot) : Prop where
  identity : ∀ i ∈ s.identity, i.Representable
  allocated : ∀ n ∈ s.allocatedBytes, n < 256 ^ 16
  modified : ∀ n ∈ s.modifiedNanos, n < 256 ^ 16

/-- The numbers of the observation fit the fields of the source. -/
structure PathObservation.Representable (o : PathObservation) : Prop where
  metrics : o.metrics.Representable
  snapshot : ∀ s ∈ o.snapshot, s.Representable

theorem decodeSnapshotIdentity_ok {flags : UInt8} {identity : Option NativeIdentity}
    {input rest : List UInt8} :
    (decodeSnapshotIdentity flags).run input = .ok (identity, rest) ↔
      (IdentityBits flags identity ∧ (∀ i ∈ identity, i.Representable ∧ i.linkCount ≠ some 0)) ∧
        input = identity.elim [] encodeIdentityBytes ++ rest := by
  have hle := reads_le PathObservationCodecError.Malformed 8
  unfold decodeSnapshotIdentity
  cases hpresent : hasFlag flags snapshotIdentityPresent with
  | false =>
    simp only [Bool.not_false, if_true, bind_ok, require_ok, pure_ok, hasFlag_or]
    constructor
    · rintro ⟨-, _, ⟨hothers, rfl⟩, rfl, rfl⟩
      have hothers : hasFlag flags snapshotLinkCountPresent = false ∧
          hasFlag flags snapshotReparsePoint = false := by simpa using hothers
      exact ⟨⟨⟨hpresent, hothers.1, hothers.2⟩, by simp⟩, rfl⟩
    · rintro ⟨⟨hbits, -⟩, rfl⟩
      have hnone : identity = none := by
        have h := hbits.present
        rw [hpresent] at h
        cases identity with
        | none => rfl
        | some i => cases h
      subst hnone
      refine ⟨(), _, ⟨?_, rfl⟩, rfl, rfl⟩
      rw [hbits.linkCount, hbits.reparse]
      rfl
  | true =>
    simp only [Bool.not_true, Bool.false_eq_true, if_false, bind_ok, mapError_ok, require_ok,
      optional_ok hle, pure_ok, reads_fileId _ _ _, true_and]
    constructor
    · rintro ⟨id, _, rfl, links, _, ⟨⟨hlinks, hbound⟩, rfl⟩, -, _, ⟨hzero, rfl⟩, rfl, rfl⟩
      refine ⟨⟨⟨hpresent, hlinks.symm, rfl⟩, ?_⟩, ?_⟩
      · intro i hi
        cases hi
        exact ⟨hbound, by simpa using hzero⟩
      · simp [encodeIdentityBytes]
    · rintro ⟨⟨hbits, hvalid⟩, rfl⟩
      have hsome := hbits.present
      rw [hpresent] at hsome
      obtain ⟨i, rfl⟩ := Option.isSome_iff_exists.mp hsome.symm
      obtain ⟨hbound, hzero⟩ := hvalid i rfl
      refine ⟨i.fileId, _, List.append_assoc _ _ _, i.linkCount, _,
        ⟨⟨hbits.linkCount.symm, hbound⟩, rfl⟩, (), _, ⟨by simpa using hzero, rfl⟩, ?_, rfl⟩
      rw [hbits.reparse]
      rfl

/-- The snapshot agrees with the entry it was taken of. -/
structure SnapshotFits (entryKind : PathEntryKind) (metrics : SummaryMetrics) (s : EntrySnapshot) :
    Prop where
  kind : s.kind = nodeKindForEntry entryKind
  apparent : s.apparentBytes = metrics.apparentBytes
  reparse : ∀ i ∈ s.identity, i.reparsePoint = decide (entryKind = .Link)
  linkCount : ∀ i ∈ s.identity, i.linkCount ≠ some 0

theorem forall_mem_some {α : Type} {P : α → Prop} {a : α} : (∀ b ∈ some a, P b) ↔ P a := by simp

theorem any_eq_false_iff {α : Type} {o : Option α} {f : α → Bool} :
    o.any f = false ↔ ∀ a ∈ o, f a = false := by
  cases o <;> simp

theorem reparse_check {kind : PathEntryKind} {identity : Option NativeIdentity} :
    (identity.any fun i => i.reparsePoint != decide (kind = .Link)) = false ↔
      ∀ i ∈ identity, i.reparsePoint = decide (kind = .Link) := by
  rw [any_eq_false_iff]
  simp only [bne_eq_false_iff_eq]

theorem checkSnapshot_eq_ok {o : PathObservation} :
    checkSnapshot o = .ok () ↔ ∀ s ∈ o.snapshot, SnapshotFits o.kind o.metrics s := by
  unfold checkSnapshot
  cases hs : o.snapshot with
  | none => simp
  | some s =>
    have hlinks : (s.identity.any fun i => i.linkCount == some 0) = false ↔
        ∀ i ∈ s.identity, i.linkCount ≠ some 0 := by
      rw [any_eq_false_iff]
      simp only [beq_eq_false_iff_ne]
    rw [forall_mem_some]
    dsimp only
    constructor
    · intro h
      split at h
      · cases h
      · rename_i hmismatch
        split at h
        · cases h
        · rename_i hzero
          rw [not_or, not_or, not_not, not_not, Bool.not_eq_true] at hmismatch
          exact ⟨hmismatch.1, hmismatch.2.1, reparse_check.mp hmismatch.2.2,
            hlinks.mp (Bool.not_eq_true _ ▸ hzero)⟩
    · intro h
      have hmatch : ¬(s.kind ≠ nodeKindForEntry o.kind ∨ s.apparentBytes ≠ o.metrics.apparentBytes ∨
          (s.identity.any fun i => i.reparsePoint != decide (o.kind = .Link)) = true) := by
        rw [not_or, not_or, not_not, not_not, Bool.not_eq_true]
        exact ⟨h.kind, h.apparent, reparse_check.mpr h.reparse⟩
      rw [if_neg hmatch, hlinks.mpr h.linkCount]
      rfl

theorem decodeSnapshot_ok {flags : UInt8} {kind : PathEntryKind} {metrics : SummaryMetrics}
    {snapshot : Option EntrySnapshot} {input rest : List UInt8} :
    (decodeSnapshot flags kind metrics).run input = .ok (snapshot, rest) ↔
      (SnapshotBits flags snapshot ∧
        (∀ s ∈ snapshot, s.Representable ∧ SnapshotFits kind metrics s)) ∧
        input = snapshot.elim [] encodeSnapshotBytes ++ rest := by
  have hle := reads_le PathObservationCodecError.Malformed 16
  unfold decodeSnapshot
  cases hpresent : hasFlag flags snapshotPresent with
  | false =>
    simp only [Bool.not_false, if_true, pure_ok]
    constructor
    · rintro ⟨rfl, rfl⟩
      exact ⟨⟨⟨hpresent, by simp, by simp, by simp⟩, by simp⟩, rfl⟩
    · rintro ⟨⟨hbits, -⟩, rfl⟩
      have h := hbits.present
      rw [hpresent] at h
      cases snapshot with
      | none => exact ⟨rfl, rfl⟩
      | some s => cases h
  | true =>
    simp only [Bool.not_true, Bool.false_eq_true, if_false, bind_ok, decodeSnapshotIdentity_ok,
      require_ok, optional_ok hle, pure_ok]
    constructor
    · rintro ⟨identity, _, ⟨⟨hbits, hvalid⟩, rfl⟩, -, _, ⟨hreparse, rfl⟩, allocated, _,
        ⟨⟨hallocated, hab⟩, rfl⟩, modified, _, ⟨⟨hmodified, hmb⟩, rfl⟩, rfl, rfl⟩
      refine ⟨⟨⟨hpresent, ?_, ?_, ?_⟩, ?_⟩, ?_⟩
      · rw [forall_mem_some]
        exact hbits
      · rw [forall_mem_some]
        exact hallocated.symm
      · rw [forall_mem_some]
        exact hmodified.symm
      · rw [forall_mem_some]
        exact ⟨⟨fun i hi => (hvalid i hi).1, hab, hmb⟩, rfl, rfl,
          reparse_check.mp (by simpa using hreparse), fun i hi => (hvalid i hi).2⟩
      · simp [encodeSnapshotBytes]
    · rintro ⟨⟨hbits, hvalid⟩, rfl⟩
      have hsome := hbits.present
      rw [hpresent] at hsome
      obtain ⟨s, rfl⟩ := Option.isSome_iff_exists.mp hsome.symm
      obtain ⟨hrep, hfits⟩ := hvalid s rfl
      refine ⟨s.identity, _, ⟨⟨hbits.identity s rfl, fun i hi => ⟨hrep.identity i hi, hfits.linkCount i hi⟩⟩,
        List.append_assoc _ _ _⟩, (), _, ⟨?_, rfl⟩, s.allocatedBytes, _,
        ⟨⟨(hbits.allocated s rfl).symm, hrep.allocated⟩, List.append_assoc _ _ _⟩, s.modifiedNanos, _,
        ⟨⟨(hbits.modified s rfl).symm, hrep.modified⟩, rfl⟩, ?_, rfl⟩
      · rw [reparse_check.mpr hfits.reparse]
        rfl
      · rw [← hfits.kind, ← hfits.apparent]

/-- No flag word fails the second condition after the first. -/
theorem first_check_passes (flags : UInt8) :
    (onlyFlags flags snapshotPresent &&
      hasFlag flags (snapshotIdentityPresent ||| snapshotLinkCountPresent |||
        snapshotAllocatedPresent ||| snapshotModifiedPresent ||| snapshotReparsePoint)) = false := by
  refine forall_byte (P := fun flags => (onlyFlags flags snapshotPresent &&
    hasFlag flags (snapshotIdentityPresent ||| snapshotLinkCountPresent |||
      snapshotAllocatedPresent ||| snapshotModifiedPresent ||| snapshotReparsePoint)) = false) ?_ flags
  decide +kernel

theorem decodePathObservation_eq_ok {key value : List UInt8} {o : PathObservation} :
    decodePathObservation key value = .ok o ↔
      ∃ flags, value = pathObservationValue flags o ∧ flags &&& 3 = summaryMetricsFlags o.metrics ∧
        SnapshotBits flags o.snapshot ∧ o.Representable ∧ o.metrics.consistent = true ∧
        checkSnapshot o = .ok () ∧ encodePathKey o.path = .ok key := by
  unfold decodePathObservation
  rw [decode_eq_ok]
  unfold readPathObservation
  simp only [bind_ok, byte_ok, require_ok, ofOption_ok, mapError_ok, finish_ok, ofExcept_ok, pure_ok,
    decodeSnapshot_ok, (reads_summaryMetrics _) _ _ _, entryKindFromByte_eq_some,
    coverageFromCode_eq_some, first_check_passes, checkSnapshot_eq_ok]
  constructor
  · rintro ⟨rest, version, _, rfl, -, _, ⟨hversion, rfl⟩, _, _, rfl, kind, _, ⟨rfl, rfl⟩, _, _, rfl,
      coverage, _, ⟨rfl, rfl⟩, flags, _, rfl, -, _, ⟨-, rfl⟩, metrics, _,
      ⟨⟨hrep, hconsistent, hmetrics⟩, rfl⟩, snapshot, _, ⟨⟨hbits, hvalid⟩, rfl⟩, -, _, ⟨rfl, rfl⟩,
      path, _, ⟨hpath, rfl⟩, rfl, rfl⟩
    refine ⟨flags, ?_, hmetrics, hbits, ⟨hrep, fun s hs => (hvalid s hs).1⟩, hconsistent,
      fun s hs => (hvalid s hs).2, unix_pathKeyLaws.canonical key path hpath⟩
    simp [pathObservationValue, eq_of_beq hversion]
  · rintro ⟨flags, rfl, hmetrics, hbits, hrep, hconsistent, hfits, hpath⟩
    refine ⟨[], 2, _, rfl, (), _, ⟨rfl, rfl⟩, _, _, rfl, o.kind, _, ⟨rfl, rfl⟩, _, _, rfl, o.coverage,
      _, ⟨rfl, rfl⟩, flags, _, rfl, (), _, ⟨rfl, rfl⟩, o.metrics, _,
      ⟨⟨hrep.metrics, hconsistent, hmetrics⟩, rfl⟩, o.snapshot, [],
      ⟨⟨hbits, fun s hs => ⟨hrep.snapshot s hs, hfits s hs⟩⟩, (List.append_nil _).symm⟩, (), [],
      ⟨rfl, rfl⟩, o.path, [], ⟨unix_pathKeyLaws.roundTrip o.path key hpath, rfl⟩, rfl, rfl⟩

/-! ## The flag word of a snapshot -/

/-- The word of an observation with a snapshot, from what each bit announces. -/
def flagWord (allocatedUpper reclaimableUpper identity linkCount reparse allocated modified : Bool) :
    UInt8 :=
  withFlag (withFlag (withFlag (withFlag (withFlag
    (withFlag (withFlag 0 1 allocatedUpper) 2 reclaimableUpper ||| snapshotPresent)
    snapshotIdentityPresent identity) snapshotLinkCountPresent linkCount)
    snapshotReparsePoint reparse) snapshotAllocatedPresent allocated) snapshotModifiedPresent modified

theorem flagWord_bits (a r i l p al mo : Bool) :
    flagWord a r i l p al mo &&& 3 = withFlag (withFlag 0 1 a) 2 r ∧
      hasFlag (flagWord a r i l p al mo) snapshotPresent = true ∧
      hasFlag (flagWord a r i l p al mo) snapshotIdentityPresent = i ∧
      hasFlag (flagWord a r i l p al mo) snapshotLinkCountPresent = l ∧
      hasFlag (flagWord a r i l p al mo) snapshotReparsePoint = p ∧
      hasFlag (flagWord a r i l p al mo) snapshotAllocatedPresent = al ∧
      hasFlag (flagWord a r i l p al mo) snapshotModifiedPresent = mo := by
  cases a <;> cases r <;> cases i <;> cases l <;> cases p <;> cases al <;> cases mo <;> decide +kernel

theorem eq_flagWord (flags : UInt8) (h : hasFlag flags snapshotPresent = true) :
    flags = flagWord (hasFlag (flags &&& 3) 1) (hasFlag (flags &&& 3) 2)
      (hasFlag flags snapshotIdentityPresent) (hasFlag flags snapshotLinkCountPresent)
      (hasFlag flags snapshotReparsePoint) (hasFlag flags snapshotAllocatedPresent)
      (hasFlag flags snapshotModifiedPresent) := by
  revert h
  refine forall_byte (P := fun flags => hasFlag flags snapshotPresent = true → flags =
    flagWord (hasFlag (flags &&& 3) 1) (hasFlag (flags &&& 3) 2)
      (hasFlag flags snapshotIdentityPresent) (hasFlag flags snapshotLinkCountPresent)
      (hasFlag flags snapshotReparsePoint) (hasFlag flags snapshotAllocatedPresent)
      (hasFlag flags snapshotModifiedPresent)) ?_ flags
  decide +kernel

theorem metricsWord_bits (a r : Bool) :
    hasFlag (withFlag (withFlag 0 1 a) 2 r) 1 = a ∧ hasFlag (withFlag (withFlag 0 1 a) 2 r) 2 = r := by
  cases a <;> cases r <;> decide

theorem snapshotFlags_some (m : SummaryMetrics) (s : EntrySnapshot) :
    snapshotFlags (summaryMetricsFlags m) (some s) =
      flagWord m.allocatedBytes.upper.isSome m.reclaimableBytes.upper.isSome s.identity.isSome
        (s.identity.any fun i => i.linkCount.isSome) (s.identity.any fun i => i.reparsePoint)
        s.allocatedBytes.isSome s.modifiedNanos.isSome := by
  obtain ⟨identity, kind, apparentBytes, allocatedBytes, modifiedNanos⟩ := s
  cases identity <;> rfl

theorem snapshotFlags_iff {flags : UInt8} {m : SummaryMetrics} {s : EntrySnapshot} :
    flags &&& 3 = summaryMetricsFlags m ∧ SnapshotBits flags (some s) ↔
      flags = snapshotFlags (summaryMetricsFlags m) (some s) := by
  rw [snapshotFlags_some]
  constructor
  · rintro ⟨hmetrics, hbits⟩
    have hidentity := hbits.identity s rfl
    rw [eq_flagWord flags hbits.present, hmetrics, hidentity.present, hidentity.linkCount,
      hidentity.reparse, hbits.allocated s rfl, hbits.modified s rfl]
    unfold summaryMetricsFlags
    rw [(metricsWord_bits _ _).1, (metricsWord_bits _ _).2]
  · rintro rfl
    obtain ⟨hmetrics, hpresent, hidentity, hlinks, hreparse, hallocated, hmodified⟩ :=
      flagWord_bits m.allocatedBytes.upper.isSome m.reclaimableBytes.upper.isSome s.identity.isSome
        (s.identity.any fun i => i.linkCount.isSome) (s.identity.any fun i => i.reparsePoint)
        s.allocatedBytes.isSome s.modifiedNanos.isSome
    refine ⟨hmetrics, hpresent, ?_, ?_, ?_⟩
    · rw [forall_mem_some]
      exact ⟨hidentity, hlinks, hreparse⟩
    · rw [forall_mem_some]
      exact hallocated
    · rw [forall_mem_some]
      exact hmodified

theorem metricsFlags_low (m : SummaryMetrics) :
    summaryMetricsFlags m &&& 3 = summaryMetricsFlags m ∧
      hasFlag (summaryMetricsFlags m) snapshotPresent = false := by
  unfold summaryMetricsFlags
  cases m.allocatedBytes.upper.isSome <;> cases m.reclaimableBytes.upper.isSome <;> decide

theorem pathObservationFlags_accepted (o : PathObservation) :
    pathObservationFlags o &&& 3 = summaryMetricsFlags o.metrics ∧
      SnapshotBits (pathObservationFlags o) o.snapshot := by
  unfold pathObservationFlags
  cases o.snapshot with
  | none =>
    obtain ⟨hlow, hpresent⟩ := metricsFlags_low o.metrics
    exact ⟨hlow, hpresent, by simp, by simp, by simp⟩
  | some s => exact snapshotFlags_iff.mpr rfl

/-- Every bit above the metrics is announced by the snapshot bit. -/
def snapshotBitsAnnounced (value : List UInt8) : Bool :=
  hasFlag (value.getD 3 0) snapshotPresent || onlyFlags (value.getD 3 0) 7

theorem eq_low_of_unannounced {flags : UInt8} (hpresent : hasFlag flags snapshotPresent = false)
    (honly : onlyFlags flags 7 = true) : flags = flags &&& 3 := by
  revert hpresent honly
  refine forall_byte (P := fun flags => hasFlag flags snapshotPresent = false →
    onlyFlags flags 7 = true → flags = flags &&& 3) ?_ flags
  decide +kernel

theorem onlyFlags_metrics (m : SummaryMetrics) : onlyFlags (summaryMetricsFlags m) 7 = true := by
  unfold summaryMetricsFlags
  cases m.allocatedBytes.upper.isSome <;> cases m.reclaimableBytes.upper.isSome <;> decide

theorem encodePathObservation_eq_ok {o : PathObservation} {key value : List UInt8} :
    encodePathObservation o = .ok (key, value) ↔ encodePathKey o.path = .ok key ∧
      checkSnapshot o = .ok () ∧ value = pathObservationValue (pathObservationFlags o) o := by
  unfold encodePathObservation
  cases encodePathKey o.path with
  | error e => simp
  | ok k =>
    cases checkSnapshot o with
    | error e => simp
    | ok u => simp [eq_comm]

/-- The encoder refuses what the check on the typed fact refuses. -/
theorem encodePathObservation_isOk (o : PathObservation) :
    (∃ record, encodePathObservation o = .ok record) ↔ o.encodeCheck = .ok () := by
  have hkey : (∃ k, encodePathKey o.path = .ok k) ↔ o.path.hasNul = false := by
    simp only [encodePathKey_eq_ok, exists_and_left, exists_eq, and_true]
    unfold RelativePath.hasNul
    rw [List.any_eq_false]
    simp only [List.contains_iff_mem]
    rfl
  have hrecord : (∃ record, encodePathObservation o = .ok record) ↔
      (∃ k, encodePathKey o.path = .ok k) ∧ checkSnapshot o = .ok () := by
    constructor
    · rintro ⟨⟨key, value⟩, h⟩
      obtain ⟨hk, hcheck, -⟩ := encodePathObservation_eq_ok.mp h
      exact ⟨⟨key, hk⟩, hcheck⟩
    · rintro ⟨⟨key, hk⟩, hcheck⟩
      exact ⟨(key, _), encodePathObservation_eq_ok.mpr ⟨hk, hcheck, rfl⟩⟩
  rw [hrecord, hkey]
  unfold PathObservation.encodeCheck checkSnapshot
  cases o.path.hasNul with
  | true => simp
  | false =>
    rw [if_neg Bool.false_ne_true, and_iff_right rfl]
    cases o.snapshot with
    | none => simp
    | some s =>
      dsimp only
      split
      · simp
      · split <;> simp

/-- What is written is read back when the bounds are consistent. -/
theorem decode_encode_iff_consistent {o : PathObservation} (hrep : o.Representable)
    {key value : List UInt8} (h : encodePathObservation o = .ok (key, value)) :
    decodePathObservation key value = .ok o ↔ o.metrics.consistent = true := by
  obtain ⟨hkey, hcheck, rfl⟩ := encodePathObservation_eq_ok.mp h
  obtain ⟨hlow, hbits⟩ := pathObservationFlags_accepted o
  rw [decodePathObservation_eq_ok]
  constructor
  · rintro ⟨flags, -, -, -, -, hconsistent, -, -⟩
    exact hconsistent
  · intro hconsistent
    exact ⟨_, rfl, hlow, hbits, hrep, hconsistent, hcheck, hkey⟩

/-- What is read is what would be written when no bit of an absent snapshot is set. -/
theorem encode_decode_iff_announced {key value : List UInt8} {o : PathObservation}
    (h : decodePathObservation key value = .ok o) :
    encodePathObservation o = .ok (key, value) ↔ snapshotBitsAnnounced value = true := by
  obtain ⟨flags, rfl, hlow, hbits, -, -, hcheck, hkey⟩ := decodePathObservation_eq_ok.mp h
  have hflags : (pathObservationValue flags o).getD 3 0 = flags := rfl
  have hsame : encodePathObservation o = .ok (key, pathObservationValue flags o) ↔
      flags = pathObservationFlags o := by
    rw [encodePathObservation_eq_ok]
    constructor
    · rintro ⟨-, -, heq⟩
      have hget := congrArg (fun value => value.getD 3 0) heq
      exact hget
    · rintro rfl
      exact ⟨hkey, hcheck, rfl⟩
  rw [hsame]
  unfold snapshotBitsAnnounced pathObservationFlags
  rw [hflags]
  cases hs : o.snapshot with
  | none =>
    rw [hs] at hbits
    have hpresent : hasFlag flags snapshotPresent = false := hbits.present
    rw [hpresent, Bool.false_or]
    constructor
    · rintro rfl
      exact onlyFlags_metrics o.metrics
    · intro honly
      exact (eq_low_of_unannounced hpresent honly).trans hlow
  | some s =>
    rw [hs] at hbits
    have hpresent : hasFlag flags snapshotPresent = true := hbits.present
    rw [hpresent, Bool.true_or]
    exact iff_of_true (snapshotFlags_iff.mp ⟨hlow, hbits⟩) rfl

/-- A fact that the store's checks of both sides accept is encoded and read back as it was. -/
theorem decode_encode_of_checks {o : PathObservation} (hrep : o.Representable)
    (hencode : o.encodeCheck = .ok ()) (hdecode : o.decodeCheck = .ok ()) :
    ∃ key value, encodePathObservation o = .ok (key, value) ∧
      decodePathObservation key value = .ok o := by
  obtain ⟨⟨key, value⟩, h⟩ := (encodePathObservation_isOk o).mpr hencode
  refine ⟨key, value, h, (decode_encode_iff_consistent hrep h).mpr ?_⟩
  unfold PathObservation.decodeCheck at hdecode
  split at hdecode
  · assumption
  · cases hdecode

/-! ## A stray bit -/

def plainFile : PathObservation :=
  ⟨⟨[⟨[97], valid_a⟩]⟩, .File, ⟨0, .unknown, .unknown, 0⟩, .Complete, none⟩

theorem plainFile_representable : plainFile.Representable :=
  ⟨⟨by decide, ⟨by decide, by simp [plainFile, ByteBounds.unknown]⟩,
    ⟨by decide, by simp [plainFile, ByteBounds.unknown]⟩, by decide⟩, by simp [plainFile]⟩

theorem plainFile_key : encodePathKey plainFile.path = .ok [97, 0] :=
  (encodePathKey_eq_ok _ _).mpr ⟨by simp [plainFile, Component.nulFree], rfl⟩

theorem plainFile_stray :
    decodePathObservation [97, 0] (pathObservationValue 8 plainFile) = .ok plainFile :=
  decodePathObservation_eq_ok.mpr ⟨8, rfl, by decide, ⟨by decide, by simp [plainFile],
    by simp [plainFile], by simp [plainFile]⟩, plainFile_representable, by decide, rfl, plainFile_key⟩

/-- The record codec loses what it writes only for inconsistent bounds, and reads what it does not
write only where bits of an absent snapshot are set. -/
theorem path_observation_codec (o : PathObservation) (key value : List UInt8) :
    (o.Representable → encodePathObservation o = .ok (key, value) →
      (decodePathObservation key value = .ok o ↔ o.metrics.consistent = true)) ∧
    (decodePathObservation key value = .ok o →
      (encodePathObservation o = .ok (key, value) ↔ snapshotBitsAnnounced value = true)) :=
  ⟨fun hrep h => decode_encode_iff_consistent hrep h, fun h => encode_decode_iff_announced h⟩

theorem path_observation_codec_plainFile :
    decodePathObservation [97, 0] (pathObservationValue 0 plainFile) = .ok plainFile ∧
      encodePathObservation plainFile ≠ .ok ([97, 0], pathObservationValue 8 plainFile) :=
  ⟨((path_observation_codec plainFile _ _).1 plainFile_representable
      (encodePathObservation_eq_ok.mpr ⟨plainFile_key, rfl, rfl⟩)).mpr (by decide),
    fun h => absurd (((path_observation_codec plainFile _ _).2 plainFile_stray).mp h) (by decide)⟩

/-- Two accepted values of one observation. -/
theorem stray_bit_accepted :
    ¬((∀ o : PathObservation, o.Representable → ∀ key value,
        encodePathObservation o = .ok (key, value) → decodePathObservation key value = .ok o) ∧
      ∀ key value o, decodePathObservation key value = .ok o →
        encodePathObservation o = .ok (key, value)) := by
  rintro ⟨-, h⟩
  obtain ⟨-, -, heq⟩ := encodePathObservation_eq_ok.mp (h _ _ _ plainFile_stray)
  have hflags := congrArg (fun value => value.getD 3 0) heq
  exact absurd hflags (by decide)

end Excise
