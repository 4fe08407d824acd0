import Excise.Codec.Identity
import Excise.Codec.PathObservation
import Excise.Store.PageIndex

/-!
# Directory summary and page records

`directory_summary.rs` and the stored headers and entries of `page.rs`. Their encoders refuse
nothing that is inconsistent: what the store builds is consistent, and the decoders check it.
-/

namespace Excise
set_option autoImplicit false

open ByteReader

/-! ## Directory summaries -/

inductive DirectorySummaryCodecError where
  | PathKey (e : PathKeyError)
  | Metrics (e : SummaryMetricsCodecError)
  | Malformed
  deriving DecidableEq, Repr

def summaryValue (pathKey : List UInt8) (s : DirectorySummary) : List UInt8 :=
  1 :: coverageCode s.coverage :: summaryMetricsFlags s.metrics ::
    (lengthPrefixed pathKey ++ encodeSummaryMetrics s.metrics)

/-- `encode_directory_summary_into`: the key and the value. -/
def encodeDirectorySummary (ordinal : Nat) (s : DirectorySummary) :
    Except DirectorySummaryCodecError (List UInt8 × List UInt8) :=
  match encodePathKey s.path with
  | .error e => .error (.PathKey e)
  | .ok pathKey =>
    if 256 ^ 4 ≤ pathKey.length then .error .Malformed
    else .ok (beBytes 8 ordinal, summaryValue pathKey s)

def readDirectorySummary : ByteReader DirectorySummaryCodecError DirectorySummary := do
  let version ← byte .Malformed
  require .Malformed (version == 1)
  let code ← byte .Malformed
  let coverage ← ofOption .Malformed (coverageFromCode code)
  let flags ← byte .Malformed
  let path ← readPath .Malformed .PathKey
  let metrics ← (decodeSummaryMetrics flags).mapError .Metrics
  finish .Malformed
  return ⟨path, metrics, coverage⟩

def decodeDirectorySummary (key value : List UInt8) :
    Except DirectorySummaryCodecError (Nat × DirectorySummary) :=
  if key.length ≠ 8 then .error .Malformed
  else (readDirectorySummary.decode value).map fun summary => (beNat key, summary)

theorem encodeDirectorySummary_eq_ok {ordinal : Nat} {s : DirectorySummary}
    {key value : List UInt8} :
    encodeDirectorySummary ordinal s = .ok (key, value) ↔ key = beBytes 8 ordinal ∧
      ∃ pathKey, encodePathKey s.path = .ok pathKey ∧ pathKey.length < 256 ^ 4 ∧
        value = summaryValue pathKey s := by
  unfold encodeDirectorySummary
  cases encodePathKey s.path with
  | error e => simp
  | ok k =>
    dsimp only
    constructor
    · intro h
      split at h
      · cases h
      · rename_i hlength
        cases h
        exact ⟨rfl, k, rfl, not_le.mp hlength, rfl⟩
    · rintro ⟨rfl, k', hk, hlength, rfl⟩
      cases hk
      rw [if_neg (not_le.mpr hlength)]

theorem decodeDirectorySummary_eq_ok {key value : List UInt8} {ordinal : Nat}
    {s : DirectorySummary} :
    decodeDirectorySummary key value = .ok (ordinal, s) ↔
      (ordinal < 256 ^ 8 ∧ s.metrics.Representable) ∧ s.metrics.consistent = true ∧
        encodeDirectorySummary ordinal s = .ok (key, value) := by
  have hvalue : readDirectorySummary.decode value = .ok s ↔ s.metrics.Representable ∧
      s.metrics.consistent = true ∧ ∃ pathKey, encodePathKey s.path = .ok pathKey ∧
        pathKey.length < 256 ^ 4 ∧ value = summaryValue pathKey s := by
    rw [decode_eq_ok]
    unfold readDirectorySummary
    simp only [bind_ok, byte_ok, require_ok, ofOption_ok, coverageFromCode_eq_some, readPath_ok,
      mapError_ok, (reads_summaryMetrics _) _ _ _, finish_ok, pure_ok]
    constructor
    · rintro ⟨rest, version, _, rfl, -, _, ⟨hversion, rfl⟩, _, _, rfl, coverage, _, ⟨rfl, rfl⟩, flags, _,
        rfl, path, _, ⟨pathKey, hpath, hlength, rfl⟩, metrics, _, ⟨⟨hrep, hcons, hflags⟩, rfl⟩, -, _,
        ⟨hnil, rfl⟩, rfl, rfl⟩
      refine ⟨hrep, hcons, pathKey, hpath, hlength, ?_⟩
      rw [eq_of_beq hversion, hflags, hnil]
      simp only [summaryValue, List.append_nil]
    · rintro ⟨hrep, hcons, pathKey, hpath, hlength, rfl⟩
      exact ⟨[], 1, _, rfl, (), _, ⟨rfl, rfl⟩, _, _, rfl, s.coverage, _, ⟨rfl, rfl⟩, _, _, rfl, s.path, _,
        ⟨pathKey, hpath, hlength, rfl⟩, s.metrics, [], ⟨⟨hrep, hcons, rfl⟩, (List.append_nil _).symm⟩,
        (), [], ⟨rfl, rfl⟩, rfl, rfl⟩
  rw [encodeDirectorySummary_eq_ok]
  unfold decodeDirectorySummary
  constructor
  · intro h
    split at h
    · cases h
    rename_i hlength
    rw [not_not] at hlength
    obtain ⟨s', hs, heq⟩ := map_eq_ok h
    cases heq
    obtain ⟨hrep, hcons, hpath⟩ := hvalue.mp hs
    have hreverse : key.reverse.length = 8 := by rw [List.length_reverse, hlength]
    refine ⟨⟨?_, hrep⟩, hcons, ?_, hpath⟩
    · have hlt := leNat_lt key.reverse
      rwa [hreverse] at hlt
    · unfold beBytes beNat
      rw [← hreverse, leBytes_leNat, List.reverse_reverse]
  · rintro ⟨⟨hordinal, hrep⟩, hcons, rfl, hpath⟩
    rw [hvalue.mpr ⟨hrep, hcons, hpath⟩]
    unfold beBytes beNat
    rw [List.length_reverse, leBytes_length, if_neg (by simp), List.reverse_reverse,
      leNat_leBytes hordinal]
    rfl

/-! ## Stored headers -/

inductive PageRecordError where
  | FileId (e : FileIdCodecError)
  | PathKey (e : PathKeyError)
  | PathObservation (e : PathObservationCodecError)
  | SummaryMetrics (e : SummaryMetricsCodecError)
  | Malformed
  deriving DecidableEq, Repr

/-- `encode_stored_header_into`. -/
def encodeStoredHeader (h : StoredHeader) : List UInt8 :=
  1 :: coverageCode h.coverage :: summaryMetricsFlags h.metrics ::
    (if h.shared.isSome then 1 else 0) ::
      (encodeSummaryMetrics h.metrics ++
        h.shared.elim [] fun shared => summaryMetricsFlags shared :: encodeSummaryMetrics shared)

/-- The physical metrics of the shared allocations: nothing apparent, no descendants. -/
def readShared : ByteReader PageRecordError SummaryMetrics := do
  let flags ← byte .Malformed
  let shared ← (decodeSummaryMetrics flags).mapError .SummaryMetrics
  require .Malformed (shared.apparentBytes == 0 && shared.descendants == 0)
  return shared

def readStoredHeader : ByteReader PageRecordError StoredHeader := do
  let version ← byte .Malformed
  require .Malformed (version == 1)
  let code ← byte .Malformed
  let coverage ← ofOption .Malformed (coverageFromCode code)
  let metricsFlags ← byte .Malformed
  let flags ← byte .Malformed
  let metrics ← (decodeSummaryMetrics metricsFlags).mapError .SummaryMetrics
  require .Malformed (onlyFlags flags 1)
  let shared ← optional (hasFlag flags 1) readShared
  finish .Malformed
  return ⟨metrics, coverage, shared⟩

def decodeStoredHeader (input : List UInt8) : Except PageRecordError StoredHeader :=
  readStoredHeader.decode input

structure StoredHeader.Representable (h : StoredHeader) : Prop where
  metrics : h.metrics.Representable
  shared : ∀ s ∈ h.shared, s.Representable

/-- What the decoder asks of a header, and the index keeps. -/
structure StoredHeader.WellFormed (h : StoredHeader) : Prop where
  metrics : h.metrics.consistent = true
  shared : ∀ s ∈ h.shared, s.consistent = true ∧ s.apparentBytes = 0 ∧ s.descendants = 0

theorem reads_shared :
    Reads readShared
      (fun s => s.Representable ∧ s.consistent = true ∧ s.apparentBytes = 0 ∧ s.descendants = 0)
      (fun s => summaryMetricsFlags s :: encodeSummaryMetrics s) := by
  intro input s rest
  unfold readShared
  simp only [bind_ok, byte_ok, mapError_ok, (reads_summaryMetrics _) _ _ _, require_ok, pure_ok]
  constructor
  · rintro ⟨flags, _, rfl, shared, _, ⟨⟨hrep, hcons, rfl⟩, rfl⟩, -, _, ⟨hzero, rfl⟩, rfl, rfl⟩
    exact ⟨⟨hrep, hcons, by simpa using hzero⟩, rfl⟩
  · rintro ⟨⟨hrep, hcons, hzero⟩, rfl⟩
    exact ⟨_, _, rfl, s, _, ⟨⟨hrep, hcons, rfl⟩, rfl⟩, (), _, ⟨by simpa using hzero, rfl⟩, rfl, rfl⟩

theorem sharedFlag_iff {flags : UInt8} (shared : Bool) :
    onlyFlags flags 1 = true ∧ shared = hasFlag flags 1 ↔ flags = if shared then 1 else 0 := by
  revert shared
  refine forall_byte (P := fun flags => ∀ shared : Bool,
    onlyFlags flags 1 = true ∧ shared = hasFlag flags 1 ↔ flags = if shared then 1 else 0) ?_ flags
  decide +kernel

theorem decodeStoredHeader_eq_ok {input : List UInt8} {h : StoredHeader} :
    decodeStoredHeader input = .ok h ↔
      h.Representable ∧ h.WellFormed ∧ input = encodeStoredHeader h := by
  unfold decodeStoredHeader
  rw [decode_eq_ok]
  unfold readStoredHeader
  simp only [bind_ok, byte_ok, require_ok, ofOption_ok, coverageFromCode_eq_some, mapError_ok,
    (reads_summaryMetrics _) _ _ _, optional_ok reads_shared, finish_ok, pure_ok]
  constructor
  · rintro ⟨rest, version, _, rfl, -, _, ⟨hversion, rfl⟩, _, _, rfl, coverage, _, ⟨rfl, rfl⟩, _, _, rfl,
      flags, _, rfl, metrics, _, ⟨⟨hrep, hcons, rfl⟩, rfl⟩, -, _, ⟨hknown, rfl⟩, shared, _,
      ⟨⟨hpresent, hshared⟩, rfl⟩, -, _, ⟨hnil, rfl⟩, rfl, rfl⟩
    refine ⟨⟨hrep, fun s hs => (hshared s hs).1⟩, ⟨hcons, fun s hs => (hshared s hs).2⟩, ?_⟩
    rw [eq_of_beq hversion, (sharedFlag_iff _).mp ⟨hknown, hpresent⟩, hnil, List.append_nil]
    rfl
  · rintro ⟨hrep, hwell, rfl⟩
    obtain ⟨hknown, hpresent⟩ := (sharedFlag_iff h.shared.isSome).mpr rfl
    exact ⟨[], 1, _, rfl, (), _, ⟨rfl, rfl⟩, _, _, rfl, h.coverage, _, ⟨rfl, rfl⟩, _, _, rfl, _, _, rfl,
      h.metrics, _, ⟨⟨hrep.metrics, hwell.metrics, rfl⟩, rfl⟩, (), _, ⟨hknown, rfl⟩, h.shared, [],
      ⟨⟨hpresent, fun s hs => ⟨hrep.shared s hs, hwell.shared s hs⟩⟩, (List.append_nil _).symm⟩, (), [],
      ⟨rfl, rfl⟩, rfl, rfl⟩

/-! ## Stored entries -/

/-- An entry of the index with the length of its parent's path key. -/
structure StoredEntryRecord where
  entry : StoredEntry
  parentKeyBytes : Nat
  deriving DecidableEq

namespace StoredEntry

/-- The identity the snapshot already records. -/
def snapshotIdentity (e : StoredEntry) : Option StoredIdentity :=
  e.observation.snapshot.bind StoredIdentity.fromSnapshot

/-- An identity equal to the snapshot's is not written twice. -/
def identityToEncode (e : StoredEntry) : Option StoredIdentity :=
  if e.identity.isSome && decide (e.identity = e.snapshotIdentity) then none else e.identity

end StoredEntry

def encodeStoredIdentity (i : StoredIdentity) : List UInt8 :=
  i.fileId.encode ++ encodeIdentityFields i.declaredLinks i.allocatedBytes

/-- The bytes of an entry that writes `identity` and the observation's `value`. -/
def storedEntryBytes (r : StoredEntryRecord) (identity : Option StoredIdentity)
    (value : List UInt8) : List UInt8 :=
  4 :: withFlag (withFlag (withFlag 0 1 r.entry.directorySummarySeen) 2 identity.isSome) 4
      r.entry.leafAllocationSeen ::
    (leBytes 4 r.parentKeyBytes ++ coverageCode r.entry.coverage ::
      summaryMetricsFlags r.entry.metrics ::
        (encodeSummaryMetrics r.entry.metrics ++ (identity.elim [] encodeStoredIdentity ++ value)))

/-- `encode_stored_entry_into`. -/
def encodeStoredEntry (r : StoredEntryRecord) : Except PageRecordError (List UInt8) :=
  match encodePathObservation r.entry.observation with
  | .error e => .error (.PathObservation e)
  | .ok (_, value) => .ok (storedEntryBytes r r.entry.identityToEncode value)

def decodeStoredIdentity : ByteReader PageRecordError StoredIdentity := do
  let fileId ← decodeFileIdPrefix.mapError .FileId
  let fields ← readIdentityFields .Malformed
  require .Malformed fields.2.consistent
  return ⟨fileId, fields.1, fields.2⟩

def readStoredEntry (pathKey : List UInt8) : ByteReader PageRecordError StoredEntryRecord := do
  let version ← byte .Malformed
  require .Malformed (version == 4)
  let flags ← byte .Malformed
  require .Malformed (onlyFlags flags 7)
  let parentKeyBytes ← le .Malformed 4
  let code ← byte .Malformed
  let coverage ← ofOption .Malformed (coverageFromCode code)
  let metricsFlags ← byte .Malformed
  let metrics ← (decodeSummaryMetrics metricsFlags).mapError .SummaryMetrics
  let identity ← optional (hasFlag flags 2) decodeStoredIdentity
  let observation ← (readPathObservation pathKey).mapError .PathObservation
  return {
    entry := {
      observation := observation
      metrics := metrics
      coverage := coverage
      identity := identity.or (observation.snapshot.bind StoredIdentity.fromSnapshot)
      directorySummarySeen := hasFlag flags 1
      leafAllocationSeen := hasFlag flags 4 }
    parentKeyBytes := parentKeyBytes }

def decodeStoredEntry (pathKey input : List UInt8) : Except PageRecordError StoredEntryRecord :=
  (readStoredEntry pathKey).decode input

structure StoredEntryRecord.Representable (r : StoredEntryRecord) : Prop where
  parentKeyBytes : r.parentKeyBytes < 256 ^ 4
  metrics : r.entry.metrics.Representable
  observation : r.entry.observation.Representable
  identity : ∀ i ∈ r.entry.identity, IdentityNumbers i.declaredLinks i.allocatedBytes

/-- What the decoder asks of an entry, and the index keeps. -/
structure StoredEntry.WellFormed (e : StoredEntry) : Prop where
  metrics : e.metrics.consistent = true
  observation : e.observation.metrics.consistent = true
  identity : ∀ i ∈ e.identity, i.declaredLinks ≠ some 0 ∧ i.allocatedBytes.consistent = true
  retained : e.identity = none → e.snapshotIdentity = none

theorem reads_storedIdentity :
    Reads decodeStoredIdentity
      (fun i => IdentityNumbers i.declaredLinks i.allocatedBytes ∧ i.declaredLinks ≠ some 0 ∧
        i.allocatedBytes.consistent = true)
      encodeStoredIdentity := by
  intro input i rest
  unfold decodeStoredIdentity encodeStoredIdentity
  simp only [bind_ok, mapError_ok, reads_fileId _ _ _, require_ok, pure_ok]
  constructor
  · rintro ⟨id, _, ⟨-, rfl⟩, ⟨links, allocated⟩, _, hfields, -, _, ⟨hcons, rfl⟩, rfl, rfl⟩
    obtain ⟨⟨hnumbers, hzero⟩, rfl⟩ := readIdentityFields_ok.mp hfields
    exact ⟨⟨hnumbers, hzero, hcons⟩, (List.append_assoc _ _ _).symm⟩
  · rintro ⟨⟨hnumbers, hzero, hcons⟩, rfl⟩
    exact ⟨i.fileId, _, ⟨trivial, List.append_assoc _ _ _⟩, (i.declaredLinks, i.allocatedBytes), _,
      readIdentityFields_ok.mpr ⟨⟨hnumbers, hzero⟩, rfl⟩, (), _, ⟨hcons, rfl⟩, rfl, rfl⟩

theorem entryFlags_iff {flags : UInt8} (summary identity leaf : Bool) :
    onlyFlags flags 7 = true ∧ summary = hasFlag flags 1 ∧ identity = hasFlag flags 2 ∧
        leaf = hasFlag flags 4 ↔
      flags = withFlag (withFlag (withFlag 0 1 summary) 2 identity) 4 leaf := by
  revert summary identity leaf
  refine forall_byte (P := fun flags => ∀ summary identity leaf : Bool,
    onlyFlags flags 7 = true ∧ summary = hasFlag flags 1 ∧ identity = hasFlag flags 2 ∧
        leaf = hasFlag flags 4 ↔
      flags = withFlag (withFlag (withFlag 0 1 summary) 2 identity) 4 leaf) ?_ flags
  decide +kernel

theorem readPathObservation_ok {key input rest : List UInt8} {o : PathObservation} :
    (readPathObservation key).run input = .ok (o, rest) ↔
      decodePathObservation key input = .ok o ∧ rest = [] := by
  unfold decodePathObservation
  rw [decode_eq_ok]
  constructor
  · intro h
    refine ⟨⟨rest, h⟩, ?_⟩
    unfold readPathObservation at h
    simp only [bind_ok, finish_ok, ofExcept_ok, pure_ok] at h
    obtain ⟨_, _, -, _, _, -, _, _, -, _, _, -, _, _, -, _, _, -, _, _, -, _, _, -, _, _, -, _, _, -, -, _,
      ⟨-, rfl⟩, _, _, ⟨-, rfl⟩, -, rfl⟩ := h
    rfl
  · rintro ⟨⟨rest', h⟩, rfl⟩
    have hrest : rest' = [] := by
      unfold readPathObservation at h
      simp only [bind_ok, finish_ok, ofExcept_ok, pure_ok] at h
      obtain ⟨_, _, -, _, _, -, _, _, -, _, _, -, _, _, -, _, _, -, _, _, -, _, _, -, _, _, -, _, _, -, -,
        _, ⟨-, rfl⟩, _, _, ⟨-, rfl⟩, -, rfl⟩ := h
      rfl
    rw [hrest] at h
    exact h

/-- What the decoder of entries accepts. -/
theorem decodeStoredEntry_eq_ok {pathKey input : List UInt8} {r : StoredEntryRecord} :
    decodeStoredEntry pathKey input = .ok r ↔ ∃ identity value,
      r.entry.identity = identity.or r.entry.snapshotIdentity ∧
      (∀ i ∈ identity, IdentityNumbers i.declaredLinks i.allocatedBytes ∧ i.declaredLinks ≠ some 0 ∧
        i.allocatedBytes.consistent = true) ∧
      decodePathObservation pathKey value = .ok r.entry.observation ∧
      r.entry.metrics.Representable ∧ r.entry.metrics.consistent = true ∧
      r.parentKeyBytes < 256 ^ 4 ∧ input = storedEntryBytes r identity value := by
  unfold decodeStoredEntry
  rw [decode_eq_ok]
  unfold readStoredEntry
  simp only [bind_ok, byte_ok, require_ok, le_ok, ofOption_ok, coverageFromCode_eq_some, mapError_ok,
    (reads_summaryMetrics _) _ _ _, optional_ok reads_storedIdentity, readPathObservation_ok, pure_ok]
  constructor
  · rintro ⟨rest, version, _, rfl, -, _, ⟨hversion, rfl⟩, flags, _, rfl, -, _, ⟨hknown, rfl⟩, parent, _,
      ⟨hparent, rfl⟩, _, _, rfl, coverage, _, ⟨rfl, rfl⟩, _, _, rfl, metrics, _,
      ⟨⟨hrep, hcons, rfl⟩, rfl⟩, identity, value, ⟨⟨hpresent, hvalid⟩, rfl⟩, observation, _,
      ⟨hobservation, rfl⟩, rfl, -⟩
    refine ⟨identity, value, rfl, hvalid, hobservation, hrep, hcons, hparent, ?_⟩
    unfold storedEntryBytes
    dsimp only
    rw [← (entryFlags_iff _ _ _).mp ⟨hknown, rfl, hpresent, rfl⟩, eq_of_beq hversion]
  · rintro ⟨identity, value, hidentity, hvalid, hobservation, hrep, hcons, hparent, rfl⟩
    obtain ⟨hknown, hsummary, hpresent, hleaf⟩ :=
      (entryFlags_iff r.entry.directorySummarySeen identity.isSome r.entry.leafAllocationSeen).mpr rfl
    refine ⟨[], 4, _, rfl, (), _, ⟨rfl, rfl⟩, _, _, rfl, (), _, ⟨hknown, rfl⟩, r.parentKeyBytes, _,
      ⟨hparent, rfl⟩, _, _, rfl, r.entry.coverage, _, ⟨rfl, rfl⟩, _, _, rfl, r.entry.metrics, _,
      ⟨⟨hrep, hcons, rfl⟩, rfl⟩, identity, value, ⟨⟨hpresent, hvalid⟩, rfl⟩, r.entry.observation, [],
      ⟨hobservation, rfl⟩, ?_, rfl⟩
    rw [← hsummary, ← hleaf]
    obtain ⟨entry, parentKeyBytes⟩ := r
    obtain ⟨observation, metrics, coverage, entryIdentity, summarySeen, leafSeen⟩ := entry
    have hsame : entryIdentity = identity.or (observation.snapshot.bind StoredIdentity.fromSnapshot) :=
      hidentity
    subst hsame
    rfl

theorem encodeStoredEntry_eq_ok {r : StoredEntryRecord} {bytes : List UInt8} :
    encodeStoredEntry r = .ok bytes ↔ ∃ key value,
      encodePathObservation r.entry.observation = .ok (key, value) ∧
        bytes = storedEntryBytes r r.entry.identityToEncode value := by
  unfold encodeStoredEntry
  cases encodePathObservation r.entry.observation with
  | error e => simp
  | ok record => simp [Prod.ext_iff, @eq_comm _ bytes]

/-- The identity that was not written is the one the snapshot restores. -/
theorem identityToEncode_or {e : StoredEntry} (h : e.identity = none → e.snapshotIdentity = none) :
    e.identity = e.identityToEncode.or e.snapshotIdentity := by
  unfold StoredEntry.identityToEncode
  cases hidentity : e.identity with
  | none => simp [h hidentity]
  | some i =>
    by_cases hsame : some i = e.snapshotIdentity
    · have hnone : (some i).isSome && decide (some i = e.snapshotIdentity) := by simpa using hsame
      rw [if_pos hnone, Option.none_or]
      exact hsame
    · have hwritten : ¬((some i).isSome && decide (some i = e.snapshotIdentity)) = true := by
        simpa using hsame
      rw [if_neg hwritten, Option.some_or]

theorem snapshotIdentity_valid {o : PathObservation} (hcheck : checkSnapshot o = .ok ())
    {i : StoredIdentity} (hi : o.snapshot.bind StoredIdentity.fromSnapshot = some i) :
    i.declaredLinks ≠ some 0 ∧ i.allocatedBytes.consistent = true := by
  obtain ⟨s, hs, hsnapshot⟩ := Option.bind_eq_some_iff.mp hi
  obtain ⟨native, hnative, rfl⟩ := Option.map_eq_some_iff.mp hsnapshot
  refine ⟨(checkSnapshot_eq_ok.mp hcheck s hs).linkCount native hnative, ?_⟩
  cases s.allocatedBytes <;> simp [ByteBounds.consistent, ByteBounds.exact, ByteBounds.unknown]

theorem decode_encode_storedEntry {r : StoredEntryRecord} (hrep : r.Representable)
    {key bytes : List UInt8} (hkey : encodePathKey r.entry.path = .ok key)
    (h : encodeStoredEntry r = .ok bytes) :
    decodeStoredEntry key bytes = .ok r ↔ r.entry.WellFormed := by
  obtain ⟨key', value, hobservation, rfl⟩ := encodeStoredEntry_eq_ok.mp h
  obtain ⟨hpath, hcheck, -⟩ := encodePathObservation_eq_ok.mp hobservation
  have hsame : key' = key := Except.ok.inj (hpath.symm.trans hkey)
  rw [hsame] at hobservation
  rw [decodeStoredEntry_eq_ok]
  constructor
  · rintro ⟨identity, value', hidentity, hvalid, hdecoded, -, hmetrics, -, -⟩
    obtain ⟨-, -, -, -, -, hconsistent, -, -⟩ := decodePathObservation_eq_ok.mp hdecoded
    refine ⟨hmetrics, hconsistent, ?_, ?_⟩
    · intro i hi
      rw [hidentity] at hi
      cases identity with
      | none => exact snapshotIdentity_valid hcheck hi
      | some written =>
        cases hi
        exact (hvalid i rfl).2
    · intro hnone
      rw [hidentity] at hnone
      exact (Option.or_eq_none_iff.mp hnone).2
  · intro hwell
    refine ⟨r.entry.identityToEncode, value, identityToEncode_or hwell.retained, ?_,
      (decode_encode_iff_consistent hrep.observation hobservation).mpr hwell.observation,
      hrep.metrics, hwell.metrics, hrep.parentKeyBytes, rfl⟩
    intro i hi
    have hentry : i ∈ r.entry.identity := by
      unfold StoredEntry.identityToEncode at hi
      split at hi
      · cases hi
      · exact hi
    exact ⟨hrep.identity i hentry, hwell.identity i hentry⟩

/-! ## The laws -/

/-- Identity observations and contributions round-trip and are canonical. Summaries, headers and
entries round-trip exactly when they are in order, and the first two are canonical. -/
theorem aggregate_record_codecs :
    (∀ o : IdentityObservation, o.Representable → ∀ key value,
      encodeIdentityObservation o = .ok (key, value) → decodeIdentityObservation key value = .ok o) ∧
    (∀ key value o, decodeIdentityObservation key value = .ok o →
      encodeIdentityObservation o = .ok (key, value)) ∧
    (∀ fileId (c : AllocationContribution), c.Representable → ∀ key value,
      encodeAllocationContribution fileId c = .ok (key, value) →
        decodeAllocationContribution key value = .ok (fileId, c)) ∧
    (∀ key value fileId c, decodeAllocationContribution key value = .ok (fileId, c) →
      encodeAllocationContribution fileId c = .ok (key, value)) ∧
    (∀ ordinal (s : DirectorySummary), ordinal < 256 ^ 8 → s.metrics.Representable → ∀ key value,
      encodeDirectorySummary ordinal s = .ok (key, value) →
        (decodeDirectorySummary key value = .ok (ordinal, s) ↔ s.metrics.consistent = true)) ∧
    (∀ key value ordinal s, decodeDirectorySummary key value = .ok (ordinal, s) →
      encodeDirectorySummary ordinal s = .ok (key, value)) ∧
    (∀ h : StoredHeader, h.Representable →
      (decodeStoredHeader (encodeStoredHeader h) = .ok h ↔ h.WellFormed)) ∧
    (∀ input h, decodeStoredHeader input = .ok h → encodeStoredHeader h = input) ∧
    (∀ r : StoredEntryRecord, r.Representable → ∀ key bytes, encodePathKey r.entry.path = .ok key →
      encodeStoredEntry r = .ok bytes →
        (decodeStoredEntry key bytes = .ok r ↔ r.entry.WellFormed)) ∧
    ∀ e : StoredEntry, e.identity = e.snapshotIdentity → e.identityToEncode = none := by
  refine ⟨fun o hrep key value h => decodeIdentityObservation_eq_ok.mpr ⟨hrep, h⟩,
    fun key value o h => (decodeIdentityObservation_eq_ok.mp h).2,
    fun fileId c hrep key value h => decodeAllocationContribution_eq_ok.mpr ⟨hrep, h⟩,
    fun key value fileId c h => (decodeAllocationContribution_eq_ok.mp h).2, ?_,
    fun key value ordinal s h => (decodeDirectorySummary_eq_ok.mp h).2.2, ?_,
    fun input h hdecode => (decodeStoredHeader_eq_ok.mp hdecode).2.2.symm,
    fun r hrep key bytes hkey h => decode_encode_storedEntry hrep hkey h, ?_⟩
  · intro ordinal s hordinal hrep key value h
    rw [decodeDirectorySummary_eq_ok]
    exact ⟨fun h => h.2.1, fun hcons => ⟨⟨hordinal, hrep⟩, hcons, h⟩⟩
  · intro h hrep
    rw [decodeStoredHeader_eq_ok]
    exact ⟨fun h => h.2.1, fun hwell => ⟨hrep, hwell, rfl⟩⟩
  · intro e hsame
    unfold StoredEntry.identityToEncode
    cases hidentity : e.identity with
    | none => rfl
    | some i =>
      rw [← hsame, hidentity]
      simp

/-- A header whose shared part claims apparent bytes. -/
def claimingHeader : StoredHeader := ⟨.zero, .Complete, some { SummaryMetrics.zero with apparentBytes := 1 }⟩

/-- A folder that four shared bytes were charged to. -/
def sharedHeader : StoredHeader where
  metrics := ⟨10, .exact 12, ⟨4, none⟩, 3⟩
  coverage := .Uncertain
  shared := some ⟨0, .exact 4, ⟨0, some 4⟩, 0⟩

/-- A file with two names, whose identity is the one in its snapshot. -/
def linkedEntry : StoredEntryRecord where
  entry :=
    { observation := ⟨⟨[⟨[97], valid_a⟩]⟩, .File, ⟨4, .exact 4, .exact 0, 0⟩, .Complete,
        some ⟨some ⟨.Inode 1 2, some 2, false⟩, .File, 4, some 4, none⟩⟩
      metrics := ⟨4, .exact 4, .exact 0, 0⟩
      coverage := .Complete
      identity := some ⟨.Inode 1 2, some 2, .exact 4⟩
      directorySummarySeen := false
      leafAllocationSeen := false }
  parentKeyBytes := 0

theorem sharedHeader_representable : sharedHeader.Representable where
  metrics := by decide
  shared s hs := by
    obtain rfl := Option.some.inj hs
    decide

theorem sharedHeader_wellFormed : sharedHeader.WellFormed where
  metrics := by decide
  shared s hs := by
    obtain rfl := Option.some.inj hs
    decide

theorem linkedEntry_representable : linkedEntry.Representable where
  parentKeyBytes := by decide
  metrics := by decide
  observation :=
    { metrics := by decide
      snapshot := fun s hs => by
        obtain rfl := Option.some.inj hs
        exact ⟨by simp [NativeIdentity.Representable], by simp, by simp⟩ }
  identity i hi := by
    obtain rfl := Option.some.inj hi
    exact ⟨by simp, by decide⟩

theorem linkedEntry_wellFormed : linkedEntry.entry.WellFormed where
  metrics := by decide
  observation := by decide
  identity i hi := by
    obtain rfl := Option.some.inj hi
    decide
  retained h := by cases h

theorem linkedEntry_key : encodePathKey linkedEntry.entry.path = .ok [97, 0] :=
  (encodePathKey_eq_ok _ _).mpr ⟨by simp [linkedEntry, StoredEntry.path, Component.nulFree], rfl⟩

/-- The identity is not written a second time, and is there when the entry is read. -/
theorem aggregate_record_codecs_linked :
    decodeStoredHeader (encodeStoredHeader sharedHeader) = .ok sharedHeader ∧
      linkedEntry.entry.identityToEncode = none ∧
      ∃ bytes, encodeStoredEntry linkedEntry = .ok bytes ∧
        decodeStoredEntry [97, 0] bytes = .ok linkedEntry := by
  obtain ⟨-, -, -, -, -, -, hheader, -, hentry, hidentity⟩ := aggregate_record_codecs
  have hencode : encodeStoredEntry linkedEntry = .ok _ := encodeStoredEntry_eq_ok.mpr
    ⟨_, _, encodePathObservation_eq_ok.mpr ⟨linkedEntry_key, rfl, rfl⟩, rfl⟩
  refine ⟨?_, hidentity linkedEntry.entry rfl, _, hencode, ?_⟩
  · exact (hheader sharedHeader sharedHeader_representable).mpr sharedHeader_wellFormed
  · exact (hentry linkedEntry linkedEntry_representable _ _ linkedEntry_key hencode).mpr
      linkedEntry_wellFormed

/-- An entry without the identity that its snapshot records. -/
def forgetfulEntry : StoredEntryRecord where
  entry :=
    { observation := ⟨⟨[⟨[97], valid_a⟩]⟩, .File, .zero, .Complete,
        some ⟨some ⟨.Inode 1 2, some 1, false⟩, .File, 0, some 0, none⟩⟩
      metrics := .zero
      coverage := .Complete
      identity := none
      directorySummarySeen := false
      leafAllocationSeen := true }
  parentKeyBytes := 0

theorem forgetfulEntry_key : encodePathKey forgetfulEntry.entry.path = .ok [97, 0] :=
  (encodePathKey_eq_ok _ _).mpr
    ⟨by simp [forgetfulEntry, StoredEntry.path, Component.nulFree], rfl⟩

/-- Both are written without complaint and not read back. -/
theorem unchecked_records_lost :
    decodeStoredHeader (encodeStoredHeader claimingHeader) ≠ .ok claimingHeader ∧
      ∃ bytes, encodeStoredEntry forgetfulEntry = .ok bytes ∧
        decodeStoredEntry [97, 0] bytes ≠ .ok forgetfulEntry := by
  refine ⟨?_, ?_⟩
  · intro h
    have hshared := (decodeStoredHeader_eq_ok.mp h).2.1.shared _ rfl
    exact absurd hshared.2.1 (by decide)
  · have hencode : encodePathObservation forgetfulEntry.entry.observation = .ok ([97, 0], _) :=
      encodePathObservation_eq_ok.mpr ⟨forgetfulEntry_key, rfl, rfl⟩
    refine ⟨_, encodeStoredEntry_eq_ok.mpr ⟨_, _, hencode, rfl⟩, ?_⟩
    intro h
    obtain ⟨identity, value, hidentity, -⟩ := decodeStoredEntry_eq_ok.mp h
    have hnone := (Option.or_eq_none_iff.mp hidentity.symm).2
    exact absurd hnone (by decide)

end Excise
