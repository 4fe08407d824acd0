import Excise.Codec.PathKey
import Excise.Codec.Values

/-!
# Identity and allocation records

`identity_observation.rs`: identity observations under the file identity and the path, and the
allocation contribution of each file identity under the identity alone.
-/

namespace Excise
set_option autoImplicit false

open ByteReader

/-! ## Shared fields -/

/-- A flag word, an optional count and the bounds, as identity records write them. -/
def encodeIdentityFields (declaredLinks : Option Nat) (allocated : ByteBounds) : List UInt8 :=
  withFlag (withFlag 0 1 declaredLinks.isSome) 2 allocated.upper.isSome ::
    (declaredLinks.elim [] (leBytes 8) ++
      (leBytes 16 allocated.lower ++ allocated.upper.elim [] (leBytes 16)))

def readIdentityFields {ε : Type} (malformed : ε) : ByteReader ε (Option Nat × ByteBounds) := do
  let flags ← byte malformed
  require malformed (onlyFlags flags 3)
  let declaredLinks ← optional (hasFlag flags 1) (le malformed 8)
  require malformed (declaredLinks != some 0)
  let lower ← le malformed 16
  let upper ← optional (hasFlag flags 2) (le malformed 16)
  return (declaredLinks, ⟨lower, upper⟩)

/-- Link counts are `u64`, amounts `u128`. -/
def IdentityNumbers (declaredLinks : Option Nat) (allocated : ByteBounds) : Prop :=
  (∀ n ∈ declaredLinks, n < 256 ^ 8) ∧ allocated.Representable

theorem readIdentityFields_ok {ε : Type} {malformed : ε} {links : Option Nat}
    {allocated : ByteBounds} {input rest : List UInt8} :
    (readIdentityFields malformed).run input = .ok ((links, allocated), rest) ↔
      (IdentityNumbers links allocated ∧ links ≠ some 0) ∧
        input = encodeIdentityFields links allocated ++ rest := by
  unfold readIdentityFields encodeIdentityFields
  simp only [bind_ok, byte_ok, require_ok, optional_ok (reads_le malformed 8), le_ok,
    optional_ok (reads_le malformed 16), pure_ok]
  constructor
  · rintro ⟨flags, _, rfl, -, _, ⟨hknown, rfl⟩, l, _, ⟨⟨hl, hlb⟩, rfl⟩, -, _, ⟨hzero, rfl⟩, lower, _,
      ⟨hlower, rfl⟩, upper, _, ⟨⟨hu, hub⟩, rfl⟩, heq, rfl⟩
    cases heq
    refine ⟨⟨⟨hlb, hlower, hub⟩, by simpa using hzero⟩, ?_⟩
    rw [(metricsFlags_iff _ _).mp ⟨hknown, hl, hu⟩]
    simp
  · rintro ⟨⟨hnumbers, hzero⟩, rfl⟩
    obtain ⟨hknown, hl, hu⟩ := (metricsFlags_iff links.isSome allocated.upper.isSome).mpr rfl
    exact ⟨_, _, rfl, (), _, ⟨hknown, rfl⟩, links, _, ⟨⟨hl, hnumbers.1⟩, List.append_assoc _ _ _⟩, (), _,
      ⟨by simpa using hzero, rfl⟩, allocated.lower, _, ⟨hnumbers.2.1, List.append_assoc _ _ _⟩,
      allocated.upper, _, ⟨⟨hu, hnumbers.2.2⟩, rfl⟩, rfl, rfl⟩

/-- A path key after its `u32` length. -/
def lengthPrefixed (key : List UInt8) : List UInt8 := leBytes 4 key.length ++ key

/-- Reads a path key of announced length. -/
def readPath {ε : Type} (malformed : ε) (pathKey : PathKeyError → ε) : ByteReader ε RelativePath := do
  let length ← le malformed 4
  let key ← take malformed length
  ofExcept pathKey (decodePathKey key)

theorem readPath_ok {ε : Type} {malformed : ε} {pathKey : PathKeyError → ε} {path : RelativePath}
    {input rest : List UInt8} :
    (readPath malformed pathKey).run input = .ok (path, rest) ↔
      ∃ key, encodePathKey path = .ok key ∧ key.length < 256 ^ 4 ∧
        input = lengthPrefixed key ++ rest := by
  unfold readPath lengthPrefixed
  simp only [bind_ok, le_ok, take_ok, ofExcept_ok]
  constructor
  · rintro ⟨n, _, ⟨hn, rfl⟩, key, _, ⟨rfl, rfl⟩, hpath, rfl⟩
    exact ⟨key, unix_pathKeyLaws.canonical key path hpath, hn, (List.append_assoc _ _ _).symm⟩
  · rintro ⟨key, hkey, hlength, rfl⟩
    exact ⟨key.length, _, ⟨hlength, List.append_assoc _ _ _⟩, key, _, ⟨rfl, rfl⟩,
      unix_pathKeyLaws.roundTrip path key hkey, rfl⟩

/-! ## Identity observations -/

inductive IdentityObservationCodecError where
  | FileId (e : FileIdCodecError)
  | PathKey (e : PathKeyError)
  | RootPath
  | InconsistentBounds
  | Malformed
  deriving DecidableEq, Repr

/-- `encode_identity_observation_into`: the key and the value. -/
def encodeIdentityObservation (o : IdentityObservation) :
    Except IdentityObservationCodecError (List UInt8 × List UInt8) :=
  if o.path.isRoot then .error .RootPath
  else if !o.allocatedBytes.consistent then .error .InconsistentBounds
  else if o.declaredLinks = some 0 then .error .Malformed
  else
    match appendPathKey o.path o.fileId.encode with
    | .error e => .error (.PathKey e)
    | .ok key => .ok (key, 1 :: encodeIdentityFields o.declaredLinks o.allocatedBytes)

def readIdentityObservation (fileId : FileId) (path : RelativePath) :
    ByteReader IdentityObservationCodecError IdentityObservation := do
  let version ← byte .Malformed
  require .Malformed (version == 1)
  let fields ← readIdentityFields .Malformed
  finish .Malformed
  require .Malformed fields.2.consistent
  return ⟨path, fileId, fields.1, fields.2⟩

def decodeIdentityObservation (key value : List UInt8) :
    Except IdentityObservationCodecError IdentityObservation :=
  match decodeFileIdPrefix.run key with
  | .error e => .error (.FileId e)
  | .ok (fileId, rest) =>
    match decodePathKey rest with
    | .error e => .error (.PathKey e)
    | .ok path =>
      if path.isRoot then .error .RootPath
      else (readIdentityObservation fileId path).decode value

def IdentityObservation.Representable (o : IdentityObservation) : Prop :=
  IdentityNumbers o.declaredLinks o.allocatedBytes

theorem encodeIdentityObservation_eq_ok {o : IdentityObservation} {key value : List UInt8} :
    encodeIdentityObservation o = .ok (key, value) ↔
      (o.path ≠ .root ∧ o.allocatedBytes.consistent = true ∧ o.declaredLinks ≠ some 0) ∧
        (∃ pathKey, encodePathKey o.path = .ok pathKey ∧ key = o.fileId.encode ++ pathKey) ∧
        value = 1 :: encodeIdentityFields o.declaredLinks o.allocatedBytes := by
  have happend : (∃ pathKey, encodePathKey o.path = .ok pathKey ∧
      key = o.fileId.encode ++ pathKey) ↔ appendPathKey o.path o.fileId.encode = .ok key := by
    simp only [encodePathKey_eq_ok, appendPathKey_eq_ok]
    constructor
    · rintro ⟨pathKey, ⟨hfree, rfl⟩, rfl⟩
      exact ⟨hfree, rfl⟩
    · rintro ⟨hfree, rfl⟩
      exact ⟨_, ⟨hfree, rfl⟩, rfl⟩
  rw [happend]
  unfold encodeIdentityObservation
  by_cases hroot : o.path = .root
  · simp [hroot]
  by_cases hcons : o.allocatedBytes.consistent = true
  · by_cases hzero : o.declaredLinks = some 0
    · simp [hroot, hcons, hzero]
    · cases appendPathKey o.path o.fileId.encode with
      | error e => simp [hroot, hcons, hzero]
      | ok k => simp [hroot, hcons, hzero, @eq_comm _ value]
  · simp [hroot, hcons]

theorem decodeIdentityObservation_eq_ok {key value : List UInt8} {o : IdentityObservation} :
    decodeIdentityObservation key value = .ok o ↔
      o.Representable ∧ encodeIdentityObservation o = .ok (key, value) := by
  have hvalue : ∀ fileId path, (readIdentityObservation fileId path).decode value = .ok o ↔
      (o.fileId = fileId ∧ o.path = path) ∧ o.Representable ∧ o.declaredLinks ≠ some 0 ∧
        o.allocatedBytes.consistent = true ∧
        value = 1 :: encodeIdentityFields o.declaredLinks o.allocatedBytes := by
    intro fileId path
    rw [decode_eq_ok]
    unfold readIdentityObservation
    simp only [bind_ok, byte_ok, require_ok, finish_ok, pure_ok]
    constructor
    · rintro ⟨rest, version, _, rfl, -, _, ⟨hversion, rfl⟩, ⟨links, allocated⟩, _, hfields, -, _,
        ⟨rfl, rfl⟩, -, _, ⟨hcons, rfl⟩, rfl, rfl⟩
      obtain ⟨⟨hnumbers, hzero⟩, rfl⟩ := readIdentityFields_ok.mp hfields
      refine ⟨⟨rfl, rfl⟩, hnumbers, hzero, hcons, ?_⟩
      rw [eq_of_beq hversion, List.append_nil]
    · rintro ⟨⟨rfl, rfl⟩, hnumbers, hzero, hcons, rfl⟩
      exact ⟨[], 1, _, rfl, (), _, ⟨rfl, rfl⟩, (o.declaredLinks, o.allocatedBytes), [],
        readIdentityFields_ok.mpr ⟨⟨hnumbers, hzero⟩, (List.append_nil _).symm⟩, (), [], ⟨rfl, rfl⟩,
        (), [], ⟨hcons, rfl⟩, rfl, rfl⟩
  rw [encodeIdentityObservation_eq_ok]
  unfold decodeIdentityObservation
  constructor
  · intro h
    split at h
    · cases h
    rename_i fileId rest hid
    obtain ⟨-, rfl⟩ := (reads_fileId key fileId rest).mp hid
    split at h
    · cases h
    rename_i path hpath
    split at h
    · cases h
    rename_i hroot
    obtain ⟨⟨rfl, rfl⟩, hnumbers, hzero, hcons, hval⟩ := (hvalue fileId path).mp h
    rw [RelativePath.isRoot_iff] at hroot
    exact ⟨hnumbers, ⟨hroot, hcons, hzero⟩,
      ⟨rest, unix_pathKeyLaws.canonical rest _ hpath, rfl⟩, hval⟩
  · rintro ⟨hnumbers, ⟨hroot, hcons, hzero⟩, ⟨pathKey, hpath, rfl⟩, hval⟩
    rw [(reads_fileId _ o.fileId pathKey).mpr ⟨trivial, rfl⟩]
    dsimp only
    rw [unix_pathKeyLaws.roundTrip o.path pathKey hpath]
    dsimp only
    have hnot : ¬o.path.isRoot = true := fun h => hroot ((RelativePath.isRoot_iff o.path).mp h)
    rw [if_neg hnot]
    exact (hvalue _ _).mpr ⟨⟨rfl, rfl⟩, hnumbers, hzero, hcons, hval⟩

/-! ## Allocation contributions -/

inductive AllocationContributionCodecError where
  | FileId (e : FileIdCodecError)
  | PathKey (e : PathKeyError)
  | RootLeaf
  | InconsistentBounds
  | Malformed
  deriving DecidableEq, Repr

namespace AllocationPlacement

def code : AllocationPlacement → UInt8
  | .Leaf => 1
  | .Shared => 2

def fromCode (value : UInt8) : Option AllocationPlacement :=
  if value = 1 then some .Leaf else if value = 2 then some .Shared else none

theorem fromCode_eq_some {value : UInt8} {placement : AllocationPlacement} :
    fromCode value = some placement ↔ value = code placement := by
  unfold fromCode
  cases placement with
  | Leaf =>
    by_cases h : value = 1
    · simp [h, code]
    · simp [h, code]
  | Shared =>
    by_cases h : value = 1
    · simp [h, code]
    · simp [h, code]

end AllocationPlacement

def contributionValue (pathKey : List UInt8) (c : AllocationContribution) : List UInt8 :=
  1 :: c.placement.code ::
    withFlag (withFlag 0 1 c.allocatedBytes.upper.isSome) 2 c.reclaimableBytes.upper.isSome ::
      (lengthPrefixed pathKey ++ (leBytes 16 c.allocatedBytes.lower ++
        (leBytes 16 c.reclaimableBytes.lower ++ (c.allocatedBytes.upper.elim [] (leBytes 16) ++
          c.reclaimableBytes.upper.elim [] (leBytes 16)))))

/-- `encode_allocation_contribution_into`: the key and the value. -/
def encodeAllocationContribution (fileId : FileId) (c : AllocationContribution) :
    Except AllocationContributionCodecError (List UInt8 × List UInt8) :=
  if c.placement = .Leaf ∧ c.recipient.isRoot = true then .error .RootLeaf
  else if !c.allocatedBytes.consistent then .error .InconsistentBounds
  else if !c.reclaimableBytes.consistent then .error .InconsistentBounds
  else
    match encodePathKey c.recipient with
    | .error e => .error (.PathKey e)
    | .ok pathKey =>
      if 256 ^ 4 ≤ pathKey.length then .error .Malformed
      else .ok (fileId.encode, contributionValue pathKey c)

def readAllocationContribution (fileId : FileId) :
    ByteReader AllocationContributionCodecError (FileId × AllocationContribution) := do
  let version ← byte .Malformed
  require .Malformed (version == 1)
  let code ← byte .Malformed
  let placement ← ofOption .Malformed (AllocationPlacement.fromCode code)
  let flags ← byte .Malformed
  require .Malformed (onlyFlags flags 3)
  let recipient ← readPath .Malformed .PathKey
  require .RootLeaf (!(decide (placement = .Leaf) && recipient.isRoot))
  let allocatedLower ← le .Malformed 16
  let reclaimableLower ← le .Malformed 16
  let allocatedUpper ← optional (hasFlag flags 1) (le .Malformed 16)
  let reclaimableUpper ← optional (hasFlag flags 2) (le .Malformed 16)
  finish .Malformed
  require .Malformed (ByteBounds.consistent ⟨allocatedLower, allocatedUpper⟩)
  require .Malformed (ByteBounds.consistent ⟨reclaimableLower, reclaimableUpper⟩)
  return (fileId, ⟨recipient, placement, ⟨allocatedLower, allocatedUpper⟩,
    ⟨reclaimableLower, reclaimableUpper⟩⟩)

def decodeAllocationContribution (key value : List UInt8) :
    Except AllocationContributionCodecError (FileId × AllocationContribution) :=
  match decodeFileId key with
  | .error e => .error (.FileId e)
  | .ok fileId => (readAllocationContribution fileId).decode value

structure AllocationContribution.Representable (c : AllocationContribution) : Prop where
  allocated : c.allocatedBytes.Representable
  reclaimable : c.reclaimableBytes.Representable

theorem encodeAllocationContribution_eq_ok {fileId : FileId} {c : AllocationContribution}
    {key value : List UInt8} :
    encodeAllocationContribution fileId c = .ok (key, value) ↔
      (¬(c.placement = .Leaf ∧ c.recipient.isRoot = true) ∧ c.allocatedBytes.consistent = true ∧
        c.reclaimableBytes.consistent = true) ∧ key = fileId.encode ∧
        ∃ pathKey, encodePathKey c.recipient = .ok pathKey ∧ pathKey.length < 256 ^ 4 ∧
          value = contributionValue pathKey c := by
  unfold encodeAllocationContribution
  by_cases hroot : c.placement = .Leaf ∧ c.recipient.isRoot = true
  · simp [hroot]
  rw [if_neg hroot]
  cases hallocated : c.allocatedBytes.consistent with
  | false => simp
  | true =>
    cases hreclaimable : c.reclaimableBytes.consistent with
    | false => simp
    | true =>
      rw [Bool.not_true, if_neg Bool.false_ne_true, if_neg Bool.false_ne_true]
      simp only [hroot, not_false_eq_true, and_self, true_and]
      cases encodePathKey c.recipient with
      | error e => simp
      | ok k =>
        dsimp only
        constructor
        · intro h
          split at h
          · cases h
          · rename_i hlength
            cases h
            exact ⟨rfl, k, rfl, not_le.mp hlength, rfl⟩
        · rintro ⟨rfl, k', hk, hlength, rfl⟩
          cases hk
          rw [if_neg (not_le.mpr hlength)]

theorem leaf_check {placement : AllocationPlacement} {root : Bool} :
    (!(decide (placement = .Leaf) && root)) = true ↔ ¬(placement = .Leaf ∧ root = true) := by
  rw [Bool.not_eq_true', ← Bool.not_eq_true, Bool.and_eq_true, decide_eq_true_eq]

theorem decodeAllocationContribution_eq_ok {key value : List UInt8} {fileId : FileId}
    {c : AllocationContribution} :
    decodeAllocationContribution key value = .ok (fileId, c) ↔
      c.Representable ∧ encodeAllocationContribution fileId c = .ok (key, value) := by
  have hle := reads_le AllocationContributionCodecError.Malformed 16
  have hvalue : ∀ id, (readAllocationContribution id).decode value = .ok (fileId, c) ↔
      fileId = id ∧ c.Representable ∧ (¬(c.placement = .Leaf ∧ c.recipient.isRoot = true) ∧
        c.allocatedBytes.consistent = true ∧ c.reclaimableBytes.consistent = true) ∧
        ∃ pathKey, encodePathKey c.recipient = .ok pathKey ∧ pathKey.length < 256 ^ 4 ∧
          value = contributionValue pathKey c := by
    intro id
    rw [decode_eq_ok]
    unfold readAllocationContribution
    simp only [bind_ok, byte_ok, require_ok, ofOption_ok, AllocationPlacement.fromCode_eq_some,
      readPath_ok, le_ok, optional_ok hle, finish_ok, pure_ok]
    constructor
    · rintro ⟨rest, version, _, rfl, -, _, ⟨hversion, rfl⟩, _, _, rfl, placement, _, ⟨rfl, rfl⟩, flags, _,
        rfl, -, _, ⟨hknown, rfl⟩, recipient, _, ⟨pathKey, hpath, hlength, rfl⟩, -, _, ⟨hleaf, rfl⟩, al, _,
        ⟨hal, rfl⟩, rl, _, ⟨hrl, rfl⟩, au, _, ⟨⟨hau, haub⟩, rfl⟩, ru, _, ⟨⟨hru, hrub⟩, rfl⟩, -, _,
        ⟨hnil, rfl⟩, -, _, ⟨hac, rfl⟩, -, _, ⟨hrc, rfl⟩, heq, rfl⟩
      cases heq
      refine ⟨rfl, ⟨⟨hal, haub⟩, ⟨hrl, hrub⟩⟩, ⟨leaf_check.mp hleaf, hac, hrc⟩, pathKey, hpath, hlength,
        ?_⟩
      rw [(metricsFlags_iff _ _).mp ⟨hknown, hau, hru⟩, eq_of_beq hversion]
      simp only [contributionValue, hnil, List.append_nil]
    · rintro ⟨rfl, hrep, ⟨hleaf, hac, hrc⟩, pathKey, hpath, hlength, rfl⟩
      obtain ⟨hknown, hau, hru⟩ :=
        (metricsFlags_iff c.allocatedBytes.upper.isSome c.reclaimableBytes.upper.isSome).mpr rfl
      exact ⟨[], 1, _, rfl, (), _, ⟨rfl, rfl⟩, _, _, rfl, c.placement, _, ⟨rfl, rfl⟩, _, _, rfl, (), _,
        ⟨hknown, rfl⟩, c.recipient, _, ⟨pathKey, hpath, hlength, rfl⟩, (), _,
        ⟨leaf_check.mpr hleaf, rfl⟩, c.allocatedBytes.lower, _, ⟨hrep.allocated.1, rfl⟩,
        c.reclaimableBytes.lower, _, ⟨hrep.reclaimable.1, rfl⟩, c.allocatedBytes.upper, _,
        ⟨⟨hau, hrep.allocated.2⟩, rfl⟩, c.reclaimableBytes.upper, [],
        ⟨⟨hru, hrep.reclaimable.2⟩, (List.append_nil _).symm⟩, (), [], ⟨rfl, rfl⟩, (), [], ⟨hac, rfl⟩,
        (), [], ⟨hrc, rfl⟩, rfl, rfl⟩
  rw [encodeAllocationContribution_eq_ok]
  unfold decodeAllocationContribution
  constructor
  · intro h
    split at h
    · cases h
    rename_i id hid
    obtain ⟨rfl, hrep, hchecks, hpath⟩ := (hvalue id).mp h
    exact ⟨hrep, hchecks, decodeFileId_eq_ok.mp hid, hpath⟩
  · rintro ⟨hrep, hchecks, rfl, hpath⟩
    rw [decodeFileId_eq_ok.mpr rfl]
    exact (hvalue fileId).mpr ⟨rfl, hrep, hchecks, hpath⟩

end Excise
