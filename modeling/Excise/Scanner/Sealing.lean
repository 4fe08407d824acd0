import Excise.Codec.RunMerge
import Excise.Codec.SealBatch
import Excise.Scanner.Journal
import Excise.Store.Session

/-!
# Sealing what a worker scanned

`entry_metadata.rs` and `seal_scanned_entries`: the fields of one `stat` become the metadata and the
identity of an entry, a batch of entries becomes path and identity observations, and these are
sealed into runs. Unix only: there the two come from one `stat`, whose allocation is always known.
-/

namespace Excise
set_option autoImplicit false

/-! ## Metadata -/

inductive FileType where
  | RegularFile
  | Directory
  | Symlink
  | Fifo
  | Socket
  | CharacterDevice
  | BlockDevice
  | Unknown
  deriving DecidableEq, Repr

/-- The fields of a `stat`, widened to `i128`. -/
structure StatFields where
  fileType : FileType
  size : Int
  blocks : Int
  mtimeSecs : Int
  mtimeNanos : Int
  dev : Int
  ino : Int
  nlink : Int

/-- A `SystemTime` is its distance from the epoch in nanoseconds. -/
structure EntryMetadata where
  isDir : Bool
  isSymlink : Bool
  len : UInt64
  modified : Option Int
  device : UInt64
  blocks : UInt64

def nonNegative (value : Int) (what : String) : Except String UInt64 :=
  if 0 ≤ value ∧ value < 2 ^ 64 then .ok (UInt64.ofNat value.toNat)
  else .error ("the file system reported " ++ what ++ " of " ++ toString value)

/-- Seconds are an `i64`, nanoseconds less than a second. -/
def modificationTime (secs nanos : Int) : Option Int :=
  if -2 ^ 63 ≤ secs ∧ secs < 2 ^ 63 ∧ 0 ≤ nanos ∧ nanos < 1000000000 then
    some (secs * 1000000000 + nanos)
  else none

namespace EntryMetadata

def fromFields (fields : StatFields) : Except String (EntryMetadata × NativeIdentity) := do
  let len ← nonNegative fields.size "a size"
  let blocks ← nonNegative fields.blocks "an allocated block count"
  let nlink ← nonNegative fields.nlink "a link count"
  let ino ← nonNegative fields.ino "an inode number"
  let device ← nonNegative (fields.dev.emod (2 ^ 64)) "a device number"
  let isSymlink := decide (fields.fileType = .Symlink)
  return (⟨decide (fields.fileType = .Directory), isSymlink, len,
      modificationTime fields.mtimeSecs fields.mtimeNanos, device, blocks⟩,
    ⟨.Inode device ino, some nlink.toNat, isSymlink⟩)

/-- `st_blocks * 512`, saturating. -/
def physicalSize (m : EntryMetadata) : Nat := min (m.blocks.toNat * 512) (satMax 64)

/-- `duration_since(UNIX_EPOCH)`: a time before the epoch has none. -/
def modifiedNanos (m : EntryMetadata) : Option Nat :=
  m.modified.bind fun modified => if 0 ≤ modified then some modified.toNat else none

end EntryMetadata

/-! ## Observations -/

structure ScannedEntry where
  metadata : EntryMetadata
  path : NativePath
  identity : NativeIdentity

namespace ScannedEntry

def kind (entry : ScannedEntry) : PathEntryKind :=
  if entry.metadata.isSymlink || entry.identity.reparsePoint then .Link
  else if entry.metadata.isDir then .Directory
  else .File

def allocatedBytes (entry : ScannedEntry) : Option Nat :=
  if entry.kind ≠ .Directory then some entry.metadata.physicalSize else none

def physicalBounds (entry : ScannedEntry) : ByteBounds :=
  entry.allocatedBytes.elim .unknown .exact

/-- A directory has no length of its own. -/
def apparentBytes (entry : ScannedEntry) : Nat :=
  if entry.kind = .Directory then 0 else entry.metadata.len.toNat

/-- The allocation of a file with one link is counted at its path. -/
def directBounds (entry : ScannedEntry) : ByteBounds :=
  if entry.kind ≠ .Directory ∧ entry.identity.linkCount = some 1 then entry.physicalBounds
  else .exact 0

def snapshot (entry : ScannedEntry) : EntrySnapshot where
  identity := some entry.identity
  kind := nodeKindForEntry entry.kind
  apparentBytes := entry.apparentBytes
  allocatedBytes := entry.allocatedBytes
  modifiedNanos := entry.metadata.modifiedNanos

def pathObservation (relative : RelativePath) (coverage : Coverage) (entry : ScannedEntry) :
    PathObservation where
  path := relative
  kind := entry.kind
  metrics := .leaf entry.apparentBytes entry.directBounds entry.directBounds
  coverage := coverage
  snapshot := some entry.snapshot

/-- Any other file is counted once for its identity. -/
def identityObservation? (relative : RelativePath) (entry : ScannedEntry) :
    Option IdentityObservation :=
  if entry.kind ≠ .Directory ∧ entry.identity.linkCount ≠ some 1 then
    some ⟨relative, entry.identity.fileId, entry.identity.linkCount, entry.physicalBounds⟩
  else none

end ScannedEntry

/-! ## Sealing -/

/-- The messages of `seal_scanned_entries`, and the errors of the store behind them. -/
inductive ScanSealError where
  | escapedRoot
  | invalidPath
  | batchTooLarge
  | batch (error : BatchSealError)

/-- `relative` of the loop of `seal_scanned_entries`. -/
def relativeTo (root path : NativePath) : Except ScanSealError RelativePath :=
  match stripPrefix root path with
  | none => .error .escapedRoot
  | some relative =>
    match RelativePath.fromPath relative with
    | none => .error .invalidPath
    | some relative => .ok relative

/-- The entries under their root-relative paths. -/
def relativeEntries (root : NativePath) (entries : List ScannedEntry) :
    Except ScanSealError (List (RelativePath × ScannedEntry)) :=
  entries.mapM fun entry => (relativeTo root entry.path).map (·, entry)

def pathObservations (coverage : Coverage) (entries : List (RelativePath × ScannedEntry)) :
    List PathObservation := entries.map fun e => e.2.pathObservation e.1 coverage

def identityObservations (entries : List (RelativePath × ScannedEntry)) :
    List IdentityObservation := entries.filterMap fun e => e.2.identityObservation? e.1

/-- The generation a factory seals for and the run ids it draws for a batch. -/
structure ScanInputRunFactory where
  generation : ScanGeneration
  pathRunId : UInt64
  identityRunId : UInt64

section

variable (digest : List UInt8 → BlockDigest) (refusal : Nat → Option IoErrorKind)

def ScanInputRunFactory.sealObservationBatch (factory : ScanInputRunFactory)
    (paths : List PathObservation) (identities : List IdentityObservation) :
    Except ScanSealError (List FileSealedRun) :=
  if maxObservationsPerBatch < paths.length ∨ maxObservationsPerBatch < identities.length then
    .error .batchTooLarge
  else if paths.isEmpty && identities.isEmpty then .ok []
  else (sealSortedBatch digest refusal factory.generation factory.pathRunId factory.identityRunId
    paths identities).mapError .batch

def sealScannedEntries (root : NativePath) (entries : List ScannedEntry) (coverage : Coverage)
    (factory : Option ScanInputRunFactory) : Except ScanSealError (List FileSealedRun) :=
  match factory with
  | none => .ok []
  | some factory => do
    let observed ← relativeEntries root entries
    factory.sealObservationBatch digest refusal (pathObservations coverage observed)
      (identityObservations observed)

end

/-! ## What the encoders accept -/

/-- The metadata and the identity of the entry come from one `stat`. -/
def ScannedEntry.FromStat (entry : ScannedEntry) : Prop :=
  ∃ fields, EntryMetadata.fromFields fields = .ok (entry.metadata, entry.identity)

theorem nonNegative_eq_ok {value : Int} {what : String} {n : UInt64}
    (h : nonNegative value what = .ok n) : 0 ≤ value ∧ n.toNat = value.toNat := by
  unfold nonNegative at h
  split at h
  · rename_i hrange
    cases h
    refine ⟨hrange.1, UInt64.toNat_ofNat_of_lt' ?_⟩
    show value.toNat < 2 ^ 64
    omega
  · cases h

theorem fromFields_eq_ok {fields : StatFields} {metadata : EntryMetadata} {identity : NativeIdentity}
    (h : EntryMetadata.fromFields fields = .ok (metadata, identity)) :
    identity.reparsePoint = metadata.isSymlink ∧ identity.linkCount = some fields.nlink.toNat := by
  unfold EntryMetadata.fromFields at h
  obtain ⟨len, -, h⟩ := bind_eq_ok h
  obtain ⟨blocks, -, h⟩ := bind_eq_ok h
  obtain ⟨nlink, hnlink, h⟩ := bind_eq_ok h
  obtain ⟨ino, -, h⟩ := bind_eq_ok h
  obtain ⟨device, -, h⟩ := bind_eq_ok h
  cases h
  exact ⟨rfl, congrArg some (nonNegative_eq_ok hnlink).2⟩

namespace ScannedEntry

theorem FromStat.reparse_iff {entry : ScannedEntry} (h : entry.FromStat) :
    entry.identity.reparsePoint = decide (entry.kind = .Link) := by
  obtain ⟨fields, hfields⟩ := h
  have hsame := (fromFields_eq_ok hfields).1
  unfold kind
  rw [← hsame, Bool.or_self]
  cases entry.identity.reparsePoint with
  | true => rfl
  | false => cases entry.metadata.isDir <;> rfl

theorem physicalBounds_consistent (entry : ScannedEntry) : entry.physicalBounds.consistent = true := by
  unfold physicalBounds
  cases entry.allocatedBytes with
  | none => rfl
  | some n => simp [ByteBounds.exact, ByteBounds.consistent]

/-- The path encoder refuses a link count of zero and nothing else. -/
theorem pathObservation_encodes_iff {entry : ScannedEntry} (h : entry.FromStat)
    {relative : RelativePath} (hnul : ∀ c ∈ relative.components, c.nulFree) (coverage : Coverage) :
    (∃ record, encodePathObservation (entry.pathObservation relative coverage) = .ok record) ↔
      entry.identity.linkCount ≠ some 0 := by
  have hkey : ∃ key, encodePathKey relative = .ok key :=
    ⟨_, (encodePathKey_eq_ok _ _).mpr ⟨hnul, rfl⟩⟩
  obtain ⟨key, hkey⟩ := hkey
  have hcheck : checkSnapshot (entry.pathObservation relative coverage) = .ok () ↔
      entry.identity.linkCount ≠ some 0 := by
    unfold checkSnapshot
    rw [show (entry.pathObservation relative coverage).snapshot = some entry.snapshot from rfl]
    dsimp only
    rw [if_neg]
    rotate_left
    · simp [snapshot, pathObservation, SummaryMetrics.leaf, h.reparse_iff]
      exact decide_eq_decide.mpr Iff.rfl
    by_cases hzero : entry.identity.linkCount = some 0
    · rw [if_pos (by simp [snapshot, hzero])]
      simp [hzero]
    · rw [if_neg (by simp [snapshot, hzero])]
      simp [hzero]
  constructor
  · rintro ⟨⟨key', value⟩, hrecord⟩
    exact hcheck.mp (encodePathObservation_eq_ok.mp hrecord).2.1
  · intro hlinks
    exact ⟨(key, _), encodePathObservation_eq_ok.mpr ⟨hkey, hcheck.mpr hlinks, rfl⟩⟩

theorem identityObservation_encodes {entry : ScannedEntry} {relative : RelativePath}
    (hnul : ∀ c ∈ relative.components, c.nulFree) (hroot : relative ≠ .root)
    (hlinks : entry.identity.linkCount ≠ some 0) {o : IdentityObservation}
    (ho : entry.identityObservation? relative = some o) :
    ∃ record, encodeIdentityObservation o = .ok record := by
  unfold identityObservation? at ho
  split at ho
  · cases ho
    exact ⟨(_, _), encodeIdentityObservation_eq_ok.mpr
      ⟨⟨hroot, entry.physicalBounds_consistent, hlinks⟩,
        ⟨_, (encodePathKey_eq_ok _ _).mpr ⟨hnul, rfl⟩, rfl⟩, rfl⟩⟩
  · cases ho

end ScannedEntry

/-! ## What the writer accepts -/

/-- Records that fit a block of a run make a file of at most a block each. -/
theorem packed_length_le (digest : List UInt8 → BlockDigest) (descriptor : RunDescriptor)
    {blockCapacity : Nat} {records : List FileRecord}
    (hfits : ∀ r ∈ records, recordBytes r ≤ blockCapacity) :
    (runImage digest descriptor blockCapacity (packBlocks blockCapacity records)).length
      ≤ 64 + records.length * (44 + blockCapacity) := by
  have hheader : (headerBytes descriptor blockCapacity).length = 28 := by
    simp [headerBytes, runMagic]
  have hsum : (records.map fun r => 44 + recordBytes r).sum
      ≤ records.length * (44 + blockCapacity) := by
    refine (List.sum_le_card_nsmul _ (44 + blockCapacity) fun n hn => ?_).trans_eq ?_
    · obtain ⟨r, hr, rfl⟩ := List.mem_map.mp hn
      exact Nat.add_le_add_left (hfits r hr) 44
    · rw [List.length_map, smul_eq_mul]
  have himage := @runImage_length_le digest descriptor blockCapacity
    (packBlocks blockCapacity records) fun b hb => (packBlocks_full hfits b hb).1
  rw [packBlocks_flatten, framedBytes, hheader] at himage
  omega

section Writing

variable {digest : List UInt8 → BlockDigest} {refusal : Nat → Option IoErrorKind}

theorem writeReserved_descriptor {w w' : FileRunWriter} {bytes : List UInt8}
    (h : w.writeReserved refusal bytes = .ok w') : w'.descriptor = w.descriptor := by
  unfold FileRunWriter.writeReserved at h
  split at h
  · cases h
  split at h <;> cases h
  rfl

theorem indexBlock_descriptor {w w' : FileRunWriter} (h : w.indexBlock = .ok w') :
    w'.descriptor = w.descriptor := by
  unfold FileRunWriter.indexBlock at h
  split at h
  · cases h
    rfl
  split at h <;> cases h
  rfl

theorem flushBlock_descriptor {w w' : FileRunWriter} (h : w.flushBlock digest refusal = .ok w') :
    w'.descriptor = w.descriptor := by
  unfold FileRunWriter.flushBlock at h
  split at h
  · cases h
    rfl
  split at h
  · cases h
  obtain ⟨w₁, h₁, h⟩ := bind_eq_ok h
  obtain ⟨w₂, h₂, h⟩ := bind_eq_ok h
  obtain ⟨w₃, h₃, h⟩ := bind_eq_ok h
  have hsame : w₃.descriptor = w.descriptor :=
    (writeReserved_descriptor h₃).trans ((writeReserved_descriptor h₂).trans (indexBlock_descriptor h₁))
  split at h <;> cases h
  exact hsame

theorem append_descriptor {w w' : FileRunWriter} {r : FileRecord}
    (h : w.append digest refusal r = .ok w') : w'.descriptor = w.descriptor := by
  have hpush {v : FileRunWriter} (hv : v.pushRecord r = .ok w') : w'.descriptor = v.descriptor := by
    unfold FileRunWriter.pushRecord at hv
    split at hv <;> cases hv
    rfl
  unfold FileRunWriter.append at h
  split_ifs at h
  · obtain ⟨v, hflush, h⟩ := bind_eq_ok h
    exact (hpush h).trans (flushBlock_descriptor hflush)
  · exact hpush h

theorem new_descriptor {descriptor : RunDescriptor} {blockCapacity : Nat} {w : FileRunWriter}
    (h : FileRunWriter.new refusal [] 0 descriptor blockCapacity = .ok w) :
    w.descriptor = descriptor := by
  unfold FileRunWriter.new at h
  split at h
  · cases h
  split at h
  · cases h
  split at h
  · cases h
  · exact writeReserved_descriptor h

variable {ο ε : Type} {encode : ο → Except ε FileRecord}

/-- What holds between any two observations holds between their records. -/
theorem sorted_of_forall₂ {observations : List ο} {records : List FileRecord}
    (henc : List.Forall₂ (fun o r => encode o = .ok r) observations records)
    (hsorted : observations.Pairwise fun a b => ∀ r s, encode a = .ok r → encode b = .ok s →
      compareBytes s.1 r.1 = .gt) : SortedBy recordKey records := by
  induction henc with
  | nil => exact List.Pairwise.nil
  | @cons o r observations records hor hrest ih =>
    obtain ⟨hfirst, htail⟩ := List.pairwise_cons.mp hsorted
    refine List.pairwise_cons.mpr ⟨fun s hs => ?_, ih htail⟩
    obtain ⟨p, hp, hps⟩ := forall₂_mem hrest.flip hs
    exact compareBytes_gt.mp (hfirst p hp r s hor hps)

/-- Encoded observations are appended like their records. -/
theorem foldlM_appendEncoded {kind : RunKind} {observations : List ο} {records : List FileRecord}
    (henc : List.Forall₂ (fun o r => encode o = .ok r) observations records) {w : FileRunWriter}
    (hkind : w.descriptor.kind = kind) :
    observations.foldlM (appendEncoded digest refusal kind encode) w =
      (records.foldlM (FileRunWriter.append digest refusal) w).mapError .Run := by
  induction henc generalizing w with
  | nil => rfl
  | @cons o r observations records hor _ ih =>
    have hone : appendEncoded digest refusal kind encode w o =
        (w.append digest refusal r).mapError .Run := by
      rw [appendEncoded, if_neg (not_not.mpr hkind), hor]
    rw [List.foldlM_cons, List.foldlM_cons, hone]
    cases happend : w.append digest refusal r with
    | error e => rfl
    | ok w' => exact ih ((congrArg RunDescriptor.kind (append_descriptor happend)).trans hkind)

/-- A family is sealed exactly when every observation of it is encoded. -/
theorem sealFamilyRun_ok_iff {descriptor : RunDescriptor} {family : RecordRunError ε → BatchSealError}
    {observations : List ο} (haccepts : ∀ n, refusal n = none)
    (hcount : observations.length ≤ maxObservationsPerBatch)
    (hsorted : observations.Pairwise fun a b => ∀ r s, encode a = .ok r → encode b = .ok s →
      compareBytes s.1 r.1 = .gt)
    (hfits : ∀ o ∈ observations, ∀ r, encode o = .ok r → recordBytes r ≤ runBlockBytes) :
    (∃ runs, sealFamilyRun digest refusal descriptor family
        (appendEncoded digest refusal descriptor.kind encode) observations = .ok runs) ↔
      ∀ o ∈ observations, ∃ r, encode o = .ok r := by
  constructor
  · rintro ⟨runs, hseal⟩
    unfold sealFamilyRun at hseal
    split at hseal
    · rename_i hnil
      rw [List.isEmpty_iff.mp hnil]
      exact fun o ho => nomatch ho
    obtain ⟨w, -, hseal⟩ := bind_eq_ok hseal
    obtain ⟨w', happend, -⟩ := bind_eq_ok hseal
    cases hfold : observations.foldlM (appendEncoded digest refusal descriptor.kind encode) w with
    | error e =>
      rw [hfold] at happend
      cases happend
    | ok v =>
      refine foldlM_ok (P := fun done _ => ∀ o ∈ done, ∃ r, encode o = .ok r) hfold
        (fun o ho => nomatch ho) fun done s a s' hdone ha o ho => ?_
      rcases List.mem_append.mp ho with ho | ho
      · exact hdone o ho
      · obtain rfl := List.mem_singleton.mp ho
        unfold appendEncoded at ha
        split at ha
        · cases ha
        split at ha
        · cases ha
        · rename_i record hrecord
          exact ⟨record, hrecord⟩
  · intro hall
    obtain ⟨records, -, henc⟩ := mapM_forall₂ (f := encode) (R := fun o r => encode o = .ok r)
      fun o ho => (hall o ho).imp fun r hr => ⟨hr, hr⟩
    unfold sealFamilyRun
    split
    · exact ⟨[], rfl⟩
    have hrecords : SortedBy recordKey records := sorted_of_forall₂ henc hsorted
    have hroom (r : FileRecord) (hr : r ∈ records) : recordBytes r ≤ runBlockBytes := by
      obtain ⟨o, ho, hor⟩ := forall₂_mem henc.flip hr
      exact hfits o ho r hor
    rcases writeRunFile_spec digest refusal descriptor (show 0 < runBlockBytes by decide)
      (show runBlockBytes < 2 ^ 32 by decide) hrecords hroom with ⟨run, hrun, -⟩ | ⟨e, -, hblocked⟩
    · unfold writeRunFile at hrun
      obtain ⟨w, hnew, hrun⟩ := bind_eq_ok hrun
      obtain ⟨w', happend, hseal⟩ := bind_eq_ok hrun
      have hkind : w.descriptor.kind = descriptor.kind := by
        rw [new_descriptor hnew]
      refine ⟨[run], ?_⟩
      rw [hnew]
      dsimp only [Except.mapError, bind, Except.bind]
      rw [foldlM_appendEncoded henc hkind, happend]
      dsimp only [Except.mapError]
      rw [hseal]
      rfl
    · exfalso
      refine not_blocked_of_hasRoom ⟨?_, fun n _ => haccepts n⟩ hblocked
      have hlength := packed_length_le digest descriptor hroom
      rw [← henc.length_eq] at hlength
      unfold maxObservationsPerBatch at hcount
      unfold runBlockBytes at hlength ⊢
      omega

/-- A batch without duplicates is sealed exactly when every observation of it is encoded. -/
theorem sealSortedBatch_ok_iff {generation : ScanGeneration} {pathRunId identityRunId : UInt64}
    {paths : List PathObservation} {identities : List IdentityObservation}
    (haccepts : ∀ n, refusal n = none)
    (hpaths : (paths.map fun o => o.path).Nodup)
    (hidentities : (identities.map fun o => (o.fileId, o.path)).Nodup)
    (hpathCount : paths.length ≤ maxObservationsPerBatch)
    (hidentityCount : identities.length ≤ maxObservationsPerBatch)
    (hpathFits : ∀ o ∈ paths, ∀ r, encodePathObservation o = .ok r → recordBytes r ≤ runBlockBytes)
    (hidentityFits : ∀ o ∈ identities, ∀ r, encodeIdentityObservation o = .ok r →
      recordBytes r ≤ runBlockBytes) :
    (∃ runs, sealSortedBatch digest refusal generation pathRunId identityRunId paths identities =
        .ok runs) ↔
      (∀ o ∈ paths, ∃ r, encodePathObservation o = .ok r) ∧
        ∀ o ∈ identities, ∃ r, encodeIdentityObservation o = .ok r := by
  have hpathPerm := List.mergeSort_perm paths fun left right =>
    (RelativePath.cmp left.path right.path).isLE
  have hidentityPerm := List.mergeSort_perm identities fun left right =>
    (compareIdentityObservations left right).isLE
  have hpathRuns : (∃ runs, sealFamilyRun digest refusal ⟨generation, pathRunId, .PathObservation⟩
      .PathObservationRun (appendPathObservation digest refusal) _ = .ok runs) ↔ _ :=
    sealFamilyRun_ok_iff haccepts
    (by rw [hpathPerm.length_eq]; exact hpathCount) (sorted_paths_increase hpaths)
    fun o ho => hpathFits o (hpathPerm.mem_iff.mp ho)
  have hidentityRuns : (∃ runs, sealFamilyRun digest refusal
      ⟨generation, identityRunId, .IdentityObservation⟩ .IdentityObservationRun
      (appendIdentityObservation digest refusal) _ = .ok runs) ↔ _ := sealFamilyRun_ok_iff haccepts
    (by rw [hidentityPerm.length_eq]; exact hidentityCount) (sorted_identities_increase hidentities)
    fun o ho => hidentityFits o (hidentityPerm.mem_iff.mp ho)
  simp only [hpathPerm.mem_iff] at hpathRuns
  simp only [hidentityPerm.mem_iff] at hidentityRuns
  rw [← hpathRuns, ← hidentityRuns]
  unfold sealSortedBatch
  constructor
  · rintro ⟨runs, hseal⟩
    obtain ⟨pathRuns, hp, hseal⟩ := bind_eq_ok hseal
    obtain ⟨identityRuns, hi, -⟩ := bind_eq_ok hseal
    exact ⟨⟨pathRuns, hp⟩, identityRuns, hi⟩
  · rintro ⟨⟨pathRuns, hp⟩, identityRuns, hi⟩
    refine ⟨pathRuns ++ identityRuns, ?_⟩
    dsimp only [bind, Except.bind]
    rw [hp]
    dsimp only
    rw [hi]
    rfl

end Writing

/-! ## Batches of the scanner -/

/-- The records of the entry fit a block of a run. -/
def ScannedEntry.FitsBlock (entry : ScannedEntry) (relative : RelativePath) (coverage : Coverage) :
    Prop :=
  (∀ record, encodePathObservation (entry.pathObservation relative coverage) = .ok record →
      recordBytes record ≤ runBlockBytes) ∧
    ∀ o ∈ entry.identityObservation? relative, ∀ record,
      encodeIdentityObservation o = .ok record → recordBytes record ≤ runBlockBytes

theorem toOption_eq_some {ε α : Type} {x : Except ε α} {a : α} :
    x.toOption = some a ↔ x = .ok a := by
  cases x with
  | error e => simp [Except.toOption]
  | ok b => simp [Except.toOption]

instance (entry : ScannedEntry) (relative : RelativePath) (coverage : Coverage) :
    Decidable (entry.FitsBlock relative coverage) :=
  decidable_of_iff
    (((encodePathObservation (entry.pathObservation relative coverage)).toOption.all
        fun r => decide (recordBytes r ≤ runBlockBytes)) = true ∧
      ((entry.identityObservation? relative).all fun o => (encodeIdentityObservation o).toOption.all
        fun r => decide (recordBytes r ≤ runBlockBytes)) = true)
    (by simp only [Option.all_eq_true, toOption_eq_some, decide_eq_true_iff, ScannedEntry.FitsBlock,
      Option.mem_def])

/-- Entries as the scanner may find them: one `stat` each, distinct paths below the root that the
file system can name, and records that fit a block. -/
structure ScannedBatch (root : NativePath) (coverage : Coverage) (entries : List ScannedEntry) :
    Prop where
  stat : ∀ e ∈ entries, e.FromStat
  below : ∀ e ∈ entries, ∃ relative : RelativePath, e.path = relative.below root ∧
    relative ≠ .root ∧ ∀ c ∈ relative.components, c.nulFree
  distinct : (entries.map ScannedEntry.path).Nodup
  fits : ∀ e ∈ entries, ∀ relative : RelativePath, e.path = relative.below root →
    e.FitsBlock relative coverage

theorem relativeTo_below (root : NativePath) (relative : RelativePath) :
    relativeTo root (relative.below root) = .ok relative := by
  unfold relativeTo RelativePath.below
  rw [stripPrefix_append]
  dsimp only
  rw [RelativePath.fromPath_bytes]

/-- The entries of a batch keep their order, each under its path below the root. -/
theorem ScannedBatch.relativeEntries {root : NativePath} {coverage : Coverage}
    {entries : List ScannedEntry} (h : ScannedBatch root coverage entries) :
    ∃ observed, Excise.relativeEntries root entries = .ok observed ∧
      observed.map Prod.snd = entries ∧ (observed.map Prod.fst).Nodup ∧
      ∀ p ∈ observed, p.2 ∈ entries ∧ p.2.path = p.1.below root ∧ p.1 ≠ .root ∧
        ∀ c ∈ p.1.components, c.nulFree := by
  obtain ⟨observed, hmap, hobserved⟩ := mapM_forall₂
    (f := fun entry : ScannedEntry => (relativeTo root entry.path).map (·, entry))
    (R := fun e p => p.2 = e ∧ e.path = p.1.below root ∧ p.1 ≠ .root ∧
      ∀ c ∈ p.1.components, c.nulFree) fun e he => by
        obtain ⟨relative, hpath, hroot, hnul⟩ := h.below e he
        refine ⟨(relative, e), ?_, rfl, hpath, hroot, hnul⟩
        rw [hpath, relativeTo_below]
        rfl
  have hsnd : observed.map Prod.snd = entries := by
    have heq : List.Forall₂ (· = ·) entries (observed.map Prod.snd) :=
      List.forall₂_map_right_iff.mpr (hobserved.imp fun _ _ hp => hp.1.symm)
    rw [List.forall₂_eq_eq_eq] at heq
    exact heq.symm
  have hmem (p : RelativePath × ScannedEntry) (hp : p ∈ observed) : p.2 ∈ entries ∧
      p.2.path = p.1.below root ∧ p.1 ≠ .root ∧ ∀ c ∈ p.1.components, c.nulFree := by
    obtain ⟨e, he, rfl, hrest⟩ := forall₂_mem hobserved.flip hp
    exact ⟨he, hrest⟩
  refine ⟨observed, hmap, hsnd, ?_, hmem⟩
  have hpaths : (observed.map Prod.fst).map (RelativePath.below root) =
      entries.map ScannedEntry.path := by
    rw [← hsnd, List.map_map, List.map_map]
    exact List.map_congr_left fun p hp => (hmem p hp).2.1.symm
  exact List.Nodup.of_map _ (hpaths ▸ h.distinct)

theorem pathObservations_paths (coverage : Coverage) (observed : List (RelativePath × ScannedEntry)) :
    (pathObservations coverage observed).map (fun o => o.path) = observed.map Prod.fst := by
  rw [pathObservations, List.map_map]
  rfl

theorem mem_identityObservations {observed : List (RelativePath × ScannedEntry)}
    {o : IdentityObservation} : o ∈ identityObservations observed ↔
      ∃ p ∈ observed, p.2.identityObservation? p.1 = some o := by
  rw [identityObservations, List.mem_filterMap]

theorem identityObservation?_path {entry : ScannedEntry} {relative : RelativePath}
    {o : IdentityObservation} (h : entry.identityObservation? relative = some o) :
    o.path = relative := by
  unfold ScannedEntry.identityObservation? at h
  split at h <;> cases h
  rfl

/-- A path gives at most one identity observation. -/
theorem identityObservations_nodup {observed : List (RelativePath × ScannedEntry)}
    (h : (observed.map Prod.fst).Nodup) :
    ((identityObservations observed).map fun o => (o.fileId, o.path)).Nodup := by
  refine List.Nodup.of_map Prod.snd ?_
  rw [List.map_map]
  refine h.sublist ?_
  clear h
  induction observed with
  | nil => exact List.Sublist.refl _
  | cons p observed ih =>
    rw [identityObservations, List.filterMap_cons]
    cases ho : p.2.identityObservation? p.1 with
    | none => exact ih.cons _
    | some o =>
      dsimp only
      rw [List.map_cons, List.map_cons]
      rw [show (Prod.snd ∘ fun o : IdentityObservation => (o.fileId, o.path)) o = p.1 from
        identityObservation?_path ho]
      exact ih.cons_cons _

/-- A batch is sealed exactly when it respects the limit and no entry of it reports zero links. -/
theorem seal_scanned_entries_ok_iff (digest : List UInt8 → BlockDigest)
    (refusal : Nat → Option IoErrorKind) (haccepts : ∀ n, refusal n = none) {root : NativePath}
    {coverage : Coverage} {entries : List ScannedEntry} (h : ScannedBatch root coverage entries)
    (factory : Option ScanInputRunFactory) :
    (∃ runs, sealScannedEntries digest refusal root entries coverage factory = .ok runs) ↔
      (factory.isSome = true → entries.length ≤ maxObservationsPerBatch ∧
        ∀ e ∈ entries, e.identity.linkCount ≠ some 0) := by
  cases factory with
  | none => exact ⟨fun _ h => (by cases h), fun _ => ⟨[], rfl⟩⟩
  | some factory =>
    obtain ⟨observed, hobserved, hsnd, hfst, hmem⟩ := h.relativeEntries
    have hlength : observed.length = entries.length := by rw [← hsnd, List.length_map]
    have hpathCount : (pathObservations coverage observed).length = entries.length := by
      rw [pathObservations, List.length_map, hlength]
    have hidentityCount : (identityObservations observed).length ≤ entries.length := by
      rw [← hlength]
      exact List.length_filterMap_le _ _
    have hseal : sealScannedEntries digest refusal root entries coverage (some factory) =
        factory.sealObservationBatch digest refusal (pathObservations coverage observed)
          (identityObservations observed) := by
      unfold sealScannedEntries
      dsimp only [bind, Except.bind]
      rw [hobserved]
    rw [hseal]
    simp only [Option.isSome_some, forall_true_left]
    unfold ScanInputRunFactory.sealObservationBatch
    rw [hpathCount]
    by_cases hlimit : entries.length ≤ maxObservationsPerBatch
    · rw [if_neg (by omega)]
      have hencoded : ((∀ o ∈ pathObservations coverage observed, ∃ r, encodePathObservation o = .ok r) ∧
            ∀ o ∈ identityObservations observed, ∃ r, encodeIdentityObservation o = .ok r) ↔
          ∀ e ∈ entries, e.identity.linkCount ≠ some 0 := by
        constructor
        · rintro ⟨hpaths, -⟩ e he
          rw [← hsnd] at he
          obtain ⟨p, hp, rfl⟩ := List.mem_map.mp he
          obtain ⟨hin, -, -, hnul⟩ := hmem p hp
          exact (ScannedEntry.pathObservation_encodes_iff (h.stat _ hin) hnul coverage).mp
            (hpaths _ (List.mem_map.mpr ⟨p, hp, rfl⟩))
        · intro hlinks
          refine ⟨fun o ho => ?_, fun o ho => ?_⟩
          · obtain ⟨p, hp, rfl⟩ := List.mem_map.mp ho
            obtain ⟨hin, -, -, hnul⟩ := hmem p hp
            exact (ScannedEntry.pathObservation_encodes_iff (h.stat _ hin) hnul coverage).mpr
              (hlinks _ hin)
          · obtain ⟨p, hp, ho⟩ := mem_identityObservations.mp ho
            obtain ⟨hin, -, hroot, hnul⟩ := hmem p hp
            exact ScannedEntry.identityObservation_encodes hnul hroot (hlinks _ hin) ho
      have hbatch : (∃ runs, sealSortedBatch digest refusal factory.generation factory.pathRunId
          factory.identityRunId (pathObservations coverage observed)
          (identityObservations observed) = .ok runs) ↔ _ := sealSortedBatch_ok_iff haccepts
        (by rw [pathObservations_paths]; exact hfst) (identityObservations_nodup hfst)
        (by rw [hpathCount]; exact hlimit) (hidentityCount.trans hlimit)
        (fun o ho => by
          obtain ⟨p, hp, rfl⟩ := List.mem_map.mp ho
          obtain ⟨hin, hpath, -⟩ := hmem p hp
          exact (h.fits _ hin _ hpath).1)
        (fun o ho => by
          obtain ⟨p, hp, ho⟩ := mem_identityObservations.mp ho
          obtain ⟨hin, hpath, -⟩ := hmem p hp
          exact (h.fits _ hin _ hpath).2 o ho)
      rw [hencoded] at hbatch
      split
      · -- nothing was observed
        rename_i hnone
        rw [Bool.and_eq_true, List.isEmpty_iff, List.isEmpty_iff] at hnone
        refine ⟨fun _ => ⟨hlimit, hencoded.mp ?_⟩, fun _ => ⟨[], rfl⟩⟩
        rw [hnone.1, hnone.2]
        exact ⟨fun o ho => (nomatch ho), fun o ho => (nomatch ho)⟩
      · refine Iff.trans ?_ (hbatch.trans ⟨fun hlinks => ⟨hlimit, hlinks⟩, fun hboth => hboth.2⟩)
        constructor
        · rintro ⟨runs, hruns⟩
          cases hsorted : sealSortedBatch digest refusal factory.generation factory.pathRunId
              factory.identityRunId (pathObservations coverage observed)
              (identityObservations observed) with
          | ok runs => exact ⟨runs, rfl⟩
          | error e =>
            rw [hsorted] at hruns
            cases hruns
        · rintro ⟨runs, hruns⟩
          rw [hruns]
          exact ⟨runs, rfl⟩
    · rw [if_pos (Or.inl (not_le.mp hlimit))]
      exact ⟨fun ⟨_, h⟩ => (by cases h), fun ⟨h, _⟩ => absurd h hlimit⟩

/-- A regular file `/r/a` with the number of links, as the file system reports it. -/
def linkedStat (links : Int) : StatFields :=
  ⟨.RegularFile, 1234, 8, 1700000000, 500, 1, 42, links⟩

def linkedFile (links : UInt64) : ScannedEntry :=
  ⟨⟨false, false, 1234, some 1700000000000000500, 1, 8⟩, [[0x72], [0x61]],
    ⟨.Inode 1 42, some links.toNat, false⟩⟩

/-- Entries at paths that are known to lie below the root. -/
theorem scannedBatch_below {root : NativePath} {coverage : Coverage}
    {observed : List (RelativePath × ScannedEntry)} (hstat : ∀ p ∈ observed, p.2.FromStat)
    (hbelow : ∀ p ∈ observed, p.2.path = p.1.below root ∧ p.1 ≠ .root ∧
      ∀ c ∈ p.1.components, c.nulFree)
    (hdistinct : (observed.map fun p => p.2.path).Nodup)
    (hfits : ∀ p ∈ observed, p.2.FitsBlock p.1 coverage) :
    ScannedBatch root coverage (observed.map Prod.snd) where
  stat e he := by
    obtain ⟨p, hp, rfl⟩ := List.mem_map.mp he
    exact hstat p hp
  below e he := by
    obtain ⟨p, hp, rfl⟩ := List.mem_map.mp he
    exact ⟨p.1, hbelow p hp⟩
  distinct := by rwa [List.map_map]
  fits e he relative hrelative := by
    obtain ⟨p, hp, rfl⟩ := List.mem_map.mp he
    rw [(hbelow p hp).1] at hrelative
    rw [← RelativePath.below_injective hrelative]
    exact hfits p hp

def plainDigest : List UInt8 → BlockDigest := fun _ =>
  ⟨List.replicate 32 0, List.length_replicate⟩

/-- A folder, a file in it with two names and a file with one, out of order. -/
def linkedBatch : List (RelativePath × ScannedEntry) :=
  [(⟨[⟨[0x64], valid_d⟩, ⟨[0x62], valid_b⟩]⟩,
      ⟨⟨false, false, 5000, some 1700000000000000500, 1, 16⟩, [[0x72], [0x64], [0x62]],
        ⟨.Inode 1 43, some 2, false⟩⟩),
    (⟨[⟨[0x61], valid_a⟩]⟩, linkedFile 1),
    (⟨[⟨[0x64], valid_d⟩]⟩,
      ⟨⟨true, false, 4096, some 1700000000000000500, 1, 8⟩, [[0x72], [0x64]],
        ⟨.Inode 1 7, some 3, false⟩⟩)]

theorem linkedBatch_scanned : ScannedBatch [[0x72]] .Complete (linkedBatch.map Prod.snd) := by
  refine scannedBatch_below ?_ ?_ (by decide) (by decide +kernel)
  · intro p hp
    fin_cases hp
    · exact ⟨⟨.RegularFile, 5000, 16, 1700000000, 500, 1, 43, 2⟩, rfl⟩
    · exact ⟨linkedStat 1, rfl⟩
    · exact ⟨⟨.Directory, 4096, 8, 1700000000, 500, 1, 7, 3⟩, rfl⟩
  · intro p hp
    fin_cases hp <;> exact ⟨rfl, by decide, by simp [Component.nulFree]⟩

theorem seal_scanned_entries_ok_iff_linkedBatch :
    ScannedBatch [[0x72]] .Complete (linkedBatch.map Prod.snd) ∧
      (identityObservations linkedBatch).map (fun o => o.declaredLinks) = [some 2] ∧
      ∃ runs, sealScannedEntries plainDigest (fun _ => none) [[0x72]] (linkedBatch.map Prod.snd)
        .Complete (some ⟨⟨0⟩, 0, 1⟩) = .ok runs :=
  ⟨linkedBatch_scanned, by decide,
    (seal_scanned_entries_ok_iff plainDigest (fun _ => none) (fun _ => rfl) linkedBatch_scanned
      (some ⟨⟨0⟩, 0, 1⟩)).mpr fun _ => ⟨by decide, by decide⟩⟩

theorem zeroLinks_batch : ScannedBatch [[0x72]] .Complete [linkedFile 0] := by
  show ScannedBatch _ _ ([((⟨[⟨[0x61], valid_a⟩]⟩ : RelativePath), linkedFile 0)].map Prod.snd)
  refine scannedBatch_below ?_ ?_ (by decide) (by decide +kernel)
  · intro p hp
    obtain rfl := List.mem_singleton.mp hp
    exact ⟨linkedStat 0, rfl⟩
  · intro p hp
    obtain rfl := List.mem_singleton.mp hp
    exact ⟨rfl, by decide, by simp [Component.nulFree]⟩

/-- A file system that reports a file with no links: the storage accepts everything, and the batch is
refused. -/
theorem zero_links_refused :
    EntryMetadata.fromFields (linkedStat 0) =
        .ok ((linkedFile 0).metadata, (linkedFile 0).identity) ∧
      ScannedBatch [[0x72]] .Complete [linkedFile 0] ∧
      sealScannedEntries plainDigest (fun _ => none) [[0x72]] [linkedFile 0] .Complete
        (some ⟨⟨0⟩, 0, 1⟩) = .error (.batch (.PathObservationRun (.Codec .Malformed))) := by
  refine ⟨rfl, zeroLinks_batch, ?_⟩
  have hobserved : relativeEntries [[0x72]] [linkedFile 0] =
      .ok [(⟨[⟨[0x61], by decide⟩]⟩, linkedFile 0)] := rfl
  unfold sealScannedEntries
  dsimp only [bind, Except.bind]
  rw [hobserved]
  unfold ScanInputRunFactory.sealObservationBatch sealSortedBatch pathObservations
  dsimp only
  rw [List.map_singleton, List.mergeSort_singleton]
  rfl

end Excise
