import Excise.Lib.Bytes
import Excise.Codec.PathKey
import Excise.Store.Runs

/-!
# Writing run files

The framing of `run_file.rs`: a header, blocks of records under a digest, a footer. The digest is
any function of the payload. The storage answers every growth of the file; a writer asks for each
length once, so an answer may depend on the length alone.
-/

namespace Excise
set_option autoImplicit false

/-- A record of a run file: its key and its value. -/
abbrev FileRecord := List UInt8 × List UInt8

abbrev BlockDigest := {d : List UInt8 // d.length = 32}

/-- The errors of the source and the panic of its `expect`. -/
inductive RunFileFailure where
  | Run (error : RunError)
  | panicked
  deriving DecidableEq, Repr

/-- `RUN_MAGIC`, "EXSR". -/
def runMagic : List UInt8 := [0x45, 0x58, 0x53, 0x52]

/-- `BLOCK_MAGIC`, "EXSB". -/
def blockMagic : List UInt8 := [0x45, 0x58, 0x53, 0x42]

/-- `FOOTER_MAGIC`, "EXSF". -/
def footerMagic : List UInt8 := [0x45, 0x58, 0x53, 0x46]

/-- `RUN_VERSION`. -/
def runVersion : Nat := 1

/-- `RECORD_LENGTH_BYTES`. -/
def recordLengthBytes : Nat := 8

namespace RunKind

def code : RunKind → UInt8
  | .PathObservation => 1
  | .IdentityObservation => 2
  | .AllocationContribution => 3
  | .DirectorySummary => 4
  | .ChildQuery => 5
  | .PathCatalog => 6

/-- `matches!(kind, ChildQuery | PathCatalog)`: the kinds with a sparse index. -/
def indexed : RunKind → Bool
  | .ChildQuery | .PathCatalog => true
  | _ => false

end RunKind

def headerBytes (descriptor : RunDescriptor) (blockCapacity : Nat) : List UInt8 :=
  runMagic ++ (leBytes 2 runVersion ++ (descriptor.kind.code :: 0 ::
    (leBytes 8 descriptor.generation.value.toNat ++
      (leBytes 8 descriptor.runId.toNat ++ leBytes 4 blockCapacity))))

def encodeHeader (descriptor : RunDescriptor) (blockCapacity : Nat) : Except RunError (List UInt8) :=
  if 2 ^ 32 ≤ blockCapacity then .error .RecordTooLarge else .ok (headerBytes descriptor blockCapacity)

def encodeFooter (records blocks : Nat) : List UInt8 :=
  footerMagic ++ (leBytes 8 records ++ leBytes 8 blocks)

/-- A record in a block: both lengths, the key, the value. -/
def encodeRecord (r : FileRecord) : List UInt8 :=
  leBytes 4 r.1.length ++ (leBytes 4 r.2.length ++ (r.1 ++ r.2))

def recordBytes (r : FileRecord) : Nat := recordLengthBytes + r.1.length + r.2.length

structure SparseRunBlock where
  firstKey : List UInt8
  offset : Nat

/-- `RunWriter` with the bytes of its file. -/
structure FileRunWriter where
  file : List UInt8
  descriptor : RunDescriptor
  blockCapacity : Nat
  block : List UInt8
  blockFirstKey : Option (List UInt8)
  blockRecords : Nat
  totalRecords : Nat
  totalBlocks : Nat
  bytesWritten : Nat
  lastKey : List UInt8
  hasKey : Bool
  sparseIndex : Option (List SparseRunBlock)

/-- `SealedRun` with the bytes of its file. -/
structure FileSealedRun where
  file : List UInt8
  descriptor : RunDescriptor
  bytes : Nat
  blockCapacity : Nat
  sparseIndex : Option (List SparseRunBlock)

namespace FileRunWriter

variable (digest : List UInt8 → BlockDigest) (refusal : Nat → Option IoErrorKind)

def writeReserved (w : FileRunWriter) (bytes : List UInt8) : Except RunFileFailure FileRunWriter :=
  if 2 ^ 64 ≤ w.bytesWritten + bytes.length then .error (.Run .OffsetOverflow)
  else
    match refusal (w.bytesWritten + bytes.length) with
    | some kind => .error (.Run (.Io kind))
    | none => .ok { w with file := w.file ++ bytes, bytesWritten := w.bytesWritten + bytes.length }

/-- The file must be empty and nothing reserved for it. -/
def new (file : List UInt8) (reserved : Nat) (descriptor : RunDescriptor) (blockCapacity : Nat) :
    Except RunFileFailure FileRunWriter :=
  if blockCapacity = 0 then .error (.Run .ZeroBlockCapacity)
  else if file ≠ [] ∨ reserved ≠ 0 then .error (.Run .NonEmptyStart)
  else
    match encodeHeader descriptor blockCapacity with
    | .error e => .error (.Run e)
    | .ok header => writeReserved refusal
        { file := file, descriptor := descriptor, blockCapacity := blockCapacity, block := [],
          blockFirstKey := none, blockRecords := 0, totalRecords := 0, totalBlocks := 0,
          bytesWritten := 0, lastKey := [], hasKey := false,
          sparseIndex := if descriptor.kind.indexed then some [] else none } header

/-- The block header: magic, record count, payload length, digest. -/
def blockHeader (records : Nat) (payload : List UInt8) : List UInt8 :=
  blockMagic ++ (leBytes 4 records ++ (leBytes 4 payload.length ++ (digest payload).1))

/-- The sparse index learns the first key and the offset of the block that is flushed. -/
def indexBlock (w : FileRunWriter) : Except RunFileFailure FileRunWriter :=
  match w.sparseIndex with
  | none => .ok w
  | some blocks =>
    match w.blockFirstKey with
    | none => .error .panicked
    | some firstKey =>
      .ok { w with blockFirstKey := none, sparseIndex := some (blocks ++ [⟨firstKey, w.bytesWritten⟩]) }

def flushBlock (w : FileRunWriter) : Except RunFileFailure FileRunWriter :=
  if w.block = [] then .ok w
  else if 2 ^ 32 ≤ w.block.length then .error (.Run .RecordTooLarge)
  else do
    let header := blockHeader digest w.blockRecords w.block
    let payload := w.block
    let w ← indexBlock w
    let w ← writeReserved refusal w header
    let w ← writeReserved refusal { w with block := [] } payload
    if 2 ^ 64 ≤ w.totalBlocks + 1 then .error (.Run .CountOverflow)
    else .ok { w with blockRecords := 0, totalBlocks := w.totalBlocks + 1 }

/-- The end of `append`, once the block has room. -/
def pushRecord (w : FileRunWriter) (r : FileRecord) : Except RunFileFailure FileRunWriter :=
  if 2 ^ 32 ≤ w.blockRecords + 1 ∨ 2 ^ 64 ≤ w.totalRecords + 1 then .error (.Run .CountOverflow)
  else .ok { w with
    blockFirstKey := if w.block = [] ∧ w.sparseIndex.isSome then some r.1 else w.blockFirstKey
    block := w.block ++ encodeRecord r
    lastKey := r.1
    hasKey := true
    blockRecords := w.blockRecords + 1
    totalRecords := w.totalRecords + 1 }

def append (w : FileRunWriter) (r : FileRecord) : Except RunFileFailure FileRunWriter :=
  if w.hasKey = true ∧ compareBytes r.1 w.lastKey ≠ .gt then .error (.Run .UnsortedKey)
  else if 2 ^ 64 ≤ recordBytes r then .error (.Run .OffsetOverflow)
  else if 2 ^ 32 ≤ r.1.length ∨ 2 ^ 32 ≤ r.2.length then .error (.Run .RecordTooLarge)
  else if w.blockCapacity < recordBytes r then .error (.Run .RecordTooLarge)
  else if w.block ≠ [] ∧ w.blockCapacity < w.block.length + recordBytes r then do
    let w ← flushBlock digest refusal w
    pushRecord w r
  else pushRecord w r

def sealRun (w : FileRunWriter) : Except RunFileFailure FileSealedRun := do
  let w ← flushBlock digest refusal w
  let w ← writeReserved refusal w (encodeFooter w.totalRecords w.totalBlocks)
  return ⟨w.file, w.descriptor, w.bytesWritten, w.blockCapacity, w.sparseIndex⟩

end FileRunWriter

/-- Opens a run in an empty file, appends the records in order and seals it. -/
def writeRunFile (digest : List UInt8 → BlockDigest) (refusal : Nat → Option IoErrorKind)
    (descriptor : RunDescriptor) (blockCapacity : Nat) (records : List FileRecord) :
    Except RunFileFailure FileSealedRun := do
  let w ← FileRunWriter.new refusal [] 0 descriptor blockCapacity
  let w ← records.foldlM (FileRunWriter.append digest refusal) w
  FileRunWriter.sealRun digest refusal w

/-! ## What a run file holds -/

/-- A block's records, the payload they make and the block they are framed in. -/
def blockPayload (records : List FileRecord) : List UInt8 := records.flatMap encodeRecord

section Image

variable (digest : List UInt8 → BlockDigest)

def blockFrame (records : List FileRecord) : List UInt8 :=
  FileRunWriter.blockHeader digest records.length (blockPayload records) ++ blockPayload records

def runBody (descriptor : RunDescriptor) (blockCapacity : Nat) (blocks : List (List FileRecord)) :
    List UInt8 :=
  headerBytes descriptor blockCapacity ++ blocks.flatMap (blockFrame digest)

/-- The file of a sealed run. -/
def runImage (descriptor : RunDescriptor) (blockCapacity : Nat) (blocks : List (List FileRecord)) :
    List UInt8 :=
  runBody digest descriptor blockCapacity blocks ++ encodeFooter blocks.flatten.length blocks.length

end Image

/-- The blocks written and the records of the open one, after one more record. -/
def packStep (blockCapacity : Nat) (s : List (List FileRecord) × List FileRecord) (r : FileRecord) :
    List (List FileRecord) × List FileRecord :=
  if s.2 ≠ [] ∧ blockCapacity < (blockPayload s.2).length + recordBytes r then (s.1 ++ [s.2], [r])
  else (s.1, s.2 ++ [r])

/-- A record-less block is not written. -/
def closeBlocks (s : List (List FileRecord) × List FileRecord) : List (List FileRecord) :=
  if s.2 = [] then s.1 else s.1 ++ [s.2]

/-- The blocks a run file is made of. -/
def packBlocks (blockCapacity : Nat) (records : List FileRecord) : List (List FileRecord) :=
  closeBlocks (records.foldl (packStep blockCapacity) ([], []))

@[simp] theorem encodeRecord_length (r : FileRecord) : (encodeRecord r).length = recordBytes r := by
  simp only [encodeRecord, List.length_append, leBytes_length, recordBytes, recordLengthBytes]
  omega

theorem blockPayload_append (rs : List FileRecord) (r : FileRecord) :
    blockPayload (rs ++ [r]) = blockPayload rs ++ encodeRecord r := by
  simp [blockPayload]

theorem blockPayload_length (rs : List FileRecord) :
    8 * rs.length ≤ (blockPayload rs).length := by
  induction rs with
  | nil => simp
  | cons r rs ih =>
    have hcons : blockPayload (r :: rs) = encodeRecord r ++ blockPayload rs := by
      simp [blockPayload]
    rw [hcons, List.length_append, encodeRecord_length, recordBytes, recordLengthBytes,
      List.length_cons]
    omega

theorem blockPayload_eq_nil {rs : List FileRecord} : blockPayload rs = [] ↔ rs = [] := by
  constructor
  · intro h
    have hlength := blockPayload_length rs
    rw [h, List.length_nil] at hlength
    exact List.eq_nil_of_length_eq_zero (by omega)
  · rintro rfl
    rfl

theorem recordBytes_le_payload {rs : List FileRecord} {r : FileRecord} (h : r ∈ rs) :
    recordBytes r ≤ (blockPayload rs).length := by
  obtain ⟨front, back, rfl⟩ := List.append_of_mem h
  simp only [blockPayload, List.flatMap_append, List.flatMap_cons, List.length_append,
    encodeRecord_length]
  omega

section Image

variable (digest : List UInt8 → BlockDigest)

theorem blockFrame_length (rs : List FileRecord) :
    (blockFrame digest rs).length = 44 + (blockPayload rs).length := by
  simp only [blockFrame, FileRunWriter.blockHeader, List.length_append, leBytes_length,
    (digest _).2, blockMagic, List.length_cons, List.length_nil]

theorem runBody_append (descriptor : RunDescriptor) (blockCapacity : Nat)
    (blocks : List (List FileRecord)) (b : List FileRecord) :
    runBody digest descriptor blockCapacity (blocks ++ [b])
      = runBody digest descriptor blockCapacity blocks ++ blockFrame digest b := by
  simp [runBody]

/-- Every block takes its header, every record its lengths. -/
theorem runBody_length (descriptor : RunDescriptor) (blockCapacity : Nat)
    (blocks : List (List FileRecord)) :
    8 * blocks.flatten.length + 44 * blocks.length
      ≤ (runBody digest descriptor blockCapacity blocks).length := by
  have hframes : 8 * blocks.flatten.length + 44 * blocks.length
      ≤ (blocks.flatMap (blockFrame digest)).length := by
    induction blocks with
    | nil => simp
    | cons b blocks ih =>
      have hpayload := blockPayload_length b
      rw [List.flatten_cons, List.length_append, List.length_cons, List.flatMap_cons,
        List.length_append, blockFrame_length]
      omega
  rw [runBody, List.length_append]
  omega

theorem runBody_mono (descriptor : RunDescriptor) (blockCapacity : Nat)
    {blocks later : List (List FileRecord)} (h : blocks <+: later) :
    (runBody digest descriptor blockCapacity blocks).length
      ≤ (runBody digest descriptor blockCapacity later).length := by
  obtain ⟨more, rfl⟩ := h
  simp only [runBody, List.flatMap_append, List.length_append]
  omega

theorem prefix_closeBlocks (s : List (List FileRecord) × List FileRecord) :
    s.1 <+: closeBlocks s := by
  unfold closeBlocks
  split
  · exact List.prefix_refl _
  · exact List.prefix_append _ _

theorem flatten_closeBlocks (s : List (List FileRecord) × List FileRecord) :
    (closeBlocks s).flatten = s.1.flatten ++ s.2 := by
  unfold closeBlocks
  split
  · rename_i hnil
    rw [hnil, List.append_nil]
  · simp

theorem packStep_flatten (blockCapacity : Nat) (s : List (List FileRecord) × List FileRecord)
    (r : FileRecord) :
    (packStep blockCapacity s r).1.flatten ++ (packStep blockCapacity s r).2
      = s.1.flatten ++ s.2 ++ [r] := by
  unfold packStep
  split <;> simp

theorem prefix_packStep (blockCapacity : Nat) (s : List (List FileRecord) × List FileRecord)
    (r : FileRecord) : s.1 <+: (packStep blockCapacity s r).1 := by
  unfold packStep
  split
  · exact List.prefix_append _ _
  · exact List.prefix_refl _

theorem prefix_foldl_packStep (blockCapacity : Nat) (records : List FileRecord)
    (s : List (List FileRecord) × List FileRecord) :
    s.1 <+: (records.foldl (packStep blockCapacity) s).1 := by
  induction records generalizing s with
  | nil => exact List.prefix_refl _
  | cons r records ih => exact (prefix_packStep blockCapacity s r).trans (ih _)

end Image

/-! ## The writer frames the records of the abstract writer -/

/-- The storage refuses the file before it has `length` bytes, or the file is too long for it. -/
def Blocked (refusal : Nat → Option IoErrorKind) (length : Nat) (e : RunFileFailure) : Prop :=
  (e = .Run .OffsetOverflow ∧ 2 ^ 64 ≤ length) ∨
    ∃ n kind, n ≤ length ∧ refusal n = some kind ∧ e = .Run (.Io kind)

theorem Blocked.mono {refusal : Nat → Option IoErrorKind} {m n : Nat} {e : RunFileFailure}
    (h : Blocked refusal m e) (hmn : m ≤ n) : Blocked refusal n e := by
  rcases h with ⟨rfl, hlength⟩ | ⟨k, kind, hk, hrefusal, rfl⟩
  · exact Or.inl ⟨rfl, hlength.trans hmn⟩
  · exact Or.inr ⟨k, kind, hk.trans hmn, hrefusal, rfl⟩

/-- A run is a list of records with increasing keys. -/
def recordKey (r : FileRecord) : List UInt8 := r.1

namespace FileRunWriter

variable (digest : List UInt8 → BlockDigest)

/-- The state that has the records of `a` in full blocks and an open one. -/
structure Represents (w : FileRunWriter) (a : RunWriter recordKey)
    (s : List (List FileRecord) × List FileRecord) : Prop where
  records : a.records = s.1.flatten ++ s.2
  descriptor : w.descriptor = a.descriptor
  capacity : 0 < w.blockCapacity ∧ w.blockCapacity < 2 ^ 32
  file : w.file = runBody digest w.descriptor w.blockCapacity s.1
  written : w.bytesWritten = w.file.length
  short : w.file.length < 2 ^ 64
  block : w.block = blockPayload s.2
  room : (blockPayload s.2).length ≤ w.blockCapacity
  full : ∀ b ∈ s.1, b ≠ [] ∧ (blockPayload b).length ≤ w.blockCapacity
  blockRecords : w.blockRecords = s.2.length
  totalRecords : w.totalRecords = a.records.length
  totalBlocks : w.totalBlocks = s.1.length
  lastKey : (if w.hasKey then some w.lastKey else none) = a.lastKey
  firstKey : w.sparseIndex.isSome → w.block ≠ [] → w.blockFirstKey.isSome

variable {digest} (refusal : Nat → Option IoErrorKind)

theorem writeReserved_spec {w : FileRunWriter} (hw : w.bytesWritten = w.file.length)
    (bytes : List UInt8) :
    ((w.file ++ bytes).length < 2 ^ 64 ∧ writeReserved refusal w bytes
        = .ok { w with file := w.file ++ bytes, bytesWritten := (w.file ++ bytes).length }) ∨
      ∃ e, writeReserved refusal w bytes = .error e ∧ Blocked refusal (w.file ++ bytes).length e := by
  unfold writeReserved
  rw [hw, ← List.length_append]
  by_cases hlong : 2 ^ 64 ≤ (w.file ++ bytes).length
  · rw [if_pos hlong]
    exact Or.inr ⟨_, rfl, Or.inl ⟨rfl, hlong⟩⟩
  · rw [if_neg hlong]
    cases hrefusal : refusal (w.file ++ bytes).length with
    | none => exact Or.inl ⟨not_le.mp hlong, rfl⟩
    | some kind => exact Or.inr ⟨_, rfl, Or.inr ⟨_, kind, le_refl _, hrefusal, rfl⟩⟩

/-- The index never finds a block without its first key. -/
theorem indexBlock_spec {w : FileRunWriter} {a : RunWriter recordKey}
    {s : List (List FileRecord) × List FileRecord} (h : Represents digest w a s)
    (hopen : w.block ≠ []) :
    ∃ firstKey index, indexBlock w = .ok { w with blockFirstKey := firstKey, sparseIndex := index } ∧
      (index.isSome → w.sparseIndex.isSome) := by
  unfold indexBlock
  cases hindex : w.sparseIndex with
  | none =>
    refine ⟨w.blockFirstKey, none, ?_, fun h => h⟩
    cases w
    cases hindex
    rfl
  | some blocks =>
    have hkey := h.firstKey (by rw [hindex]; rfl) hopen
    obtain ⟨firstKey, hfirst⟩ := Option.isSome_iff_exists.mp hkey
    rw [hfirst]
    exact ⟨none, _, rfl, fun _ => rfl⟩

theorem flushBlock_spec {w : FileRunWriter} {a : RunWriter recordKey}
    {s : List (List FileRecord) × List FileRecord} (h : Represents digest w a s) :
    (∃ w', flushBlock digest refusal w = .ok w' ∧ w'.descriptor = w.descriptor ∧
        w'.blockCapacity = w.blockCapacity ∧ Represents digest w' a (closeBlocks s, [])) ∨
      ∃ e, flushBlock digest refusal w = .error e ∧
        Blocked refusal (runBody digest w.descriptor w.blockCapacity (closeBlocks s)).length e := by
  unfold flushBlock
  by_cases hempty : s.2 = []
  · -- nothing is open
    have hblock : w.block = [] := by rw [h.block, hempty]; rfl
    rw [if_pos hblock]
    refine Or.inl ⟨w, rfl, rfl, rfl, ?_⟩
    have hclose : (closeBlocks s, []) = s := by
      unfold closeBlocks
      rw [if_pos hempty, ← hempty]
    rw [hclose]
    exact h
  · have hblock : w.block ≠ [] := by
      rw [h.block, ne_eq, blockPayload_eq_nil]
      exact hempty
    have hshort : ¬2 ^ 32 ≤ w.block.length := by
      rw [h.block]
      exact not_le.mpr (lt_of_le_of_lt h.room h.capacity.2)
    have hclose : closeBlocks s = s.1 ++ [s.2] := if_neg hempty
    have hbody : runBody digest w.descriptor w.blockCapacity (closeBlocks s)
        = (w.file ++ blockHeader digest w.blockRecords w.block) ++ w.block := by
      rw [hclose, runBody_append, ← h.file, blockFrame, ← h.block, ← h.blockRecords,
        List.append_assoc]
    rw [if_neg hblock, if_neg hshort]
    obtain ⟨firstKey, index, hindexed, hsome⟩ := indexBlock_spec h hblock
    dsimp only [bind, Except.bind]
    rw [hindexed]
    dsimp only
    rcases writeReserved_spec refusal
        (w := { w with blockFirstKey := firstKey, sparseIndex := index }) h.written
        (blockHeader digest w.blockRecords w.block) with ⟨-, hheader⟩ | ⟨e, herror, hblocked⟩
    · rw [hheader]
      dsimp only
      rcases writeReserved_spec refusal
          (w := { w with
            blockFirstKey := firstKey, sparseIndex := index, block := [],
            file := w.file ++ blockHeader digest w.blockRecords w.block,
            bytesWritten := (w.file ++ blockHeader digest w.blockRecords w.block).length }) rfl
          w.block with ⟨hlong, hpayload⟩ | ⟨e, herror, hblocked⟩
      · rw [hpayload]
        dsimp only
        rw [← hbody] at hlong ⊢
        have hcount := runBody_length digest w.descriptor w.blockCapacity (closeBlocks s)
        have hblocks : (closeBlocks s).length = w.totalBlocks + 1 := by
          rw [hclose, List.length_append, h.totalBlocks]
          rfl
        rw [if_neg (by omega)]
        refine Or.inl ⟨_, rfl, rfl, rfl, ?_⟩
        refine ⟨?_, h.descriptor, h.capacity, rfl, rfl, hlong, rfl, Nat.zero_le _, ?_, rfl,
          h.totalRecords, hblocks.symm, h.lastKey, fun _ hne => absurd rfl hne⟩
        · rw [flatten_closeBlocks, List.append_nil]
          exact h.records
        · intro b hb
          rw [hclose] at hb
          rcases List.mem_append.mp hb with hb | hb
          · exact h.full b hb
          · rw [List.mem_singleton.mp hb]
            exact ⟨hempty, h.room⟩
      · rw [herror]
        exact Or.inr ⟨e, rfl, by rw [hbody]; exact hblocked⟩
    · rw [herror]
      refine Or.inr ⟨e, rfl, hblocked.mono ?_⟩
      rw [hbody]
      simp only [List.length_append]
      omega

theorem pushRecord_spec {w : FileRunWriter} {a a' : RunWriter recordKey}
    {s : List (List FileRecord) × List FileRecord} {r : FileRecord} (h : Represents digest w a s)
    (hroom : (blockPayload s.2).length + recordBytes r ≤ w.blockCapacity)
    (ha : a.append r = .ok a') :
    ∃ w', pushRecord w r = .ok w' ∧ w'.descriptor = w.descriptor ∧
      w'.blockCapacity = w.blockCapacity ∧ Represents digest w' a' (s.1, s.2 ++ [r]) := by
  have hpayload : (blockPayload (s.2 ++ [r])).length = (blockPayload s.2).length + recordBytes r := by
    rw [blockPayload_append, List.length_append, encodeRecord_length]
  have hcount := blockPayload_length (s.2 ++ [r])
  rw [hpayload, List.length_append, List.length_singleton] at hcount
  have hcapacity := h.capacity.2
  have hwritten := runBody_length digest w.descriptor w.blockCapacity s.1
  have hshort := h.short
  have htotal : w.totalRecords = s.1.flatten.length + s.2.length := by
    rw [h.totalRecords, h.records, List.length_append]
  rw [h.file] at hshort
  unfold pushRecord
  rw [h.blockRecords, if_neg (by omega)]
  refine ⟨_, rfl, rfl, rfl, ?_⟩
  obtain ⟨-, hd, ha⟩ := RunWriter.append_eq_ok ha
  refine ⟨?_, h.descriptor.trans hd.symm, h.capacity, h.file, h.written, h.short, ?_, ?_, h.full,
    ?_, ?_, h.totalBlocks, ?_, ?_⟩
  · rw [ha, h.records, List.append_assoc]
  · show w.block ++ encodeRecord r = _
    rw [h.block, blockPayload_append]
  · show (blockPayload (s.2 ++ [r])).length ≤ w.blockCapacity
    rw [hpayload]
    exact hroom
  · show s.2.length + 1 = (s.2 ++ [r]).length
    rw [List.length_append, List.length_singleton]
  · show w.totalRecords + 1 = a'.records.length
    rw [h.totalRecords, ha, List.length_append, List.length_singleton]
  · rw [RunWriter.lastKey, ha, List.getLast?_append, List.getLast?_singleton]
    rfl
  · intro hindex _
    show (if w.block = [] ∧ w.sparseIndex.isSome then some r.1 else w.blockFirstKey).isSome
    by_cases hopen : w.block = []
    · rw [if_pos ⟨hopen, hindex⟩]
      rfl
    · rw [if_neg fun hboth => hopen hboth.1]
      exact h.firstKey hindex hopen

/-- A record that fits a block is refused exactly when the abstract writer refuses it. -/
theorem append_spec {w : FileRunWriter} {a : RunWriter recordKey}
    {s : List (List FileRecord) × List FileRecord} {r : FileRecord} (h : Represents digest w a s)
    (hfits : recordBytes r ≤ w.blockCapacity) :
    (∀ e, a.append r = .error e → append digest refusal w r = .error (.Run e)) ∧
    ∀ a', a.append r = .ok a' →
      (∃ w', append digest refusal w r = .ok w' ∧ w'.descriptor = w.descriptor ∧
        w'.blockCapacity = w.blockCapacity ∧
        Represents digest w' a' (packStep w.blockCapacity s r)) ∨
      ∃ e, append digest refusal w r = .error e ∧ Blocked refusal (runBody digest w.descriptor
        w.blockCapacity (packStep w.blockCapacity s r).1).length e := by
  have hkeys : (w.hasKey = true ∧ compareBytes r.1 w.lastKey ≠ .gt) ↔
      ∃ k, a.lastKey = some k ∧ ¬compareBytes r.1 k = .gt := by
    rw [← h.lastKey]
    cases w.hasKey <;> simp
  have hcapacity := h.capacity.2
  have hlengths : ¬2 ^ 64 ≤ recordBytes r ∧ ¬(2 ^ 32 ≤ r.1.length ∨ 2 ^ 32 ≤ r.2.length) := by
    have hbytes : recordBytes r = 8 + r.1.length + r.2.length := rfl
    omega
  unfold append
  constructor
  · intro e he
    obtain ⟨rfl, k, hk, hle⟩ := RunWriter.append_eq_error he
    rw [if_pos (hkeys.mpr ⟨k, hk, fun hgt => not_lt.mpr hle (compareBytes_gt.mp hgt)⟩)]
  · intro a' ha
    have hsorted : ¬(w.hasKey = true ∧ compareBytes r.1 w.lastKey ≠ .gt) := by
      rw [hkeys]
      rintro ⟨k, hk, hle⟩
      exact hle (compareBytes_gt.mpr ((RunWriter.append_eq_ok ha).1 k hk))
    rw [if_neg hsorted, if_neg hlengths.1, if_neg hlengths.2, if_neg (not_lt.mpr hfits)]
    have hfull : (w.block ≠ [] ∧ w.blockCapacity < w.block.length + recordBytes r) ↔
        (s.2 ≠ [] ∧ w.blockCapacity < (blockPayload s.2).length + recordBytes r) := by
      rw [h.block, ne_eq, blockPayload_eq_nil]
    unfold packStep
    by_cases hflush : w.block ≠ [] ∧ w.blockCapacity < w.block.length + recordBytes r
    · -- the open block has no room: it is written and the record opens the next one
      rw [if_pos hflush, if_pos (hfull.mp hflush)]
      have hclose : closeBlocks s = s.1 ++ [s.2] := if_neg (hfull.mp hflush).1
      dsimp only [bind, Except.bind]
      rcases flushBlock_spec refusal h with ⟨w', hw', hd, hc, h'⟩ | ⟨e, he, hblocked⟩
      · rw [hw']
        rw [hclose] at h'
        obtain ⟨w'', hw'', hd', hc', h''⟩ := pushRecord_spec (r := r) h'
          (by rw [hc]; simpa [blockPayload] using hfits) ha
        exact Or.inl ⟨w'', hw'', hd'.trans hd, hc'.trans hc, h''⟩
      · rw [he]
        exact Or.inr ⟨e, rfl, by rw [← hclose]; exact hblocked⟩
    · rw [if_neg hflush, if_neg (fun hboth => hflush (hfull.mpr hboth))]
      have hroom : (blockPayload s.2).length + recordBytes r ≤ w.blockCapacity := by
        by_cases hopen : s.2 = []
        · rw [hopen]
          simpa [blockPayload] using hfits
        · exact not_lt.mp fun hlt => hflush (hfull.mpr ⟨hopen, hlt⟩)
      exact Or.inl (pushRecord_spec h hroom ha)

/-- Appending records with increasing keys packs them, unless the storage stops it. -/
theorem appendAll_spec {records : List FileRecord} {w : FileRunWriter} {a : RunWriter recordKey}
    {s : List (List FileRecord) × List FileRecord} (h : Represents digest w a s)
    (hsorted : SortedBy recordKey (a.records ++ records))
    (hfits : ∀ r ∈ records, recordBytes r ≤ w.blockCapacity) :
    (∃ w' a', records.foldlM (append digest refusal) w = .ok w' ∧ w'.descriptor = w.descriptor ∧
      w'.blockCapacity = w.blockCapacity ∧ a'.records = a.records ++ records ∧
      Represents digest w' a' (records.foldl (packStep w.blockCapacity) s)) ∨
    ∃ e, records.foldlM (append digest refusal) w = .error e ∧ Blocked refusal (runBody digest
      w.descriptor w.blockCapacity (records.foldl (packStep w.blockCapacity) s).1).length e := by
  induction records generalizing w a s with
  | nil => exact Or.inl ⟨w, a, rfl, rfl, rfl, (List.append_nil _).symm, h⟩
  | cons r records ih =>
    obtain ⟨a', ha, hrecords⟩ := RunWriter.append_of_sorted hsorted
    have hmore : a'.records ++ records = a.records ++ r :: records := by
      rw [hrecords, List.append_assoc, List.singleton_append]
    rw [List.foldlM_cons, List.foldl_cons]
    rcases (append_spec refusal h (hfits r List.mem_cons_self)).2 a' ha with
      ⟨w', hw', hd, hc, h'⟩ | ⟨e, he, hblocked⟩
    · have htail := ih h' (hmore ▸ hsorted) (fun x hx => by
        rw [hc]
        exact hfits x (List.mem_cons_of_mem _ hx))
      rw [hw']
      dsimp only [bind, Except.bind]
      rw [hd, hc] at htail
      rcases htail with ⟨v, b, hv, hdv, hcv, hrv, hb⟩ | ⟨e, he, hblocked⟩
      · exact Or.inl ⟨v, b, hv, hdv, hcv, hrv.trans hmore, hb⟩
      · exact Or.inr ⟨e, he, hblocked⟩
    · rw [he]
      exact Or.inr ⟨e, rfl, hblocked.mono
        (runBody_mono digest _ _ (prefix_foldl_packStep _ records _))⟩

variable (digest) in
theorem new_spec (descriptor : RunDescriptor) {blockCapacity : Nat} (hzero : 0 < blockCapacity)
    (hcapacity : blockCapacity < 2 ^ 32) :
    (∃ w, new refusal [] 0 descriptor blockCapacity = .ok w ∧ w.descriptor = descriptor ∧
      w.blockCapacity = blockCapacity ∧ Represents digest w (RunWriter.new descriptor) ([], [])) ∨
    ∃ e, new refusal [] 0 descriptor blockCapacity = .error e ∧
      Blocked refusal (headerBytes descriptor blockCapacity).length e := by
  unfold new encodeHeader
  rw [if_neg (by omega), if_neg (by simp), if_neg (not_le.mpr hcapacity)]
  dsimp only
  rcases writeReserved_spec refusal (w := ⟨[], descriptor, blockCapacity, [], none, 0, 0,
      0, 0, [], false, if descriptor.kind.indexed then some [] else none⟩) rfl
      (headerBytes descriptor blockCapacity) with ⟨hshort, hok⟩ | ⟨e, he, hblocked⟩
  · rw [hok]
    refine Or.inl ⟨_, rfl, rfl, rfl, ?_⟩
    exact ⟨rfl, rfl, ⟨hzero, hcapacity⟩, (List.append_nil _).symm, rfl, hshort, rfl,
      Nat.zero_le _, by simp, rfl, rfl, rfl, rfl, fun _ hopen => absurd rfl hopen⟩
  · rw [he]
    exact Or.inr ⟨e, rfl, hblocked⟩

variable (digest) {refusal} in
theorem new_eq_ok {descriptor : RunDescriptor} {blockCapacity : Nat} {w : FileRunWriter}
    (h : new refusal [] 0 descriptor blockCapacity = .ok w) :
    (0 < blockCapacity ∧ blockCapacity < 2 ^ 32) ∧ w.descriptor = descriptor ∧
      w.blockCapacity = blockCapacity ∧ Represents digest w (RunWriter.new descriptor) ([], []) := by
  have hcapacity : 0 < blockCapacity ∧ blockCapacity < 2 ^ 32 := by
    unfold new encodeHeader at h
    split_ifs at h <;> omega
  rcases new_spec digest refusal descriptor hcapacity.1 hcapacity.2 with
    ⟨v, hv, hd, hc, hrepresents⟩ | ⟨e, he, -⟩
  · rw [h] at hv
    cases hv
    exact ⟨hcapacity, hd, hc, hrepresents⟩
  · rw [h] at he
    cases he

theorem sealRun_spec {w : FileRunWriter} {a : RunWriter recordKey}
    {s : List (List FileRecord) × List FileRecord} (h : Represents digest w a s) :
    (∃ run, sealRun digest refusal w = .ok run ∧ run.descriptor = w.descriptor ∧
      run.file = runImage digest w.descriptor w.blockCapacity (closeBlocks s) ∧
      run.bytes = run.file.length ∧ run.file.length < 2 ^ 64) ∨
    ∃ e, sealRun digest refusal w = .error e ∧ Blocked refusal
      (runImage digest w.descriptor w.blockCapacity (closeBlocks s)).length e := by
  unfold sealRun
  dsimp only [bind, Except.bind]
  rcases flushBlock_spec refusal h with ⟨w', hw', hd, hc, h'⟩ | ⟨e, he, hblocked⟩
  · rw [hw']
    dsimp only
    have hrecords : w'.totalRecords = (closeBlocks s).flatten.length := by
      rw [h'.totalRecords, h'.records, List.append_nil]
    have himage : w'.file ++ encodeFooter w'.totalRecords w'.totalBlocks
        = runImage digest w.descriptor w.blockCapacity (closeBlocks s) := by
      rw [runImage, h'.file, hd, hc, hrecords, h'.totalBlocks]
    rcases writeReserved_spec refusal h'.written
        (encodeFooter w'.totalRecords w'.totalBlocks) with ⟨hshort, hok⟩ | ⟨e, he, hblocked⟩
    · rw [hok]
      exact Or.inl ⟨_, rfl, hd, himage, rfl, hshort⟩
    · rw [he, ← himage]
      exact Or.inr ⟨e, rfl, hblocked⟩
  · rw [he]
    refine Or.inr ⟨e, rfl, hblocked.mono ?_⟩
    rw [runImage, List.length_append]
    omega

end FileRunWriter

theorem writeRunFile_spec (digest : List UInt8 → BlockDigest) (refusal : Nat → Option IoErrorKind)
    (descriptor : RunDescriptor) {blockCapacity : Nat} (hzero : 0 < blockCapacity)
    (hcapacity : blockCapacity < 2 ^ 32) {records : List FileRecord}
    (hsorted : SortedBy recordKey records) (hfits : ∀ r ∈ records, recordBytes r ≤ blockCapacity) :
    (∃ run, writeRunFile digest refusal descriptor blockCapacity records = .ok run ∧
      run.descriptor = descriptor ∧
      run.file = runImage digest descriptor blockCapacity (packBlocks blockCapacity records)) ∨
    ∃ e, writeRunFile digest refusal descriptor blockCapacity records = .error e ∧ Blocked refusal
      (runImage digest descriptor blockCapacity (packBlocks blockCapacity records)).length e := by
  have hlater (s : List (List FileRecord) × List FileRecord) :
      (runBody digest descriptor blockCapacity s.1).length
        ≤ (runImage digest descriptor blockCapacity (closeBlocks s)).length := by
    have hmono := runBody_mono digest descriptor blockCapacity (prefix_closeBlocks s)
    rw [runImage, List.length_append]
    omega
  unfold writeRunFile
  dsimp only [bind, Except.bind]
  rcases FileRunWriter.new_spec digest refusal descriptor hzero hcapacity with
    ⟨w, hw, rfl, rfl, h⟩ | ⟨e, he, hblocked⟩
  · rw [hw]
    dsimp only
    rcases FileRunWriter.appendAll_spec refusal h hsorted hfits with
      ⟨w', a', hw', hd, hc, -, h'⟩ | ⟨e, he, hblocked⟩
    · rw [hw']
      dsimp only
      have hseal := FileRunWriter.sealRun_spec refusal h'
      rw [hd, hc] at hseal
      rcases hseal with ⟨run, hrun, hrd, hfile, -⟩ | ⟨e, he, hblocked⟩
      · exact Or.inl ⟨run, hrun, hrd, hfile⟩
      · exact Or.inr ⟨e, he, hblocked⟩
    · rw [he]
      exact Or.inr ⟨e, rfl, hblocked.mono (hlater _)⟩
  · rw [he]
    refine Or.inr ⟨e, rfl, hblocked.mono ?_⟩
    have hbody := hlater (records.foldl (packStep blockCapacity) ([], []))
    rw [runBody, List.length_append] at hbody
    exact (Nat.le_add_right _ _).trans hbody

/-- The storage grants every length up to this one. -/
def HasRoom (refusal : Nat → Option IoErrorKind) (length : Nat) : Prop :=
  length < 2 ^ 64 ∧ ∀ n ≤ length, refusal n = none

theorem not_blocked_of_hasRoom {refusal : Nat → Option IoErrorKind} {length : Nat}
    (h : HasRoom refusal length) {e : RunFileFailure} : ¬Blocked refusal length e := by
  rintro (⟨-, hlong⟩ | ⟨n, kind, hn, hrefused, -⟩)
  · exact not_lt.mpr hlong h.1
  · rw [h.2 n hn] at hrefused
    cases hrefused

theorem packBlocks_flatten (blockCapacity : Nat) (records : List FileRecord) :
    (packBlocks blockCapacity records).flatten = records := by
  have hfold : ∀ (rs : List FileRecord) (s : List (List FileRecord) × List FileRecord),
      (closeBlocks (rs.foldl (packStep blockCapacity) s)).flatten = s.1.flatten ++ s.2 ++ rs := by
    intro rs
    induction rs with
    | nil =>
      intro s
      rw [List.foldl_nil, flatten_closeBlocks, List.append_nil]
    | cons r rs ih =>
      intro s
      rw [List.foldl_cons, ih, packStep_flatten, List.append_assoc, List.singleton_append]
  exact hfold records ([], [])

/-- The packed blocks are neither empty nor too large. -/
theorem packBlocks_full {blockCapacity : Nat} {records : List FileRecord}
    (hfits : ∀ r ∈ records, recordBytes r ≤ blockCapacity) :
    ∀ b ∈ packBlocks blockCapacity records, b ≠ [] ∧ (blockPayload b).length ≤ blockCapacity := by
  have hfold : ∀ (rs : List FileRecord) (s : List (List FileRecord) × List FileRecord),
      (∀ r ∈ rs, recordBytes r ≤ blockCapacity) → (blockPayload s.2).length ≤ blockCapacity →
      (∀ b ∈ s.1, b ≠ [] ∧ (blockPayload b).length ≤ blockCapacity) →
      ∀ b ∈ closeBlocks (rs.foldl (packStep blockCapacity) s),
        b ≠ [] ∧ (blockPayload b).length ≤ blockCapacity := by
    intro rs
    induction rs with
    | nil =>
      intro s _ hopen hfull b hb
      rw [List.foldl_nil, closeBlocks] at hb
      split at hb
      · exact hfull b hb
      · rename_i hne
        rcases List.mem_append.mp hb with hb | hb
        · exact hfull b hb
        · rw [List.mem_singleton.mp hb]
          exact ⟨hne, hopen⟩
    | cons r rs ih =>
      intro s hrs hopen hfull
      obtain ⟨hr, hrs⟩ := List.forall_mem_cons.mp hrs
      rw [List.foldl_cons]
      unfold packStep
      split
      · rename_i hflush
        refine ih _ hrs (by simpa [blockPayload] using hr) fun b hb => ?_
        rcases List.mem_append.mp hb with hb | hb
        · exact hfull b hb
        · rw [List.mem_singleton.mp hb]
          exact ⟨hflush.1, hopen⟩
      · rename_i hroom
        refine ih _ hrs ?_ hfull
        rw [blockPayload_append, List.length_append, encodeRecord_length]
        by_cases hempty : s.2 = []
        · rw [hempty]
          simpa [blockPayload] using hr
        · exact not_lt.mp fun hlt => hroom ⟨hempty, hlt⟩
  exact hfold records ([], []) hfits (Nat.zero_le _) (by simp)

end Excise
