import Excise.Codec.RangeReader
import Excise.Lib.Search

/-!
# The sparse index

An indexed run is sealed with the first key and the offset of each of its blocks. A range read
finds its block there, and delivers what a sequential read does from the bound on, unless the
bound is below the first key of the run.
-/

namespace Excise
set_option autoImplicit false

/-- `FOOTER_BYTES`. -/
def footerBytes : Nat := 20

def FileSealedRun.rangeReader (run : FileSealedRun) (lowerBound : List UInt8) :
    Except RunError FileRangeReader :=
  if run.descriptor.kind.indexed then
    match run.sparseIndex with
    | none => .error .UnindexedRange
    | some blocks =>
      if run.bytes < footerBytes then .error .InvalidBlock
      else
        let fallback := run.bytes - footerBytes
        let position := partitionPoint
          (fun block : SparseRunBlock => compareBytes block.firstKey lowerBound != .gt) blocks
        let block := if position = 0 then none else blocks[position - 1]?
        let offset := match block with
          | none => fallback
          | some block => block.offset
        .ok (.new run.file offset run.blockCapacity)
  else .error .UnindexedRange

def firstKeyOf (block : List FileRecord) : List UInt8 := (block.head?.map Prod.fst).getD []

/-- The index of blocks written from `offset` on. -/
def blockIndex (digest : List UInt8 → BlockDigest) (offset : Nat) :
    List (List FileRecord) → List SparseRunBlock
  | [] => []
  | b :: blocks =>
    ⟨firstKeyOf b, offset⟩ :: blockIndex digest (offset + (blockFrame digest b).length) blocks

section

variable {digest : List UInt8 → BlockDigest}

theorem blockIndex_append (offset : Nat) (blocks more : List (List FileRecord)) :
    blockIndex digest offset (blocks ++ more) = blockIndex digest offset blocks ++
      blockIndex digest (offset + (blocks.flatMap (blockFrame digest)).length) more := by
  induction blocks generalizing offset with
  | nil => rfl
  | cons b blocks ih =>
    rw [List.cons_append, blockIndex, ih, blockIndex, List.cons_append, List.flatMap_cons,
      List.length_append, Nat.add_assoc]

theorem blockIndex_length (offset : Nat) (blocks : List (List FileRecord)) :
    (blockIndex digest offset blocks).length = blocks.length := by
  induction blocks generalizing offset with
  | nil => rfl
  | cons b blocks ih => rw [blockIndex, List.length_cons, ih, List.length_cons]

theorem mem_blockIndex {offset : Nat} {blocks : List (List FileRecord)} {e : SparseRunBlock}
    (h : e ∈ blockIndex digest offset blocks) : ∃ b ∈ blocks, e.firstKey = firstKeyOf b := by
  induction blocks generalizing offset with
  | nil => cases h
  | cons b blocks ih =>
    rcases List.mem_cons.mp h with rfl | h
    · exact ⟨b, List.mem_cons_self, rfl⟩
    · obtain ⟨c, hc, heq⟩ := ih h
      exact ⟨c, List.mem_cons_of_mem b hc, heq⟩

namespace FileRunWriter

/-- The index has every written block, and the open block's first key is at hand. -/
structure Indexed (digest : List UInt8 → BlockDigest) (w : FileRunWriter)
    (s : List (List FileRecord) × List FileRecord) : Prop where
  index : w.sparseIndex =
    some (blockIndex digest (headerBytes w.descriptor w.blockCapacity).length s.1)
  firstKey : s.2 ≠ [] → w.blockFirstKey = some (firstKeyOf s.2)

variable {refusal : Nat → Option IoErrorKind}

theorem writeReserved_ok {w v : FileRunWriter} {bytes : List UInt8}
    (h : writeReserved refusal w bytes = .ok v) :
    v = { w with file := w.file ++ bytes, bytesWritten := w.bytesWritten + bytes.length } := by
  unfold writeReserved at h
  split_ifs at h
  split at h
  · cases h
  · cases h
    rfl

theorem flushBlock_indexed {w v : FileRunWriter} {a : RunWriter recordKey}
    {s : List (List FileRecord) × List FileRecord} (h : Represents digest w a s)
    (hi : Indexed digest w s) (hv : flushBlock digest refusal w = .ok v) :
    Indexed digest v (closeBlocks s, []) := by
  unfold flushBlock at hv
  by_cases hempty : s.2 = []
  · have hblock : w.block = [] := by
      rw [h.block, hempty]
      rfl
    rw [if_pos hblock] at hv
    cases hv
    refine ⟨?_, fun hne => absurd rfl hne⟩
    rw [hi.index, closeBlocks, if_pos hempty]
  · have hblock : w.block ≠ [] := by
      rw [h.block, ne_eq, blockPayload_eq_nil]
      exact hempty
    rw [if_neg hblock] at hv
    split_ifs at hv
    have hindexed : indexBlock w = .ok { w with
        blockFirstKey := none
        sparseIndex := some (blockIndex digest (headerBytes w.descriptor w.blockCapacity).length s.1 ++
          [⟨firstKeyOf s.2, w.bytesWritten⟩]) } := by
      unfold indexBlock
      rw [hi.index, hi.firstKey hempty]
    dsimp only [bind, Except.bind] at hv
    rw [hindexed] at hv
    dsimp only at hv
    cases hheader : writeReserved refusal { w with
        blockFirstKey := none
        sparseIndex := some (blockIndex digest (headerBytes w.descriptor w.blockCapacity).length s.1 ++
          [⟨firstKeyOf s.2, w.bytesWritten⟩]) } (blockHeader digest w.blockRecords w.block) with
    | error e =>
      rw [hheader] at hv
      cases hv
    | ok w₁ =>
      rw [hheader] at hv
      dsimp only at hv
      cases hpayload : writeReserved refusal { w₁ with block := [] } w.block with
      | error e =>
        rw [hpayload] at hv
        cases hv
      | ok w₂ =>
        rw [hpayload] at hv
        dsimp only at hv
        split_ifs at hv
        cases hv
        rw [writeReserved_ok hpayload, writeReserved_ok hheader]
        refine ⟨?_, fun hne => absurd rfl hne⟩
        dsimp only
        rw [closeBlocks, if_neg hempty, blockIndex_append, h.written, h.file, runBody,
          List.length_append]
        rfl

theorem pushRecord_indexed {w v : FileRunWriter} {a : RunWriter recordKey}
    {s : List (List FileRecord) × List FileRecord} {r : FileRecord} (h : Represents digest w a s)
    (hi : Indexed digest w s) (hv : pushRecord w r = .ok v) :
    Indexed digest v (s.1, s.2 ++ [r]) := by
  unfold pushRecord at hv
  split at hv
  · cases hv
  cases hv
  refine ⟨hi.index, fun _ => ?_⟩
  dsimp only
  have hblock : w.block = [] ↔ s.2 = [] := by rw [h.block, blockPayload_eq_nil]
  by_cases hempty : s.2 = []
  · rw [if_pos ⟨hblock.mpr hempty, by rw [hi.index]; rfl⟩, hempty]
    rfl
  · rw [if_neg fun hboth => hempty (hblock.mp hboth.1), hi.firstKey hempty]
    obtain ⟨x, xs, hxs⟩ := List.exists_cons_of_ne_nil hempty
    rw [hxs]
    rfl

/-- What a successful append takes, and where it leaves the writer. -/
theorem append_indexed {w v : FileRunWriter} {a : RunWriter recordKey}
    {s : List (List FileRecord) × List FileRecord} {r : FileRecord} (h : Represents digest w a s)
    (hi : Indexed digest w s) (hv : append digest refusal w r = .ok v) :
    recordBytes r ≤ w.blockCapacity ∧ v.descriptor = w.descriptor ∧
      v.blockCapacity = w.blockCapacity ∧ Indexed digest v (packStep w.blockCapacity s r) ∧
      ∃ a', a'.records = a.records ++ [r] ∧
        Represents digest v a' (packStep w.blockCapacity s r) := by
  have hfits : recordBytes r ≤ w.blockCapacity := by
    unfold append at hv
    split_ifs at hv <;> omega
  have hspec := append_spec refusal h hfits
  obtain ⟨a', ha⟩ : ∃ a', a.append r = .ok a' := by
    cases ha : a.append r with
    | error e =>
      rw [hspec.1 e ha] at hv
      cases hv
    | ok a' => exact ⟨a', rfl⟩
  obtain ⟨w', hw', hd, hc, hrepresents⟩ : ∃ w', append digest refusal w r = .ok w' ∧
      w'.descriptor = w.descriptor ∧ w'.blockCapacity = w.blockCapacity ∧
      Represents digest w' a' (packStep w.blockCapacity s r) := by
    rcases hspec.2 a' ha with hok | ⟨e, herror, -⟩
    · exact hok
    · rw [herror] at hv
      cases hv
  rw [hw'] at hv
  cases hv
  refine ⟨hfits, hd, hc, ?_, a', (RunWriter.append_eq_ok ha).2.2, hrepresents⟩
  unfold append at hw'
  split at hw'
  · cases hw'
  split at hw'
  · cases hw'
  split at hw'
  · cases hw'
  split at hw'
  · cases hw'
  split at hw'
  · rename_i hflush
    rw [h.block, ne_eq, blockPayload_eq_nil] at hflush
    rw [packStep, if_pos hflush]
    dsimp only [bind, Except.bind] at hw'
    cases hflushed : flushBlock digest refusal w with
    | error e =>
      rw [hflushed] at hw'
      cases hw'
    | ok u =>
      rw [hflushed] at hw'
      have hclose : closeBlocks s = s.1 ++ [s.2] := if_neg hflush.1
      have hiu := flushBlock_indexed h hi hflushed
      have hu : Represents digest u a (closeBlocks s, []) := by
        rcases flushBlock_spec refusal h with ⟨u', hu', -, -, hrep⟩ | ⟨e, herror, -⟩
        · rw [hflushed] at hu'
          cases hu'
          exact hrep
        · rw [herror] at hflushed
          cases hflushed
      rw [hclose] at hiu hu
      exact pushRecord_indexed hu hiu hw'
  · rename_i hroom
    rw [h.block, ne_eq, blockPayload_eq_nil] at hroom
    rw [packStep, if_neg hroom]
    exact pushRecord_indexed h hi hw'

theorem appendAll_indexed {records : List FileRecord} {w v : FileRunWriter}
    {a : RunWriter recordKey} {s : List (List FileRecord) × List FileRecord}
    (h : Represents digest w a s) (hi : Indexed digest w s)
    (hv : records.foldlM (append digest refusal) w = .ok v) :
    (∀ r ∈ records, recordBytes r ≤ w.blockCapacity) ∧ v.descriptor = w.descriptor ∧
      v.blockCapacity = w.blockCapacity ∧
      Indexed digest v (records.foldl (packStep w.blockCapacity) s) ∧
      ∃ a', a'.records = a.records ++ records ∧
        Represents digest v a' (records.foldl (packStep w.blockCapacity) s) := by
  induction records generalizing w a s with
  | nil =>
    cases hv
    exact ⟨by simp, rfl, rfl, hi, a, (List.append_nil _).symm, h⟩
  | cons r records ih =>
    rw [List.foldlM_cons] at hv
    cases hstep : append digest refusal w r with
    | error e =>
      rw [hstep] at hv
      cases hv
    | ok u =>
      rw [hstep] at hv
      obtain ⟨hfits, hd, hc, hiu, a₁, ha₁, hu⟩ := append_indexed h hi hstep
      obtain ⟨hall, hdv, hcv, hiv, a₂, ha₂, hv'⟩ := ih hu hiu hv
      rw [hc] at hall hiv hv'
      refine ⟨List.forall_mem_cons.mpr ⟨hfits, hall⟩, hdv.trans hd, hcv.trans hc, hiv, a₂, ?_, hv'⟩
      rw [ha₂, ha₁, List.append_assoc, List.singleton_append]

theorem sealRun_keeps {w : FileRunWriter} {run : FileSealedRun}
    (h : sealRun digest refusal w = .ok run) :
    ∃ u, flushBlock digest refusal w = .ok u ∧ run.blockCapacity = u.blockCapacity ∧
      run.sparseIndex = u.sparseIndex := by
  unfold sealRun at h
  dsimp only [bind, Except.bind] at h
  cases hu : flushBlock digest refusal w with
  | error e =>
    rw [hu] at h
    cases h
  | ok u =>
    rw [hu] at h
    dsimp only at h
    cases hfooter : writeReserved refusal u (encodeFooter u.totalRecords u.totalBlocks) with
    | error e =>
      rw [hfooter] at h
      cases h
    | ok u' =>
      rw [hfooter] at h
      cases h
      refine ⟨u, rfl, ?_, ?_⟩
      · rw [writeReserved_ok hfooter]
      · rw [writeReserved_ok hfooter]

end FileRunWriter

/-- What a sealed run of an indexed kind is. -/
structure SealedWith (digest : List UInt8 → BlockDigest) (descriptor : RunDescriptor)
    (blockCapacity : Nat) (records : List FileRecord) (run : FileSealedRun) : Prop where
  capacity : 0 < blockCapacity ∧ blockCapacity < 2 ^ 32
  sorted : SortedBy recordKey records
  fits : ∀ r ∈ records, recordBytes r ≤ blockCapacity
  same_descriptor : run.descriptor = descriptor
  same_capacity : run.blockCapacity = blockCapacity
  file : run.file = runImage digest descriptor blockCapacity (packBlocks blockCapacity records)
  bytes : run.bytes = run.file.length
  short : run.file.length < 2 ^ 64
  index : run.sparseIndex = some (blockIndex digest (headerBytes descriptor blockCapacity).length
    (packBlocks blockCapacity records))

theorem sealedWith_of_writeRunFile {refusal : Nat → Option IoErrorKind} {descriptor : RunDescriptor}
    {blockCapacity : Nat} {records : List FileRecord} {run : FileSealedRun}
    (hindexed : descriptor.kind.indexed = true)
    (hrun : writeRunFile digest refusal descriptor blockCapacity records = .ok run) :
    SealedWith digest descriptor blockCapacity records run := by
  unfold writeRunFile at hrun
  dsimp only [bind, Except.bind] at hrun
  cases hnew : FileRunWriter.new refusal [] 0 descriptor blockCapacity with
  | error e =>
    rw [hnew] at hrun
    cases hrun
  | ok w =>
    rw [hnew] at hrun
    obtain ⟨hcapacity, hd, hc, hw⟩ := FileRunWriter.new_eq_ok digest hnew
    have hiw : FileRunWriter.Indexed digest w ([], []) := by
      refine ⟨?_, fun hne => absurd rfl hne⟩
      unfold FileRunWriter.new encodeHeader at hnew
      split_ifs at hnew
      rw [FileRunWriter.writeReserved_ok hnew]
      rfl
    dsimp only at hrun
    cases hall : records.foldlM (FileRunWriter.append digest refusal) w with
    | error e =>
      rw [hall] at hrun
      cases hrun
    | ok v =>
      rw [hall] at hrun
      change FileRunWriter.sealRun digest refusal v = .ok run at hrun
      obtain ⟨hfits, hdv, hcv, hiv, a, ha, hv⟩ := FileRunWriter.appendAll_indexed hw hiw hall
      rw [hc] at hfits hiv hv
      have hrecords : a.records = records := ha
      have hsealed := FileRunWriter.sealRun_spec refusal hv
      rw [hdv.trans hd, hcv.trans hc] at hsealed
      rcases hsealed with ⟨run', hrun', hdr, hfile, hbytes, hshort⟩ | ⟨e, herror, -⟩
      · obtain ⟨u, hu, hcu, hindex⟩ := FileRunWriter.sealRun_keeps hrun
        have hiu := FileRunWriter.flushBlock_indexed hv hiv hu
        obtain ⟨hdu, hcapu⟩ : u.descriptor = v.descriptor ∧ u.blockCapacity = v.blockCapacity := by
          rcases FileRunWriter.flushBlock_spec refusal hv with ⟨u', hu', hd', hc', -⟩ | ⟨e, herror, -⟩
          · rw [hu] at hu'
            cases hu'
            exact ⟨hd', hc'⟩
          · rw [herror] at hu
            cases hu
        rw [hrun] at hrun'
        cases hrun'
        have hsorted := a.sorted
        rw [hrecords] at hsorted
        refine ⟨hcapacity, hsorted, hfits, hdr, hcu.trans (hcapu.trans (hcv.trans hc)), hfile, hbytes,
          hshort, ?_⟩
        rw [hindex, hiu.index, hdu.trans (hdv.trans hd), hcapu.trans (hcv.trans hc)]
        rfl
      · rw [herror] at hrun
        cases hrun

theorem readRunFile_sealed {descriptor : RunDescriptor} {blockCapacity : Nat}
    {records : List FileRecord} {run : FileSealedRun}
    (h : SealedWith digest descriptor blockCapacity records run)
    {running : Nat → Option IoErrorKind} (hrunning : ∀ n, running n = none) :
    readRunFile digest running run.file = .ok (descriptor, records) := by
  have hflat := packBlocks_flatten blockCapacity records
  have hshort := h.short
  rw [h.file] at hshort ⊢
  rw [readRunFile_runImage digest hrunning descriptor h.capacity.1 h.capacity.2
    (hflat.symm ▸ h.sorted) (packBlocks_full h.fits) hshort, hflat]

/-! ## Range reads -/

/-- The records a range reader delivers from `lowerBound` to the end of the run. -/
def readRange (digest : List UInt8 → BlockDigest) (run : FileSealedRun) (lowerBound : List UInt8) :
    Except RunError (List FileRecord) :=
  (run.rangeReader lowerBound).bind fun reader => reader.readToEnd digest

def atOrAbove (lowerBound : List UInt8) (r : FileRecord) : Bool := compareBytes lowerBound r.1 != .gt

/-- The range read and the sequential read deliver the same from the bound on. -/
def RangeAgrees (digest : List UInt8 → BlockDigest) (running : Nat → Option IoErrorKind)
    (run : FileSealedRun) (lowerBound : List UInt8) : Prop :=
  ∃ delivered all, readRange digest run lowerBound = .ok delivered ∧
    readRunFile digest running run.file = .ok (run.descriptor, all) ∧
    delivered.filter (atOrAbove lowerBound) = all.filter (atOrAbove lowerBound)

/-- The bound is not below the first record of the run. -/
def Reaches (records : List FileRecord) (lowerBound : List UInt8) : Prop :=
  ∀ r, records.head? = some r → compareBytes r.1 lowerBound ≠ .gt

theorem partitionPoint_blockIndex {offset : Nat} {lowerBound : List UInt8}
    {front back : List (List FileRecord)}
    (hfront : ∀ b ∈ front, compareBytes (firstKeyOf b) lowerBound ≠ .gt)
    (hback : ∀ b ∈ back, compareBytes (firstKeyOf b) lowerBound = .gt) :
    partitionPoint (fun block : SparseRunBlock => compareBytes block.firstKey lowerBound != .gt)
      (blockIndex digest offset (front ++ back)) = front.length := by
  rw [blockIndex_append, partitionPoint_append, blockIndex_length]
  · intro e he
    obtain ⟨b, hb, heq⟩ := mem_blockIndex he
    rw [heq, bne_iff_ne]
    exact hfront b hb
  · intro e he
    obtain ⟨b, hb, heq⟩ := mem_blockIndex he
    rw [heq, hback b hb]
    rfl

theorem firstKeyOf_mem {b : List FileRecord} (h : b ≠ []) : ∃ r ∈ b, firstKeyOf b = r.1 := by
  obtain ⟨r, rs, rfl⟩ := List.exists_cons_of_ne_nil h
  exact ⟨r, List.mem_cons_self, rfl⟩

/-- In a sorted run every record is below the first key of any later block. -/
theorem blocks_increasing {blocks : List (List FileRecord)}
    (hsorted : SortedBy recordKey blocks.flatten) (hne : ∀ b ∈ blocks, b ≠ []) :
    blocks.Pairwise fun b c => ∀ r ∈ b, compareBytes (firstKeyOf c) r.1 = .gt := by
  have hpairs := (List.pairwise_flatten.mp hsorted).2
  refine List.Pairwise.imp_of_mem ?_ hpairs
  intro b c _ hc hbelow r hr
  obtain ⟨x, hx, heq⟩ := firstKeyOf_mem (hne c hc)
  rw [heq, compareBytes_gt]
  exact hbelow r hr x hx

theorem below_bound {x y bound : List UInt8} (hxy : compareBytes y x = .gt)
    (hy : compareBytes y bound ≠ .gt) : compareBytes bound x = .gt :=
  compareBytes_gt.mpr (lt_of_lt_of_le (compareBytes_gt.mp hxy)
    (not_lt.mp fun hlt => hy (compareBytes_gt.mpr hlt)))

variable {descriptor : RunDescriptor} {blockCapacity : Nat} {records : List FileRecord}
  {run : FileSealedRun} {lowerBound : List UInt8}

/-- The reader of a sealed run starts where the index says. -/
theorem rangeReader_sealed (hindexed : descriptor.kind.indexed = true)
    (h : SealedWith digest descriptor blockCapacity records run) {front back : List (List FileRecord)}
    (hblocks : packBlocks blockCapacity records = front ++ back)
    (hfront : ∀ b ∈ front, compareBytes (firstKeyOf b) lowerBound ≠ .gt)
    (hback : ∀ b ∈ back, compareBytes (firstKeyOf b) lowerBound = .gt) :
    run.rangeReader lowerBound = .ok (.new run.file
      (match (if front.length = 0 then none else
        (blockIndex digest (headerBytes descriptor blockCapacity).length (front ++ back))[front.length
          - 1]?) with
        | none => run.bytes - footerBytes
        | some block => block.offset) blockCapacity) := by
  have hlong : ¬run.bytes < footerBytes := by
    rw [h.bytes, h.file, runImage, List.length_append]
    exact not_lt.mpr (Nat.le_add_left _ _)
  unfold FileSealedRun.rangeReader
  rw [h.same_descriptor, if_pos hindexed, h.index, h.same_capacity, hblocks]
  dsimp only
  rw [if_neg hlong, partitionPoint_blockIndex hfront hback]

/-- No block starts at the bound or below: the read starts at the footer. -/
theorem readRange_fallback (hindexed : descriptor.kind.indexed = true)
    (h : SealedWith digest descriptor blockCapacity records run)
    (hback : ∀ b ∈ packBlocks blockCapacity records,
      compareBytes (firstKeyOf b) lowerBound = .gt) : readRange digest run lowerBound = .ok [] := by
  have hflat := packBlocks_flatten blockCapacity records
  have hstart : run.bytes - footerBytes =
      (runBody digest descriptor blockCapacity (packBlocks blockCapacity records)).length := by
    rw [h.bytes, h.file, runImage, List.length_append]
    exact Nat.add_sub_cancel _ _
  have hshort := h.short
  rw [h.file] at hshort
  have hread := @FileRangeReader.readToEnd_new digest descriptor blockCapacity h.capacity.2
    (packBlocks blockCapacity records) []
    (by rw [List.append_nil, hflat]; exact h.sorted)
    (by rw [List.append_nil]; exact packBlocks_full h.fits) (by rw [List.append_nil]; exact hshort)
  rw [List.append_nil, ← h.file, ← hstart] at hread
  unfold readRange
  rw [rangeReader_sealed hindexed h (List.nil_append _).symm (by simp) hback]
  exact hread

/-- The read starts at the last block that starts at the bound or below. -/
theorem readRange_block (hindexed : descriptor.kind.indexed = true)
    (h : SealedWith digest descriptor blockCapacity records run) {front back : List (List FileRecord)}
    {b : List FileRecord} (hblocks : packBlocks blockCapacity records = front ++ b :: back)
    (hfront : ∀ c ∈ front ++ [b], compareBytes (firstKeyOf c) lowerBound ≠ .gt)
    (hback : ∀ c ∈ back, compareBytes (firstKeyOf c) lowerBound = .gt) :
    readRange digest run lowerBound = .ok (b :: back).flatten := by
  have hflat := packBlocks_flatten blockCapacity records
  have hshort := h.short
  have hsplit : packBlocks blockCapacity records = (front ++ [b]) ++ back := by
    rw [hblocks, List.append_assoc, List.singleton_append]
  have hentry : (blockIndex digest (headerBytes descriptor blockCapacity).length
      ((front ++ [b]) ++ back))[front.length]? =
        some ⟨firstKeyOf b, (runBody digest descriptor blockCapacity front).length⟩ := by
    rw [List.append_assoc, blockIndex_append, List.getElem?_append_right
      (by rw [blockIndex_length]), blockIndex_length, Nat.sub_self, runBody, List.length_append]
    rfl
  rw [h.file, hblocks] at hshort
  have hread := @FileRangeReader.readToEnd_new digest descriptor blockCapacity h.capacity.2
    front (b :: back) (by rw [← hblocks, hflat]; exact h.sorted)
    (by rw [← hblocks]; exact packBlocks_full h.fits) hshort
  rw [← hblocks, ← h.file] at hread
  unfold readRange
  rw [rangeReader_sealed hindexed h hsplit hfront hback, List.length_append, List.length_singleton,
    if_neg (Nat.succ_ne_zero _), Nat.add_sub_cancel, hentry]
  exact hread

theorem reaches_blocks {b : List FileRecord} {blocks : List (List FileRecord)} (hb : b ≠ []) :
    Reaches (b :: blocks).flatten lowerBound ↔ compareBytes (firstKeyOf b) lowerBound ≠ .gt := by
  obtain ⟨r, rs, rfl⟩ := List.exists_cons_of_ne_nil hb
  constructor
  · exact fun h => h r rfl
  · intro h x hx
    obtain rfl := Option.some.inj hx
    exact h

/-- What is skipped lies below the bound, unless the bound is below the run. -/
theorem readRange_sealed (hindexed : descriptor.kind.indexed = true)
    (h : SealedWith digest descriptor blockCapacity records run) (lowerBound : List UInt8) :
    (¬Reaches records lowerBound → readRange digest run lowerBound = .ok []) ∧
      (Reaches records lowerBound → ∃ skipped rest, records = skipped ++ rest ∧
        readRange digest run lowerBound = .ok rest ∧
        ∀ r ∈ skipped, compareBytes lowerBound r.1 = .gt) := by
  have hflat := packBlocks_flatten blockCapacity records
  have hne := fun b hb => (packBlocks_full h.fits b hb).1
  have hincreasing := blocks_increasing (hflat.symm ▸ h.sorted) hne
  generalize hblocks : packBlocks blockCapacity records = blocks at hflat hne hincreasing
  obtain ⟨hfront, hback⟩ := takeWhile_append_dropWhile_of_pairwise
    (p := fun b => compareBytes (firstKeyOf b) lowerBound != .gt) (l := blocks) (by
      refine List.Pairwise.imp_of_mem ?_ hincreasing
      intro b c hb _ hbelow hc
      rw [bne_iff_ne] at hc ⊢
      obtain ⟨r, hr, heq⟩ := firstKeyOf_mem (hne b hb)
      rw [heq]
      intro hgt
      have hbound := below_bound (hbelow r hr) hc
      exact lt_asymm (compareBytes_gt.mp hgt) (compareBytes_gt.mp hbound))
  have hsplit := List.takeWhile_append_dropWhile
    (p := fun b => compareBytes (firstKeyOf b) lowerBound != .gt) (l := blocks)
  generalize blocks.takeWhile (fun b => compareBytes (firstKeyOf b) lowerBound != .gt) = front
    at hfront hsplit
  generalize blocks.dropWhile (fun b => compareBytes (firstKeyOf b) lowerBound != .gt) = back
    at hback hsplit
  have hfront : ∀ b ∈ front, compareBytes (firstKeyOf b) lowerBound ≠ .gt :=
    fun b hb => bne_iff_ne.mp (hfront b hb)
  have hback : ∀ b ∈ back, compareBytes (firstKeyOf b) lowerBound = .gt :=
    fun b hb => not_not.mp (mt bne_iff_ne.mpr (by rw [hback b hb]; exact Bool.false_ne_true))
  rcases List.eq_nil_or_concat front with rfl | ⟨front, b, rfl⟩
  · -- every block starts above the bound
    rw [List.nil_append] at hsplit
    subst hsplit
    have hread := readRange_fallback hindexed h (by rw [hblocks]; exact hback)
    refine ⟨fun _ => hread, ?_⟩
    intro hreaches
    cases back with
    | nil => exact ⟨[], [], hflat.symm, hread, by simp⟩
    | cons b back =>
      rw [← hflat, reaches_blocks (hne b List.mem_cons_self)] at hreaches
      exact absurd (hback b List.mem_cons_self) hreaches
  · -- the last block that starts at the bound or below
    rw [List.concat_eq_append] at hfront hsplit
    have hblocks' : blocks = front ++ b :: back := by
      rw [← hsplit, List.append_assoc, List.singleton_append]
    have hreaches : Reaches records lowerBound := by
      rw [← hflat, hblocks']
      cases front with
      | nil => exact (reaches_blocks (hne b (by rw [hblocks']; simp))).mpr (hfront b (by simp))
      | cons c front =>
        exact (reaches_blocks (hne c (by rw [hblocks']; simp))).mpr (hfront c (by simp))
    refine ⟨fun hnot => absurd hreaches hnot, fun _ => ⟨front.flatten, (b :: back).flatten, ?_,
      readRange_block hindexed h (hblocks.trans hblocks') hfront hback, ?_⟩⟩
    · rw [← hflat, hblocks', List.flatten_append]
    · intro r hr
      obtain ⟨c, hc, hrc⟩ := List.mem_flatten.mp hr
      rw [hblocks'] at hincreasing
      have hbelow := (List.pairwise_append.mp hincreasing).2.2 c hc b List.mem_cons_self r hrc
      exact below_bound hbelow (hfront b (by simp))

/-- A range read of a sealed indexed run and a sequential read deliver the same records at or above
the bound exactly when the bound is not below the first record of the run. -/
theorem range_agrees_iff (digest : List UInt8 → BlockDigest) (refusal : Nat → Option IoErrorKind)
    (running : Nat → Option IoErrorKind) (descriptor : RunDescriptor) (blockCapacity : Nat)
    (records : List FileRecord) (run : FileSealedRun) (lowerBound : List UInt8)
    (hindexed : descriptor.kind.indexed = true)
    (hrun : writeRunFile digest refusal descriptor blockCapacity records = .ok run)
    (hrunning : ∀ n, running n = none) :
    RangeAgrees digest running run lowerBound ↔ Reaches records lowerBound := by
  have h := sealedWith_of_writeRunFile hindexed hrun
  have hall := readRunFile_sealed h hrunning
  rw [← h.same_descriptor] at hall
  obtain ⟨hmissed, hreached⟩ := readRange_sealed hindexed h lowerBound
  constructor
  · rintro ⟨delivered, all, hdelivered, hsequential, hsame⟩
    by_contra hnot
    rw [hmissed hnot] at hdelivered
    rw [hall] at hsequential
    cases hdelivered
    cases hsequential
    refine hnot ?_
    intro r hr hgt
    -- the first record is above the bound, and nothing was delivered
    have hmem : r ∈ records.filter (atOrAbove lowerBound) := by
      refine List.mem_filter.mpr ⟨List.mem_of_mem_head? hr, ?_⟩
      rw [atOrAbove, bne_iff_ne]
      intro hbelow
      exact lt_asymm (compareBytes_gt.mp hgt) (compareBytes_gt.mp hbelow)
    rw [← hsame] at hmem
    cases hmem
  · intro hreaches
    obtain ⟨skipped, rest, rfl, hread, hbelow⟩ := hreached hreaches
    refine ⟨rest, skipped ++ rest, hread, hall, ?_⟩
    have hnone : skipped.filter (atOrAbove lowerBound) = [] := by
      rw [List.filter_eq_nil_iff]
      intro r hr
      rw [atOrAbove, hbelow r hr]
      exact Bool.false_ne_true
    rw [List.filter_append, hnone, List.nil_append]

end

/-- Two records share a block, the third opens another. -/
def threeRecords : List FileRecord := [([1], [2]), ([1, 1], []), ([3], [])]

theorem range_agrees_iff_second_block : ∃ run,
    writeRunFile (fun _ => ⟨List.replicate 32 0, rfl⟩) (fun _ => none) ⟨⟨7⟩, 42, .ChildQuery⟩ 20
      threeRecords = .ok run ∧
    (RangeAgrees (fun _ => ⟨List.replicate 32 0, rfl⟩) (fun _ => none) run [2] ↔
      Reaches threeRecords [2]) :=
  ⟨_, rfl, range_agrees_iff _ (fun _ => none) (fun _ => none) ⟨⟨7⟩, 42, .ChildQuery⟩ 20 threeRecords _
    [2] rfl rfl fun _ => rfl⟩

/-- A bound below the first key reads nothing. -/
theorem range_below_run_reads_nothing :
    ¬∀ (digest : List UInt8 → BlockDigest) (refusal running : Nat → Option IoErrorKind)
      (descriptor : RunDescriptor) (blockCapacity : Nat) (records : List FileRecord)
      (run : FileSealedRun) (lowerBound : List UInt8), descriptor.kind.indexed = true →
      writeRunFile digest refusal descriptor blockCapacity records = .ok run →
      (∀ n, running n = none) → RangeAgrees digest running run lowerBound := by
  intro hall
  obtain ⟨run, hrun⟩ : ∃ run, writeRunFile (fun _ => ⟨List.replicate 32 0, rfl⟩) (fun _ => none)
    ⟨⟨7⟩, 42, .ChildQuery⟩ 20 threeRecords = .ok run := ⟨_, rfl⟩
  have hsealed := sealedWith_of_writeRunFile rfl hrun
  obtain ⟨delivered, all, hdelivered, hsequential, hsame⟩ :=
    hall _ _ (fun _ => none) _ _ _ _ [0] rfl hrun fun _ => rfl
  have hmissed := (readRange_sealed rfl hsealed [0]).1 fun hreaches =>
    absurd (hreaches ([1], [2]) rfl) (by decide)
  have hread := @readRunFile_sealed _ _ _ _ _ hsealed (fun _ => none) fun _ => rfl
  rw [hmissed] at hdelivered
  cases hdelivered
  rw [hread] at hsequential
  obtain rfl := (Prod.mk.inj (Except.ok.inj hsequential)).2
  have hlength := congrArg List.length hsame
  revert hlength
  decide

end Excise
