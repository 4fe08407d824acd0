import Excise.Codec.RunWriter

/-!
# Reading run files

`RunReader` over the bytes of its file: frames are taken from the front of what is left, records
from the decoded block. The session may stop a pass before any frame.
-/

namespace Excise
set_option autoImplicit false

open ByteReader

def RunKind.fromCode (value : UInt8) : Option RunKind :=
  if value = 1 then some .PathObservation
  else if value = 2 then some .IdentityObservation
  else if value = 3 then some .AllocationContribution
  else if value = 4 then some .DirectorySummary
  else if value = 5 then some .ChildQuery
  else if value = 6 then some .PathCatalog
  else none

/-- `decode_header`: all of it is read before any of it is checked. -/
def decodeHeader : ByteReader RunError (RunDescriptor × Nat) := do
  let magic ← take .Truncated 4
  let version ← le .Truncated 2
  let code ← byte .Truncated
  let zero ← byte .Truncated
  let generation ← le .Truncated 8
  let runId ← le .Truncated 8
  let blockCapacity ← le .Truncated 4
  require .InvalidHeader (magic == runMagic && version == runVersion && zero == 0)
  let kind ← ofOption .InvalidHeader (RunKind.fromCode code)
  require .InvalidHeader (blockCapacity != 0)
  return (⟨⟨UInt64.ofNat generation⟩, UInt64.ofNat runId, kind⟩, blockCapacity)

/-- What follows a header or a block. -/
inductive RunFrame where
  | footer (records blocks : Nat)
  | block (records : Nat) (payload : List UInt8)

def readFrame (digest : List UInt8 → BlockDigest) (blockCapacity : Nat) :
    ByteReader RunError RunFrame := do
  let tag ← take .Truncated 4
  if tag = footerMagic then
    let records ← le .Truncated 8
    let blocks ← le .Truncated 8
    return .footer records blocks
  else
    require .InvalidBlock (tag == blockMagic)
    let records ← le .Truncated 4
    let payloadLength ← le .Truncated 4
    require .InvalidBlock (records != 0 && payloadLength != 0 && decide (payloadLength ≤ blockCapacity))
    let expectedDigest ← take .Truncated 32
    let payload ← take .Truncated payloadLength
    require .ChecksumMismatch ((digest payload).1 == expectedDigest)
    return .block records payload

/-- `RunReader`, with the part of its file that is still to be read. -/
structure FileRunReader where
  rest : List UInt8
  descriptor : RunDescriptor
  blockCapacity : Nat
  block : List UInt8
  blockCursor : Nat
  blockRecords : Nat
  totalRecords : Nat
  totalBlocks : Nat
  lastKey : List UInt8
  hasKey : Bool
  consumed : Bool
  finished : Bool

/-- `read_length`: the length and the cursor behind it. -/
def readLength (payload : List UInt8) (cursor : Nat) : Except RunError (Nat × Nat) :=
  if payload.length < cursor + 4 then .error .InvalidBlock
  else .ok (leNat ((payload.drop cursor).take 4), cursor + 4)

/-! ## What the frame readers accept -/

theorem fromCode_eq_some {value : UInt8} {kind : RunKind} :
    RunKind.fromCode value = some kind ↔ value = kind.code := by
  constructor
  · intro h
    unfold RunKind.fromCode at h
    split_ifs at h <;> cases h <;> assumption
  · rintro rfl
    cases kind <;> rfl

theorem decodeHeader_ok {input rest : List UInt8} {d : RunDescriptor} {blockCapacity : Nat} :
    decodeHeader.run input = .ok ((d, blockCapacity), rest) ↔
      (0 < blockCapacity ∧ blockCapacity < 2 ^ 32) ∧ input = headerBytes d blockCapacity ++ rest := by
  unfold decodeHeader
  simp only [bind_ok, take_ok, le_ok, byte_ok, require_ok, ofOption_ok, fromCode_eq_some, pure_ok,
    Bool.and_eq_true, beq_iff_eq, bne_iff_ne]
  constructor
  · rintro ⟨magic, _, ⟨-, rfl⟩, version, _, ⟨-, rfl⟩, code, _, rfl, zero, _, rfl, generation, _, ⟨hg, rfl⟩,
      runId, _, ⟨hr, rfl⟩, capacity, _, ⟨hc, rfl⟩, -, _, ⟨⟨⟨rfl, rfl⟩, rfl⟩, rfl⟩, kind, _, ⟨rfl, rfl⟩, -, _,
      ⟨hzero, rfl⟩, heq, rfl⟩
    cases heq
    refine ⟨⟨by omega, hc⟩, ?_⟩
    unfold headerBytes
    dsimp only
    rw [UInt64.toNat_ofNat_of_lt' hg, UInt64.toNat_ofNat_of_lt' hr]
    simp only [List.append_assoc, List.cons_append]
  · rintro ⟨⟨hzero, hcapacity⟩, rfl⟩
    refine ⟨runMagic, _, ⟨rfl, ?_⟩, runVersion, _, ⟨by decide, rfl⟩, d.kind.code, _, rfl, 0, _, rfl,
      d.generation.value.toNat, _, ⟨d.generation.value.toNat_lt, rfl⟩, d.runId.toNat, _,
      ⟨d.runId.toNat_lt, rfl⟩, blockCapacity, rest, ⟨hcapacity, rfl⟩, (), _, ⟨⟨⟨rfl, rfl⟩, rfl⟩, rfl⟩,
      d.kind, _, ⟨rfl, rfl⟩, (), _, ⟨by omega, rfl⟩, ?_, rfl⟩
    · unfold headerBytes
      simp only [List.append_assoc, List.cons_append]
    · rw [UInt64.ofNat_toNat, UInt64.ofNat_toNat]

section

variable {digest : List UInt8 → BlockDigest} {blockCapacity : Nat} {input rest : List UInt8}

theorem magics_ne : blockMagic ≠ footerMagic := by decide

theorem readFrame_footer_ok {records blocks : Nat} :
    (readFrame digest blockCapacity).run input = .ok (.footer records blocks, rest) ↔
      records < 2 ^ 64 ∧ blocks < 2 ^ 64 ∧ input = encodeFooter records blocks ++ rest := by
  unfold readFrame
  rw [bind_ok]
  constructor
  · rintro ⟨tag, mid, htag, hrest⟩
    obtain ⟨-, rfl⟩ := take_ok.mp htag
    by_cases hfooter : tag = footerMagic
    · rw [if_pos hfooter] at hrest
      simp only [bind_ok, le_ok, pure_ok] at hrest
      obtain ⟨n, _, ⟨hn, rfl⟩, m, _, ⟨hm, rfl⟩, heq, rfl⟩ := hrest
      cases heq
      refine ⟨hn, hm, ?_⟩
      unfold encodeFooter
      rw [hfooter]
      simp only [List.append_assoc]
    · rw [if_neg hfooter] at hrest
      simp only [bind_ok, le_ok, take_ok, require_ok, pure_ok] at hrest
      obtain ⟨-, _, -, n, _, -, m, _, -, -, _, -, d, _, -, payload, _, -, -, _, -, heq, -⟩ := hrest
      cases heq
  · rintro ⟨hrecords, hblocks, rfl⟩
    refine ⟨footerMagic, _, take_ok.mpr ⟨rfl, by unfold encodeFooter; rw [List.append_assoc]⟩, ?_⟩
    rw [if_pos rfl]
    simp only [bind_ok, le_ok, pure_ok]
    exact ⟨records, _, ⟨hrecords, List.append_assoc _ _ _⟩, blocks, rest, ⟨hblocks, rfl⟩, rfl, rfl⟩

theorem readFrame_block_ok {records : Nat} {payload : List UInt8} :
    (readFrame digest blockCapacity).run input = .ok (.block records payload, rest) ↔
      (records ≠ 0 ∧ records < 2 ^ 32) ∧ (payload ≠ [] ∧ payload.length ≤ blockCapacity ∧
        payload.length < 2 ^ 32) ∧
      input = FileRunWriter.blockHeader digest records payload ++ payload ++ rest := by
  unfold readFrame FileRunWriter.blockHeader
  rw [bind_ok]
  constructor
  · rintro ⟨tag, mid, htag, hrest⟩
    obtain ⟨-, rfl⟩ := take_ok.mp htag
    by_cases hfooter : tag = footerMagic
    · rw [if_pos hfooter] at hrest
      simp only [bind_ok, le_ok, pure_ok] at hrest
      obtain ⟨n, _, -, m, _, -, heq, -⟩ := hrest
      cases heq
    · rw [if_neg hfooter] at hrest
      simp only [bind_ok, le_ok, take_ok, require_ok, pure_ok, Bool.and_eq_true, bne_iff_ne,
        decide_eq_true_eq, beq_iff_eq] at hrest
      obtain ⟨-, _, ⟨rfl, rfl⟩, n, _, ⟨hn, rfl⟩, m, _, ⟨hm, rfl⟩, -, _, ⟨⟨⟨hn0, hm0⟩, hcap⟩, rfl⟩, d, _,
        ⟨-, rfl⟩, bytes, _, ⟨hlength, rfl⟩, -, _, ⟨hdigest, rfl⟩, heq, rfl⟩ := hrest
      cases heq
      refine ⟨⟨hn0, hn⟩, ⟨?_, hlength ▸ hcap, hlength ▸ hm⟩, ?_⟩
      · rintro rfl
        exact hm0 hlength.symm
      · rw [hlength, hdigest]
        simp only [List.append_assoc]
  · rintro ⟨⟨hn0, hn⟩, ⟨hne, hcap, hm⟩, rfl⟩
    simp only [List.append_assoc]
    refine ⟨blockMagic, _, take_ok.mpr ⟨rfl, rfl⟩, ?_⟩
    rw [if_neg magics_ne]
    simp only [bind_ok, le_ok, take_ok, require_ok, pure_ok, Bool.and_eq_true, bne_iff_ne,
      decide_eq_true_eq, beq_iff_eq]
    have hm0 : payload.length ≠ 0 := fun h => hne (List.eq_nil_of_length_eq_zero h)
    exact ⟨(), _, ⟨trivial, rfl⟩, records, _, ⟨hn, rfl⟩, payload.length, _, ⟨hm, rfl⟩, (), _,
      ⟨⟨⟨hn0, hm0⟩, hcap⟩, rfl⟩, (digest payload).1, _, ⟨(digest payload).2, rfl⟩, payload, rest,
      ⟨rfl, rfl⟩, (), rest, ⟨rfl, rfl⟩, rfl, rfl⟩

end

namespace FileRunReader

def openFile (file : List UInt8) : Except RunError FileRunReader :=
  match decodeHeader.run file with
  | .error e => .error e
  | .ok ((descriptor, blockCapacity), rest) =>
    .ok ⟨rest, descriptor, blockCapacity, [], 0, 0, 0, 0, [], false, false, false⟩

variable (digest : List UInt8 → BlockDigest) (running : Nat → Option IoErrorKind)

/-- Answers whether a block was loaded: at the footer none is. -/
def loadNextBlock (r : FileRunReader) : Except RunError (Bool × FileRunReader) :=
  match running r.totalBlocks with
  | some kind => .error (.Io kind)
  | none =>
    match (readFrame digest r.blockCapacity).run r.rest with
    | .error e => .error e
    | .ok (.footer records blocks, rest) =>
      if r.totalRecords ≠ records ∨ r.totalBlocks ≠ blocks then .error .InvalidBlock
      else if rest ≠ [] then .error .TrailingData
      else .ok (false, { r with rest := rest, finished := true })
    | .ok (.block records payload, rest) =>
      if 2 ^ 64 ≤ r.totalBlocks + 1 then .error .CountOverflow
      else .ok (true, { r with
        rest := rest, block := payload, blockCursor := 0, blockRecords := records,
        totalBlocks := r.totalBlocks + 1 })

/-- The next record of the decoded block. -/
def readRecord (r : FileRunReader) : Except RunError (FileRecord × FileRunReader) :=
  match readLength r.block r.blockCursor with
  | .error e => .error e
  | .ok (keyLength, cursor) =>
    match readLength r.block cursor with
    | .error e => .error e
    | .ok (valueLength, cursor) =>
      let keyEnd := cursor + keyLength
      let valueEnd := keyEnd + valueLength
      let inputKey := (r.block.drop cursor).take keyLength
      let value := (r.block.drop keyEnd).take valueLength
      if r.block.length < valueEnd then .error .InvalidBlock
      else if r.hasKey = true ∧ compareBytes inputKey r.lastKey ≠ .gt then .error .UnsortedKey
      else if r.blockRecords = 0 then .error .InvalidBlock
      else if r.blockRecords - 1 = 0 ∧ valueEnd ≠ r.block.length then .error .InvalidBlock
      else if 2 ^ 64 ≤ r.totalRecords + 1 then .error .CountOverflow
      else .ok ((inputKey, value), { r with
        lastKey := inputKey, hasKey := true, blockCursor := valueEnd,
        blockRecords := r.blockRecords - 1, totalRecords := r.totalRecords + 1 })

/-- `next_record_into`: the next record, or none behind the footer. -/
def nextRecord (r : FileRunReader) : Except RunError (Option FileRecord × FileRunReader) :=
  if r.finished then .ok (none, r)
  else if r.blockRecords = 0 then
    match loadNextBlock digest running { r with consumed := true } with
    | .error e => .error e
    | .ok (false, r) => .ok (none, r)
    | .ok (true, r) => (readRecord r).map fun (record, r) => (some record, r)
  else (readRecord { r with consumed := true }).map fun (record, r) => (some record, r)

/-- What is left to read. -/
def remaining (r : FileRunReader) : Nat := r.rest.length + (r.block.length - r.blockCursor)

/-! ## One record -/

theorem readLength_ok {payload : List UInt8} {cursor n c : Nat} :
    readLength payload cursor = .ok (n, c) ↔ c = cursor + 4 ∧ n < 2 ^ 32 ∧
      payload.drop cursor = leBytes 4 n ++ payload.drop c := by
  unfold readLength
  constructor
  · intro h
    split at h
    · cases h
    rename_i hlong
    cases h
    have htake : ((payload.drop cursor).take 4).length = 4 := by
      rw [List.length_take, List.length_drop]
      omega
    have hlt := leNat_lt ((payload.drop cursor).take 4)
    have hbytes := leBytes_leNat ((payload.drop cursor).take 4)
    rw [htake] at hlt hbytes
    refine ⟨rfl, hlt, ?_⟩
    rw [hbytes, ← List.drop_drop, List.take_append_drop]
  · rintro ⟨rfl, hn, hdrop⟩
    have hlength := congrArg List.length hdrop
    rw [List.length_append, leBytes_length, List.length_drop] at hlength
    rw [if_neg (by omega), hdrop, List.take_left' (leBytes_length 4 n), leNat_leBytes hn]

/-- The reader behind the record it just read. -/
def advance (r : FileRunReader) (record : FileRecord) : FileRunReader :=
  { r with
    lastKey := record.1, hasKey := true, blockCursor := r.blockCursor + recordBytes record,
    blockRecords := r.blockRecords - 1, totalRecords := r.totalRecords + 1 }

/-- When the next record is read: it is there whole, above the last key and, as the last of its
block, at the end. -/
structure Next (r : FileRunReader) (record : FileRecord) : Prop where
  lengths : record.1.length < 2 ^ 32 ∧ record.2.length < 2 ^ 32
  bytes : r.block.drop r.blockCursor
    = encodeRecord record ++ r.block.drop (r.blockCursor + recordBytes record)
  above : r.hasKey = true → compareBytes record.1 r.lastKey = .gt
  counted : r.blockRecords ≠ 0
  last : r.blockRecords = 1 → r.block.length = r.blockCursor + recordBytes record
  total : r.totalRecords + 1 < 2 ^ 64

theorem readRecord_ok {r r' : FileRunReader} {record : FileRecord} :
    readRecord r = .ok (record, r') ↔ Next r record ∧ r' = advance r record := by
  unfold readRecord
  constructor
  · intro h
    split at h
    · cases h
    rename_i keyLength cursor hkeyLength
    obtain ⟨rfl, hk, hkeyDrop⟩ := readLength_ok.mp hkeyLength
    split at h
    · cases h
    rename_i valueLength cursor hvalueLength
    obtain ⟨rfl, hv, hvalueDrop⟩ := readLength_ok.mp hvalueLength
    dsimp only at h
    split_ifs at h with hlong hkeys hzero hlast htotal
    have hkey : ((r.block.drop (r.blockCursor + 4 + 4)).take keyLength).length = keyLength := by
      rw [List.length_take, List.length_drop]
      omega
    have hvalue : ((r.block.drop (r.blockCursor + 4 + 4 + keyLength)).take valueLength).length
        = valueLength := by
      rw [List.length_take, List.length_drop]
      omega
    generalize hkeyEq : (r.block.drop (r.blockCursor + 4 + 4)).take keyLength = key at *
    generalize hvalueEq : (r.block.drop (r.blockCursor + 4 + 4 + keyLength)).take valueLength = value at *
    cases h
    have hend : r.blockCursor + recordBytes (key, value)
        = r.blockCursor + 4 + 4 + keyLength + valueLength := by
      rw [recordBytes, recordLengthBytes, hkey, hvalue]
      omega
    have hbytes : r.block.drop r.blockCursor
        = encodeRecord (key, value) ++ r.block.drop (r.blockCursor + recordBytes (key, value)) := by
      rw [hkeyDrop, hvalueDrop, hend, ← List.take_append_drop keyLength
        (r.block.drop (r.blockCursor + 4 + 4)), List.drop_drop, hkeyEq, ← List.take_append_drop
        valueLength (r.block.drop (r.blockCursor + 4 + 4 + keyLength)), List.drop_drop, hvalueEq,
        encodeRecord, hkey, hvalue]
      simp only [List.append_assoc]
    refine ⟨⟨⟨hkey ▸ hk, hvalue ▸ hv⟩, hbytes, ?_, hzero, ?_, by omega⟩, ?_⟩
    · intro hhas
      exact not_not.mp fun hle => hkeys ⟨hhas, hle⟩
    · intro hone
      rw [hend]
      exact (not_not.mp fun hne => hlast ⟨by omega, hne⟩).symm
    · unfold advance
      rw [hend]
  · rintro ⟨h, rfl⟩
    obtain ⟨key, value⟩ := record
    have hbytes := h.bytes
    unfold encodeRecord at hbytes
    simp only [List.append_assoc] at hbytes
    have hrecord : recordBytes (key, value) = 8 + key.length + value.length := rfl
    have hdrop4 : r.block.drop (r.blockCursor + 4) = leBytes 4 value.length ++
        (key ++ (value ++ r.block.drop (r.blockCursor + recordBytes (key, value)))) := by
      rw [← List.drop_drop, hbytes, List.drop_left' (leBytes_length 4 _)]
    have hdrop8 : r.block.drop (r.blockCursor + 4 + 4)
        = key ++ (value ++ r.block.drop (r.blockCursor + recordBytes (key, value))) := by
      rw [← List.drop_drop, hdrop4, List.drop_left' (leBytes_length 4 _)]
    have hdropKey : r.block.drop (r.blockCursor + 4 + 4 + key.length)
        = value ++ r.block.drop (r.blockCursor + recordBytes (key, value)) := by
      rw [← List.drop_drop, hdrop8, List.drop_left]
    rw [readLength_ok.mpr ⟨rfl, h.lengths.1, by rw [hdrop4]; exact hbytes⟩]
    dsimp only
    rw [readLength_ok.mpr ⟨rfl, h.lengths.2, by rw [hdrop8]; exact hdrop4⟩]
    dsimp only
    rw [hdrop8, hdropKey, List.take_left, List.take_left]
    have hlength := congrArg List.length h.bytes
    rw [List.length_drop, List.length_append, encodeRecord_length, List.length_drop] at hlength
    have hend : r.blockCursor + 4 + 4 + key.length + value.length
        = r.blockCursor + recordBytes (key, value) := by omega
    rw [hend, if_neg (by omega), if_neg fun hboth => hboth.2 (h.above hboth.1), if_neg h.counted,
      if_neg fun hboth => hboth.2 (h.last (by have := h.counted; omega)).symm,
      if_neg (not_le.mpr h.total)]
    rfl

/-! ## A whole pass -/

theorem Next.remaining_lt {r : FileRunReader} {record : FileRecord} (h : Next r record) :
    (advance r record).remaining < r.remaining := by
  have hlength := congrArg List.length h.bytes
  rw [List.length_drop, List.length_append, encodeRecord_length, List.length_drop] at hlength
  have hrecord : 8 ≤ recordBytes record := by
    rw [recordBytes, recordLengthBytes]
    omega
  unfold remaining advance
  dsimp only
  omega

variable {digest : List UInt8 → BlockDigest} {running : Nat → Option IoErrorKind}

/-- How a block is loaded, or the footer passed. -/
theorem loadNextBlock_ok {r r' : FileRunReader} {loaded : Bool}
    (h : loadNextBlock digest running r = .ok (loaded, r')) :
    (loaded = false ∧ r.totalRecords < 2 ^ 64 ∧ r.rest = encodeFooter r.totalRecords r.totalBlocks ∧
      r' = { r with rest := [], finished := true }) ∨
    ∃ records payload rest, loaded = true ∧ records ≠ 0 ∧ payload ≠ [] ∧
      r.rest = FileRunWriter.blockHeader digest records payload ++ payload ++ rest ∧
      r' = { r with
        rest := rest, block := payload, blockCursor := 0, blockRecords := records,
        totalBlocks := r.totalBlocks + 1 } := by
  unfold loadNextBlock at h
  split at h
  · cases h
  split at h
  · cases h
  · rename_i records blocks rest hframe
    obtain ⟨hrecords, -, hrest⟩ := readFrame_footer_ok.mp hframe
    split_ifs at h with hcounts htrailing
    obtain ⟨hr, hb⟩ := not_or.mp hcounts
    rw [not_not] at hr hb htrailing
    cases h
    subst hr hb htrailing
    exact Or.inl ⟨rfl, hrecords, by rw [hrest, List.append_nil], rfl⟩
  · rename_i records payload rest hframe
    obtain ⟨⟨hzero, -⟩, ⟨hne, -⟩, hrest⟩ := readFrame_block_ok.mp hframe
    split_ifs at h
    cases h
    exact Or.inr ⟨records, payload, rest, rfl, hzero, hne, hrest, rfl⟩

/-- A record comes from the block at hand or from the next one. -/
theorem nextRecord_some {r r' : FileRunReader} {record : FileRecord}
    (h : nextRecord digest running r = .ok (some record, r')) :
    r.finished = false ∧ ∃ s, Next s record ∧ r' = advance s record ∧
      (s = { r with consumed := true } ∨ ∃ records payload rest, payload ≠ [] ∧
        r.rest = FileRunWriter.blockHeader digest records payload ++ payload ++ rest ∧
        s = { r with
          rest := rest, block := payload, blockCursor := 0, blockRecords := records,
          totalBlocks := r.totalBlocks + 1, consumed := true }) := by
  unfold nextRecord at h
  split_ifs at h with hfinished hload
  · cases h
  · refine ⟨by simpa using hfinished, ?_⟩
    split at h
    · cases h
    · cases h
    rename_i s hloaded
    obtain ⟨⟨rec, r''⟩, hread, heq⟩ := map_eq_ok h
    cases heq
    obtain ⟨hnext, hadvance⟩ := readRecord_ok.mp hread
    refine ⟨s, hnext, hadvance, Or.inr ?_⟩
    rcases loadNextBlock_ok hloaded with ⟨hfalse, -⟩ | ⟨records, payload, rest, -, -, hne, hrest, hs⟩
    · cases hfalse
    · exact ⟨records, payload, rest, hne, hrest, hs⟩
  · refine ⟨by simpa using hfinished, ?_⟩
    obtain ⟨⟨rec, r''⟩, hread, heq⟩ := map_eq_ok h
    cases heq
    obtain ⟨hnext, hadvance⟩ := readRecord_ok.mp hread
    exact ⟨_, hnext, hadvance, Or.inl rfl⟩

theorem nextRecord_remaining_lt {r r' : FileRunReader} {record : FileRecord}
    (h : nextRecord digest running r = .ok (some record, r')) : r'.remaining < r.remaining := by
  obtain ⟨-, s, hnext, rfl, hs⟩ := nextRecord_some h
  refine lt_of_lt_of_le hnext.remaining_lt ?_
  rcases hs with rfl | ⟨records, payload, rest, -, hrest, rfl⟩
  · exact le_refl _
  · unfold remaining
    dsimp only
    rw [hrest]
    simp only [List.length_append]
    omega

variable (digest running)

/-- The loop of `visit_records` with a visitor that keeps every record. -/
def readToEnd (r : FileRunReader) : Except RunError (List FileRecord) :=
  match _h : nextRecord digest running r with
  | .error e => .error e
  | .ok (none, _) => .ok []
  | .ok (some record, r') => (readToEnd r').map (record :: ·)
termination_by r.remaining
decreasing_by exact nextRecord_remaining_lt _h

def visitRecords (r : FileRunReader) : Except RunError (List FileRecord) :=
  if r.consumed then .error .AlreadyConsumed else readToEnd digest running r

variable {digest running}

theorem readToEnd_error {r : FileRunReader} {e : RunError}
    (h : nextRecord digest running r = .error e) : readToEnd digest running r = .error e := by
  rw [readToEnd]
  split <;> rename_i heq <;> rw [h] at heq <;> cases heq
  rfl

theorem readToEnd_none {r r' : FileRunReader} (h : nextRecord digest running r = .ok (none, r')) :
    readToEnd digest running r = .ok [] := by
  rw [readToEnd]
  split <;> rename_i heq <;> rw [h] at heq <;> cases heq

theorem readToEnd_some {r r' : FileRunReader} {record : FileRecord}
    (h : nextRecord digest running r = .ok (some record, r')) :
    readToEnd digest running r = (readToEnd digest running r').map (record :: ·) := by
  rw [readToEnd]
  split <;> rename_i heq <;> rw [h] at heq <;> cases heq
  rfl

/-- What is read to the end is sorted, above what was read before, and counted by the footer. -/
theorem readToEnd_sound {r : FileRunReader} {records : List FileRecord} (hopen : r.finished = false)
    (h : readToEnd digest running r = .ok records) :
    SortedBy recordKey records ∧
    (r.hasKey = true → ∀ x ∈ records, compareBytes x.1 r.lastKey = .gt) ∧
    r.totalRecords + records.length < 2 ^ 64 ∧
    ∃ body blocks, r.rest = body ++ encodeFooter (r.totalRecords + records.length) blocks := by
  induction hn : r.remaining using Nat.strong_induction_on generalizing r records with
  | _ n ih =>
    cases hnext : nextRecord digest running r with
    | error e =>
      rw [readToEnd_error hnext] at h
      cases h
    | ok x =>
      obtain ⟨record, r'⟩ := x
      cases record with
      | none =>
        rw [readToEnd_none hnext] at h
        cases h
        unfold nextRecord at hnext
        rw [hopen, if_neg Bool.false_ne_true] at hnext
        split_ifs at hnext
        · split at hnext
          · cases hnext
          · rename_i s hloaded
            rcases loadNextBlock_ok hloaded with ⟨-, htotal, hrest, -⟩ | ⟨_, _, _, htrue, -⟩
            · exact ⟨List.Pairwise.nil, by simp, htotal, [], r.totalBlocks, hrest⟩
            · cases htrue
          · obtain ⟨_, _, heq⟩ := map_eq_ok hnext
            cases heq
        · obtain ⟨_, _, heq⟩ := map_eq_ok hnext
          cases heq
      | some record =>
        rw [readToEnd_some hnext] at h
        obtain ⟨more, hmore, rfl⟩ := map_eq_ok h
        obtain ⟨-, s, hs, rfl, hfrom⟩ := nextRecord_some hnext
        have hsopen : s.finished = false ∧ s.hasKey = r.hasKey ∧ s.lastKey = r.lastKey ∧
            s.totalRecords = r.totalRecords ∧ ∃ front, r.rest = front ++ s.rest := by
          rcases hfrom with rfl | ⟨_, payload, rest, -, hrest, rfl⟩
          · exact ⟨hopen, rfl, rfl, rfl, [], rfl⟩
          · exact ⟨hopen, rfl, rfl, rfl, _, hrest⟩
        obtain ⟨hsf, hsk, hsl, hst, front, hfront⟩ := hsopen
        have habove := hs.above
        rw [hsk, hsl] at habove
        obtain ⟨hsorted, hlower, hbound, body, blocks, hrest⟩ :=
          ih _ (hn ▸ nextRecord_remaining_lt hnext) (r := advance s record) hsf hmore rfl
        have hlower : ∀ x ∈ more, compareBytes x.1 record.1 = .gt := hlower rfl
        have htotal : (advance s record).totalRecords + more.length
            = r.totalRecords + (record :: more).length := by
          show s.totalRecords + 1 + more.length = _
          rw [hst, List.length_cons]
          omega
        refine ⟨List.pairwise_cons.mpr ⟨fun x hx => compareBytes_gt.mp (hlower x hx), hsorted⟩, ?_,
          htotal ▸ hbound, front ++ body, blocks, ?_⟩
        · intro hhas x hx
          rcases List.mem_cons.mp hx with rfl | hx
          · exact habove hhas
          · exact compareBytes_gt.mpr
              ((compareBytes_gt.mp (habove hhas)).trans (compareBytes_gt.mp (hlower x hx)))
        · rw [hfront, List.append_assoc, ← htotal, ← hrest]
          rfl

/-- What a reader has before it: the rest of a block, more blocks and the footer. -/
structure Unread (digest : List UInt8 → BlockDigest) (r : FileRunReader)
    (current : List FileRecord) (blocks : List (List FileRecord)) : Prop where
  unfinished : r.finished = false
  counted : r.blockRecords = current.length
  payload : r.block.drop r.blockCursor = blockPayload current
  cursor : r.blockCursor ≤ r.block.length
  capacity : r.blockCapacity < 2 ^ 32
  room : (blockPayload current).length ≤ r.blockCapacity
  full : ∀ b ∈ blocks, b ≠ [] ∧ (blockPayload b).length ≤ r.blockCapacity
  rest : r.rest = blocks.flatMap (blockFrame digest) ++
    encodeFooter (r.totalRecords + (current ++ blocks.flatten).length) (r.totalBlocks + blocks.length)
  sorted : SortedBy recordKey (current ++ blocks.flatten)
  above : r.hasKey = true → ∀ x ∈ current ++ blocks.flatten, compareBytes x.1 r.lastKey = .gt
  totalRecords : r.totalRecords + (current ++ blocks.flatten).length < 2 ^ 64
  totalBlocks : r.totalBlocks + blocks.length < 2 ^ 64

theorem Unread.advance {r : FileRunReader} {record : FileRecord} {current : List FileRecord}
    {blocks : List (List FileRecord)} (h : Unread digest r (record :: current) blocks) :
    Next r record ∧ Unread digest (r.advance record) current blocks := by
  have hfits := @recordBytes_le_payload (record :: current) record List.mem_cons_self
  have hbytes : recordBytes record = 8 + record.1.length + record.2.length := rfl
  have hroom := h.room
  have hcapacity := h.capacity
  have hpayload : blockPayload (record :: current) = encodeRecord record ++ blockPayload current := by
    simp [blockPayload]
  have hdrop : r.block.drop (r.blockCursor + recordBytes record) = blockPayload current := by
    rw [← List.drop_drop, h.payload, hpayload, List.drop_left' (encodeRecord_length record)]
  have hlength := congrArg List.length h.payload
  rw [hpayload, List.length_append, encodeRecord_length, List.length_drop] at hlength
  have hcursor := h.cursor
  have htotal := h.totalRecords
  rw [List.cons_append, List.length_cons] at htotal
  refine ⟨⟨⟨by omega, by omega⟩, ?_, ?_, ?_, ?_, by omega⟩, ?_⟩
  · rw [hdrop, h.payload, hpayload]
  · exact fun hhas => h.above hhas record List.mem_cons_self
  · rw [h.counted, List.length_cons]
    omega
  · intro hone
    have hnil : current = [] := by
      have hcounted := h.counted
      rw [hone, List.length_cons] at hcounted
      exact List.eq_nil_of_length_eq_zero (by omega)
    rw [hnil] at hlength
    simp only [blockPayload, List.flatMap_nil, List.length_nil] at hlength
    omega
  · refine ⟨h.unfinished, ?_, hdrop, ?_, h.capacity, ?_, h.full, ?_, h.sorted.tail, ?_, ?_,
      h.totalBlocks⟩
    · show r.blockRecords - 1 = _
      rw [h.counted, List.length_cons, Nat.add_sub_cancel]
    · show r.blockCursor + recordBytes record ≤ r.block.length
      omega
    · show (blockPayload current).length ≤ r.blockCapacity
      rw [hpayload, List.length_append, encodeRecord_length] at hroom
      omega
    · show r.rest = _
      rw [h.rest, List.cons_append, List.length_cons, FileRunReader.advance,
        show r.totalRecords + ((current ++ blocks.flatten).length + 1)
          = r.totalRecords + 1 + (current ++ blocks.flatten).length by omega]
    · intro _ x hx
      exact compareBytes_gt.mpr (List.rel_of_pairwise_cons h.sorted hx)
    · show r.totalRecords + 1 + (current ++ blocks.flatten).length < 2 ^ 64
      omega

theorem Unread.open {r : FileRunReader} {current : List FileRecord}
    {blocks : List (List FileRecord)} (h : Unread digest r current blocks) : ¬r.finished = true := by
  rw [h.unfinished]
  exact Bool.false_ne_true

theorem Unread.consume {r : FileRunReader} {current : List FileRecord}
    {blocks : List (List FileRecord)} (h : Unread digest r current blocks) :
    Unread digest { r with consumed := true } current blocks :=
  ⟨h.unfinished, h.counted, h.payload, h.cursor, h.capacity, h.room, h.full, h.rest, h.sorted, h.above,
    h.totalRecords, h.totalBlocks⟩

/-- The next frame is the next block. -/
theorem Unread.load {r : FileRunReader} {b : List FileRecord} {blocks : List (List FileRecord)}
    (hrun : ∀ n, running n = none) (h : Unread digest r [] (b :: blocks)) :
    ∃ s, loadNextBlock digest running r = .ok (true, s) ∧ Unread digest s b blocks := by
  obtain ⟨hne, hroom⟩ := h.full b List.mem_cons_self
  have hcapacity := h.capacity
  have hcount := blockPayload_length b
  have hzero : b.length ≠ 0 := fun hnil => hne (List.eq_nil_of_length_eq_zero hnil)
  have hblocks := h.totalBlocks
  rw [List.length_cons] at hblocks
  have hrest := h.rest
  rw [List.flatMap_cons, blockFrame, List.append_assoc] at hrest
  have hframe : (readFrame digest r.blockCapacity).run r.rest = _ := readFrame_block_ok.mpr
    ⟨⟨hzero, by omega⟩, ⟨mt blockPayload_eq_nil.mp hne, hroom, by omega⟩, hrest⟩
  refine ⟨{ r with
    rest := blocks.flatMap (blockFrame digest) ++ encodeFooter
      (r.totalRecords + ([] ++ (b :: blocks).flatten).length) (r.totalBlocks + (b :: blocks).length)
    block := blockPayload b, blockCursor := 0, blockRecords := b.length,
    totalBlocks := r.totalBlocks + 1 }, ?_, ?_⟩
  · unfold loadNextBlock
    rw [hrun, hframe]
    dsimp only
    rw [if_neg (by omega)]
  · refine ⟨h.unfinished, rfl, rfl, Nat.zero_le _, h.capacity, hroom,
      fun c hc => h.full c (List.mem_cons_of_mem _ hc), ?_, h.sorted, h.above, h.totalRecords, ?_⟩
    · show _ ++ encodeFooter _ _ = _ ++ encodeFooter _ _
      rw [List.length_cons, show r.totalBlocks + (blocks.length + 1)
        = r.totalBlocks + 1 + blocks.length by omega]
      rfl
    · show r.totalBlocks + 1 + blocks.length < 2 ^ 64
      omega

/-- The next call returns the first unread record, or none when all are read. -/
theorem nextRecord_unread (hrun : ∀ n, running n = none) {r : FileRunReader}
    {current : List FileRecord} {blocks : List (List FileRecord)}
    (h : Unread digest r current blocks) :
    (current ++ blocks.flatten = [] ∧ ∃ r', nextRecord digest running r = .ok (none, r')) ∨
    ∃ record later after r', nextRecord digest running r = .ok (some record, r') ∧
      Unread digest r' later after ∧
      current ++ blocks.flatten = record :: (later ++ after.flatten) := by
  cases current with
  | cons record current =>
    obtain ⟨hnext, hunread⟩ := h.consume.advance
    have hread := readRecord_ok.mpr ⟨hnext, rfl⟩
    have hstep : nextRecord digest running r
        = .ok (some record, ({ r with consumed := true } : FileRunReader).advance record) := by
      unfold nextRecord
      rw [if_neg h.open, if_neg hnext.counted, hread]
      rfl
    exact Or.inr ⟨record, current, blocks, _, hstep, hunread, rfl⟩
  | nil =>
    cases blocks with
    | nil =>
      have hrest : r.rest = encodeFooter r.totalRecords r.totalBlocks ++ [] := by
        rw [h.rest, List.append_nil]
        rfl
      have hframe : (readFrame digest r.blockCapacity).run r.rest = _ :=
        readFrame_footer_ok.mpr ⟨h.totalRecords, h.totalBlocks, hrest⟩
      have hload : loadNextBlock digest running { r with consumed := true }
          = .ok (false, { r with rest := [], finished := true, consumed := true }) := by
        unfold loadNextBlock
        rw [hrun]
        dsimp only
        rw [hframe]
        simp
      refine Or.inl ⟨rfl, { r with rest := [], finished := true, consumed := true }, ?_⟩
      unfold nextRecord
      rw [if_neg h.open, if_pos (show r.blockRecords = 0 from h.counted), hload]
    | cons b blocks =>
      obtain ⟨s, hload, hs⟩ := h.consume.load hrun
      cases b with
      | nil => exact absurd rfl (h.full [] List.mem_cons_self).1
      | cons record rest =>
        obtain ⟨hnext, hunread⟩ := hs.advance
        have hread := readRecord_ok.mpr ⟨hnext, rfl⟩
        have hstep : nextRecord digest running r = .ok (some record, s.advance record) := by
          unfold nextRecord
          rw [if_neg h.open, if_pos (show r.blockRecords = 0 from h.counted), hload]
          dsimp only
          rw [hread]
          rfl
        exact Or.inr ⟨record, rest, blocks, _, hstep, hunread, rfl⟩

/-- Everything unread is read, in order. -/
theorem readToEnd_complete (hrun : ∀ n, running n = none) {r : FileRunReader}
    {current : List FileRecord} {blocks : List (List FileRecord)}
    (h : Unread digest r current blocks) :
    readToEnd digest running r = .ok (current ++ blocks.flatten) := by
  induction hn : (current ++ blocks.flatten).length generalizing r current blocks with
  | zero =>
    rcases nextRecord_unread hrun h with ⟨hempty, r', hstep⟩ | ⟨_, _, _, _, -, -, hcons⟩
    · rw [hempty]
      exact readToEnd_none hstep
    · rw [hcons] at hn
      cases hn
  | succ n ih =>
    rcases nextRecord_unread hrun h with ⟨hempty, -⟩ | ⟨record, later, after, r', hstep, h', hcons⟩
    · rw [hempty] at hn
      cases hn
    · rw [hcons] at hn ⊢
      rw [readToEnd_some hstep, ih h' (by simpa using hn)]
      rfl

/-- No call makes more to read. -/
theorem nextRecord_remaining_le {r r' : FileRunReader} {record : Option FileRecord}
    (h : nextRecord digest running r = .ok (record, r')) : r'.remaining ≤ r.remaining := by
  cases record with
  | some record => exact le_of_lt (nextRecord_remaining_lt h)
  | none =>
    unfold nextRecord at h
    split_ifs at h
    · cases h
      exact le_refl _
    · split at h
      · cases h
      · rename_i s hload
        cases h
        rcases loadNextBlock_ok hload with ⟨-, -, -, rfl⟩ | ⟨_, _, _, hloaded, -⟩
        · exact Nat.add_le_add_right (Nat.zero_le _) _
        · cases hloaded
      · obtain ⟨_, -, heq⟩ := map_eq_ok h
        cases heq
    · obtain ⟨_, -, heq⟩ := map_eq_ok h
      cases heq

end FileRunReader

end Excise
