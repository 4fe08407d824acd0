import Excise.Codec.RunFile

/-!
# Range reads

`RunRangeReader`: it starts at the block the sparse index names and reads on like `RunReader`, but
cannot recount what precedes its start. A sequential reader at the same place reads the same.
-/

namespace Excise
set_option autoImplicit false

/-- `RunRangeReader`, with the part of its file that is still to be read. -/
structure FileRangeReader where
  rest : List UInt8
  blockCapacity : Nat
  block : List UInt8
  blockCursor : Nat
  blockRecords : Nat
  lastKey : List UInt8
  hasKey : Bool
  finished : Bool

namespace FileRangeReader

def new (file : List UInt8) (offset blockCapacity : Nat) : FileRangeReader :=
  ⟨file.drop offset, blockCapacity, [], 0, 0, [], false, false⟩

variable (digest : List UInt8 → BlockDigest)

/-- The footer ends the read, whatever it counts. -/
def loadNextBlock (g : FileRangeReader) : Except RunError (Bool × FileRangeReader) :=
  match (readFrame digest g.blockCapacity).run g.rest with
  | .error e => .error e
  | .ok (.footer _ _, rest) =>
    if rest ≠ [] then .error .TrailingData
    else .ok (false, { g with rest := rest, finished := true })
  | .ok (.block records payload, rest) =>
    .ok (true, { g with rest := rest, block := payload, blockCursor := 0, blockRecords := records })

def readRecord (g : FileRangeReader) : Except RunError (FileRecord × FileRangeReader) :=
  match readLength g.block g.blockCursor with
  | .error e => .error e
  | .ok (keyLength, cursor) =>
    match readLength g.block cursor with
    | .error e => .error e
    | .ok (valueLength, cursor) =>
      let keyEnd := cursor + keyLength
      let valueEnd := keyEnd + valueLength
      let inputKey := (g.block.drop cursor).take keyLength
      let value := (g.block.drop keyEnd).take valueLength
      if g.block.length < valueEnd then .error .InvalidBlock
      else if g.hasKey = true ∧ compareBytes inputKey g.lastKey ≠ .gt then .error .UnsortedKey
      else if g.blockRecords = 0 then .error .InvalidBlock
      else if g.blockRecords - 1 = 0 ∧ valueEnd ≠ g.block.length then .error .InvalidBlock
      else .ok ((inputKey, value), { g with
        lastKey := inputKey, hasKey := true, blockCursor := valueEnd,
        blockRecords := g.blockRecords - 1 })

def nextRecord (g : FileRangeReader) : Except RunError (Option FileRecord × FileRangeReader) :=
  if g.finished then .ok (none, g)
  else if g.blockRecords = 0 then
    match loadNextBlock digest g with
    | .error e => .error e
    | .ok (false, g) => .ok (none, g)
    | .ok (true, g) => (readRecord g).map fun (record, g) => (some record, g)
  else (readRecord g).map fun (record, g) => (some record, g)

/-! ## The sequential reader at the same place -/

/-- A sequential reader without its counts. -/
def ofRun (r : FileRunReader) : FileRangeReader :=
  ⟨r.rest, r.blockCapacity, r.block, r.blockCursor, r.blockRecords, r.lastKey, r.hasKey, r.finished⟩

/-- A sequential reader that has counted nothing. -/
def asRun (g : FileRangeReader) : FileRunReader :=
  ⟨g.rest, ⟨⟨0⟩, 0, .ChildQuery⟩, g.blockCapacity, g.block, g.blockCursor, g.blockRecords, 0, 0,
    g.lastKey, g.hasKey, true, g.finished⟩

theorem readRecord_ofRun {r : FileRunReader} (h : r.totalRecords + 1 < 2 ^ 64) :
    readRecord (ofRun r) = r.readRecord.map fun x => (x.1, ofRun x.2) := by
  unfold readRecord FileRunReader.readRecord ofRun
  dsimp only
  cases hkey : readLength r.block r.blockCursor with
  | error e => rfl
  | ok key =>
    obtain ⟨keyLength, cursor⟩ := key
    dsimp only
    cases hvalue : readLength r.block cursor with
    | error e => rfl
    | ok value =>
      dsimp only
      rw [if_neg (not_le.mpr h)]
      split_ifs
      all_goals rfl

variable {digest} {running : Nat → Option IoErrorKind}

theorem readRecord_of_run {r r' : FileRunReader} {record : FileRecord}
    (h : r.readRecord = .ok (record, r')) : readRecord (ofRun r) = .ok (record, ofRun r') := by
  rw [readRecord_ofRun (FileRunReader.readRecord_ok.mp h).1.total, h]
  rfl

theorem loadNextBlock_of_run {r r' : FileRunReader} {loaded : Bool}
    (h : r.loadNextBlock digest running = .ok (loaded, r')) :
    loadNextBlock digest (ofRun r) = .ok (loaded, ofRun r') := by
  unfold FileRunReader.loadNextBlock at h
  unfold loadNextBlock
  cases hrunning : running r.totalBlocks with
  | some kind =>
    rw [hrunning] at h
    cases h
  | none =>
    rw [hrunning] at h
    dsimp only at h
    cases hframe : (readFrame digest r.blockCapacity).run r.rest with
    | error e =>
      rw [hframe] at h
      cases h
    | ok frame =>
      rw [hframe] at h
      rw [show (readFrame digest (ofRun r).blockCapacity).run (ofRun r).rest = _ from hframe]
      obtain ⟨frame, rest⟩ := frame
      cases frame with
      | footer records blocks =>
        dsimp only at h ⊢
        split_ifs at h with hcounts htrailing
        rw [if_neg htrailing]
        cases h
        rfl
      | block records payload =>
        dsimp only at h ⊢
        split_ifs at h
        cases h
        rfl

/-- What a sequential reader reads, so does the range reader at its place. -/
theorem nextRecord_of_run {r r' : FileRunReader} {record : Option FileRecord}
    (h : r.nextRecord digest running = .ok (record, r')) :
    nextRecord digest (ofRun r) = .ok (record, ofRun r') := by
  unfold FileRunReader.nextRecord at h
  unfold nextRecord
  split_ifs at h with hfinished hload
  · cases h
    rw [if_pos (show (ofRun r).finished = true from hfinished)]
  · rw [if_neg (show ¬(ofRun r).finished = true from hfinished),
      if_pos (show (ofRun r).blockRecords = 0 from hload)]
    cases hloaded : FileRunReader.loadNextBlock digest running { r with consumed := true } with
    | error e =>
      rw [hloaded] at h
      cases h
    | ok loaded =>
      obtain ⟨loaded, s⟩ := loaded
      rw [hloaded] at h
      rw [show loadNextBlock digest (ofRun r) = .ok (loaded, ofRun s) from
        loadNextBlock_of_run (r := { r with consumed := true }) hloaded]
      cases loaded with
      | false =>
        cases h
        rfl
      | true =>
        obtain ⟨⟨record, r''⟩, hread, heq⟩ := map_eq_ok h
        cases heq
        dsimp only
        rw [readRecord_of_run hread]
        rfl
  · rw [if_neg (show ¬(ofRun r).finished = true from hfinished),
      if_neg (show ¬(ofRun r).blockRecords = 0 from hload)]
    obtain ⟨⟨record, r''⟩, hread, heq⟩ := map_eq_ok h
    cases heq
    rw [show readRecord (ofRun r) = .ok (record, ofRun r') from
      readRecord_of_run (r := { r with consumed := true }) hread]
    rfl

/-- And the range reader reads nothing that a sequential reader, counting from its place, would
not. -/
theorem nextRecord_asRun {g g' : FileRangeReader} {record : FileRecord}
    (h : nextRecord digest g = .ok (some record, g')) :
    ∃ r', (asRun g).nextRecord digest (fun _ => none) = .ok (some record, r') ∧ ofRun r' = g' := by
  have hread : ∀ {g₁ : FileRangeReader} {r : FileRunReader}, ofRun r = g₁ → r.totalRecords = 0 →
      ∀ {x : FileRecord × FileRangeReader}, readRecord g₁ = .ok x →
        ∃ r', r.readRecord = .ok (x.1, r') ∧ ofRun r' = x.2 := by
    rintro g₁ r rfl hzero x hx
    rw [readRecord_ofRun (by rw [hzero]; decide)] at hx
    obtain ⟨⟨record, r'⟩, hr, rfl⟩ := map_eq_ok hx
    exact ⟨r', hr, rfl⟩
  unfold nextRecord at h
  unfold FileRunReader.nextRecord
  split_ifs at h with hfinished hload
  · cases h
  · rw [if_neg (show ¬(asRun g).finished = true from hfinished),
      if_pos (show (asRun g).blockRecords = 0 from hload)]
    cases hframe : (readFrame digest g.blockCapacity).run g.rest with
    | error e =>
      unfold loadNextBlock at h
      rw [hframe] at h
      cases h
    | ok frame =>
      obtain ⟨frame, rest⟩ := frame
      unfold loadNextBlock at h
      rw [hframe] at h
      cases frame with
      | footer records blocks =>
        dsimp only at h
        split at h
        · cases h
        · cases h
        · rename_i heq
          split_ifs at heq
          all_goals cases heq
      | block records payload =>
        dsimp only at h
        obtain ⟨⟨record, g''⟩, hx, heq⟩ := map_eq_ok h
        cases heq
        have hloaded : FileRunReader.loadNextBlock digest (fun _ => none)
            { asRun g with consumed := true } = .ok (true, { asRun g with
              rest := rest, block := payload, blockCursor := 0, blockRecords := records,
              totalBlocks := 1, consumed := true }) := by
          unfold FileRunReader.loadNextBlock
          dsimp only
          rw [show (readFrame digest (asRun g).blockCapacity).run (asRun g).rest = _ from hframe]
          rfl
        rw [hloaded]
        obtain ⟨r', hr, hr'⟩ := hread (r := { asRun g with
          rest := rest, block := payload, blockCursor := 0, blockRecords := records,
          totalBlocks := 1, consumed := true }) rfl rfl hx
        dsimp only
        rw [hr]
        exact ⟨r', rfl, hr'⟩
  · rw [if_neg (show ¬(asRun g).finished = true from hfinished),
      if_neg (show ¬(asRun g).blockRecords = 0 from hload)]
    obtain ⟨⟨record, g''⟩, hx, heq⟩ := map_eq_ok h
    cases heq
    obtain ⟨r', hr, hr'⟩ := hread (r := { asRun g with consumed := true }) rfl rfl hx
    rw [hr]
    exact ⟨r', rfl, hr'⟩

def remaining (g : FileRangeReader) : Nat := g.rest.length + (g.block.length - g.blockCursor)

theorem nextRecord_remaining_lt {g g' : FileRangeReader} {record : FileRecord}
    (h : nextRecord digest g = .ok (some record, g')) : g'.remaining < g.remaining := by
  obtain ⟨r', hr, rfl⟩ := nextRecord_asRun h
  exact FileRunReader.nextRecord_remaining_lt hr

variable (digest) in
/-- The records a caller gets that reads on to the end. -/
def readToEnd (g : FileRangeReader) : Except RunError (List FileRecord) :=
  match _h : nextRecord digest g with
  | .error e => .error e
  | .ok (none, _) => .ok []
  | .ok (some record, g') => (readToEnd g').map (record :: ·)
termination_by g.remaining
decreasing_by exact nextRecord_remaining_lt _h

theorem readToEnd_error {g : FileRangeReader} {e : RunError} (h : nextRecord digest g = .error e) :
    readToEnd digest g = .error e := by
  rw [readToEnd]
  split <;> rename_i heq <;> rw [h] at heq <;> cases heq
  rfl

theorem readToEnd_none {g g' : FileRangeReader} (h : nextRecord digest g = .ok (none, g')) :
    readToEnd digest g = .ok [] := by
  rw [readToEnd]
  split <;> rename_i heq <;> rw [h] at heq <;> cases heq

theorem readToEnd_some {g g' : FileRangeReader} {record : FileRecord}
    (h : nextRecord digest g = .ok (some record, g')) :
    readToEnd digest g = (readToEnd digest g').map (record :: ·) := by
  rw [readToEnd]
  split <;> rename_i heq <;> rw [h] at heq <;> cases heq
  rfl

theorem readToEnd_of_run {r : FileRunReader} {records : List FileRecord}
    (h : r.readToEnd digest running = .ok records) : readToEnd digest (ofRun r) = .ok records := by
  induction hn : r.remaining using Nat.strong_induction_on generalizing r records with
  | _ n ih =>
    cases hnext : r.nextRecord digest running with
    | error e =>
      rw [FileRunReader.readToEnd_error hnext] at h
      cases h
    | ok next =>
      obtain ⟨record, r'⟩ := next
      have hrange := nextRecord_of_run hnext
      cases record with
      | none =>
        rw [FileRunReader.readToEnd_none hnext] at h
        cases h
        exact readToEnd_none hrange
      | some record =>
        rw [FileRunReader.readToEnd_some hnext] at h
        obtain ⟨more, hmore, rfl⟩ := map_eq_ok h
        rw [readToEnd_some hrange,
          ih r'.remaining (hn ▸ FileRunReader.nextRecord_remaining_lt hnext) hmore rfl]
        rfl

/-- From the offset of a block on, the blocks from there on are delivered. -/
theorem readToEnd_new (digest : List UInt8 → BlockDigest) (descriptor : RunDescriptor)
    {blockCapacity : Nat} (hcapacity : blockCapacity < 2 ^ 32) {skipped rest : List (List FileRecord)}
    (hsorted : SortedBy recordKey (skipped ++ rest).flatten)
    (hfull : ∀ b ∈ skipped ++ rest, b ≠ [] ∧ (blockPayload b).length ≤ blockCapacity)
    (hshort : (runImage digest descriptor blockCapacity (skipped ++ rest)).length < 2 ^ 64) :
    readToEnd digest (new (runImage digest descriptor blockCapacity (skipped ++ rest))
      (runBody digest descriptor blockCapacity skipped).length blockCapacity) = .ok rest.flatten := by
  have hlength := runBody_length digest descriptor blockCapacity (skipped ++ rest)
  rw [runImage, List.length_append] at hshort
  have hdrop : (runImage digest descriptor blockCapacity (skipped ++ rest)).drop
      (runBody digest descriptor blockCapacity skipped).length = rest.flatMap (blockFrame digest) ++
        encodeFooter (skipped ++ rest).flatten.length (skipped ++ rest).length := by
    have hbody : runBody digest descriptor blockCapacity (skipped ++ rest) =
        runBody digest descriptor blockCapacity skipped ++ rest.flatMap (blockFrame digest) := by
      unfold runBody
      rw [List.flatMap_append, List.append_assoc]
    rw [runImage, hbody, List.append_assoc, List.drop_left]
  have hcounts : (skipped ++ rest).flatten.length = skipped.flatten.length + rest.flatten.length ∧
      (skipped ++ rest).length = skipped.length + rest.length := by
    rw [List.flatten_append, List.length_append, List.length_append]
    exact ⟨rfl, rfl⟩
  rw [hcounts.1, hcounts.2] at hlength
  have hread := @FileRunReader.readToEnd_complete digest (fun _ => none) (fun _ => rfl)
    ⟨rest.flatMap (blockFrame digest) ++
        encodeFooter (skipped ++ rest).flatten.length (skipped ++ rest).length,
      descriptor, blockCapacity, [], 0, 0, skipped.flatten.length, skipped.length, [], false, false,
      false⟩ [] rest
    ⟨rfl, rfl, rfl, le_refl _, hcapacity, Nat.zero_le _,
      fun b hb => hfull b (List.mem_append_right _ hb), ?_, ?_, fun h => absurd h Bool.false_ne_true,
      ?_, ?_⟩
  · have hrange := readToEnd_of_run hread
    unfold new
    rw [hdrop]
    exact hrange
  · rw [hcounts.1, hcounts.2, List.nil_append]
  · rw [List.flatten_append] at hsorted
    exact (List.pairwise_append.mp hsorted).2.1
  · show skipped.flatten.length + ([] ++ rest.flatten).length < 2 ^ 64
    rw [List.nil_append]
    omega
  · show skipped.length + rest.length < 2 ^ 64
    omega

end FileRangeReader

end Excise
