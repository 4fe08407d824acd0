import Excise.Codec.RunReader

/-!
# Run files

What the writer seals the reader returns, and what the reader accepts is a sorted run under its
own record count.
-/

namespace Excise
set_option autoImplicit false

/-- Opens a run file and reads it to its end. -/
def readRunFile (digest : List UInt8 → BlockDigest) (running : Nat → Option IoErrorKind)
    (file : List UInt8) : Except RunError (RunDescriptor × List FileRecord) :=
  match FileRunReader.openFile file with
  | .error e => .error e
  | .ok r => (r.visitRecords digest running).map fun records => (r.descriptor, records)

/-- A sealed file opens to a reader that has all its blocks before it. -/
theorem openFile_runImage (digest : List UInt8 → BlockDigest) (descriptor : RunDescriptor)
    {blockCapacity : Nat} (hzero : 0 < blockCapacity) (hcapacity : blockCapacity < 2 ^ 32)
    {blocks : List (List FileRecord)} (hsorted : SortedBy recordKey blocks.flatten)
    (hfull : ∀ b ∈ blocks, b ≠ [] ∧ (blockPayload b).length ≤ blockCapacity)
    (hshort : (runImage digest descriptor blockCapacity blocks).length < 2 ^ 64) :
    ∃ r, FileRunReader.openFile (runImage digest descriptor blockCapacity blocks) = .ok r ∧
      r.descriptor = descriptor ∧ r.consumed = false ∧ FileRunReader.Unread digest r [] blocks := by
  have hbody := runBody_length digest descriptor blockCapacity blocks
  have hheader := (@decodeHeader_ok _ (blocks.flatMap (blockFrame digest) ++
    encodeFooter blocks.flatten.length blocks.length) descriptor blockCapacity).mpr
    ⟨⟨hzero, hcapacity⟩, rfl⟩
  rw [runImage, List.length_append] at hshort
  unfold FileRunReader.openFile
  rw [runImage, runBody, List.append_assoc, hheader]
  refine ⟨_, rfl, rfl, rfl, rfl, rfl, rfl, le_refl _, hcapacity, Nat.zero_le _, hfull, ?_, hsorted,
    fun h => absurd h Bool.false_ne_true, ?_, ?_⟩
  · simp only [Nat.zero_add, List.nil_append]
  · show 0 + ([] ++ blocks.flatten).length < 2 ^ 64
    rw [List.nil_append]
    omega
  · show 0 + blocks.length < 2 ^ 64
    omega

/-- A sealed file is read back whole. -/
theorem readRunFile_runImage (digest : List UInt8 → BlockDigest)
    {running : Nat → Option IoErrorKind} (hrun : ∀ n, running n = none) (descriptor : RunDescriptor)
    {blockCapacity : Nat} (hzero : 0 < blockCapacity) (hcapacity : blockCapacity < 2 ^ 32)
    {blocks : List (List FileRecord)} (hsorted : SortedBy recordKey blocks.flatten)
    (hfull : ∀ b ∈ blocks, b ≠ [] ∧ (blockPayload b).length ≤ blockCapacity)
    (hshort : (runImage digest descriptor blockCapacity blocks).length < 2 ^ 64) :
    readRunFile digest running (runImage digest descriptor blockCapacity blocks)
      = .ok (descriptor, blocks.flatten) := by
  obtain ⟨r, hopen, rfl, hconsumed, hunread⟩ :=
    openFile_runImage digest descriptor hzero hcapacity hsorted hfull hshort
  unfold readRunFile FileRunReader.visitRecords
  rw [hopen]
  dsimp only
  rw [hconsumed, if_neg Bool.false_ne_true, FileRunReader.readToEnd_complete hrun hunread]
  rfl

/-- The key of the last record is the last key. -/
theorem append_lastKey {digest : List UInt8 → BlockDigest} {refusal : Nat → Option IoErrorKind}
    {w w' : FileRunWriter} {r : FileRecord} (h : FileRunWriter.append digest refusal w r = .ok w') :
    w'.hasKey = true ∧ w'.lastKey = r.1 := by
  have hpush : ∀ {v : FileRunWriter}, FileRunWriter.pushRecord v r = .ok w' →
      w'.hasKey = true ∧ w'.lastKey = r.1 := by
    intro v hv
    unfold FileRunWriter.pushRecord at hv
    split at hv
    · cases hv
    · cases hv
      exact ⟨rfl, rfl⟩
  unfold FileRunWriter.append at h
  split_ifs at h
  · cases hflush : FileRunWriter.flushBlock digest refusal w with
    | error e =>
      rw [hflush] at h
      cases h
    | ok v =>
      rw [hflush] at h
      exact hpush h
  · exact hpush h

/-- Increasing records that fit are read back as they were written, a key that does not increase
is refused, and whatever is read to the end is increasing and counted by the footer. -/
theorem run_file_round_trip (digest : List UInt8 → BlockDigest) :
    (∀ descriptor blockCapacity records refusal running w,
      FileRunWriter.new refusal [] 0 descriptor blockCapacity = .ok w →
      SortedBy recordKey records → (∀ r ∈ records, recordBytes r ≤ blockCapacity) →
      HasRoom refusal
        (runImage digest descriptor blockCapacity (packBlocks blockCapacity records)).length →
      (∀ n, running n = none) →
      ∃ run, writeRunFile digest refusal descriptor blockCapacity records = .ok run ∧
        readRunFile digest running run.file = .ok (descriptor, records)) ∧
    (∀ refusal w w' p r, FileRunWriter.append digest refusal w p = .ok w' →
      compareBytes r.1 p.1 ≠ .gt →
      FileRunWriter.append digest refusal w' r = .error (.Run .UnsortedKey)) ∧
    ∀ running file descriptor records,
      readRunFile digest running file = .ok (descriptor, records) →
      SortedBy recordKey records ∧ records.length < 2 ^ 64 ∧
        ∃ body blocks, file = body ++ encodeFooter records.length blocks := by
  refine ⟨?_, ?_, ?_⟩
  · intro descriptor blockCapacity records refusal running w hnew hsorted hfits hroom hrun
    have hcapacity : 0 < blockCapacity ∧ blockCapacity < 2 ^ 32 := by
      unfold FileRunWriter.new encodeHeader at hnew
      split_ifs at hnew <;> omega
    rcases writeRunFile_spec digest refusal descriptor hcapacity.1 hcapacity.2 hsorted hfits with
      ⟨run, hrun', -, hfile⟩ | ⟨e, -, hblocked⟩
    · refine ⟨run, hrun', ?_⟩
      have hflat := packBlocks_flatten blockCapacity records
      rw [hfile, readRunFile_runImage digest hrun descriptor hcapacity.1 hcapacity.2
        (hflat.symm ▸ hsorted) (packBlocks_full hfits) hroom.1, hflat]
    · exact absurd hblocked (not_blocked_of_hasRoom hroom)
  · intro refusal w w' p r hp hle
    obtain ⟨hhas, hlast⟩ := append_lastKey hp
    unfold FileRunWriter.append
    rw [if_pos ⟨hhas, by rw [hlast]; exact hle⟩]
  · intro running file descriptor records h
    unfold readRunFile at h
    split at h
    · cases h
    rename_i r hopen
    obtain ⟨records', hread, heq⟩ := map_eq_ok h
    cases heq
    unfold FileRunReader.openFile at hopen
    split at hopen
    · cases hopen
    rename_i d blockCapacity rest hheader
    cases hopen
    obtain ⟨-, hfile⟩ := decodeHeader_ok.mp hheader
    unfold FileRunReader.visitRecords at hread
    rw [if_neg Bool.false_ne_true] at hread
    obtain ⟨hsorted, -, hcount, body, blocks, hrest⟩ := FileRunReader.readToEnd_sound rfl hread
    have hcount : 0 + records.length < 2 ^ 64 := hcount
    have hrest : rest = body ++ encodeFooter (0 + records.length) blocks := hrest
    rw [Nat.zero_add] at hcount hrest
    exact ⟨hsorted, hcount, headerBytes d blockCapacity ++ body, blocks, by
      rw [hfile, hrest, List.append_assoc]⟩

/-- Two records share a block, the third opens another. -/
theorem run_file_round_trip_three : ∃ run,
    writeRunFile (fun _ => ⟨List.replicate 32 0, rfl⟩) (fun _ => none) ⟨⟨7⟩, 42, .PathObservation⟩ 20
      [([1], [2]), ([1, 1], []), ([3], [])] = .ok run ∧
    readRunFile (fun _ => ⟨List.replicate 32 0, rfl⟩) (fun _ => none) run.file
      = .ok (⟨⟨7⟩, 42, .PathObservation⟩, [([1], [2]), ([1, 1], []), ([3], [])]) :=
  (run_file_round_trip _).1 _ _ _ _ _ _ rfl (by decide) (by decide)
    ⟨by decide +kernel, fun _ _ => rfl⟩ fun _ => rfl

end Excise
