import Excise.Codec.RunFile

/-!
# Merging run files

`merge_sorted_runs` over the readers of its inputs and the writer of its output: one buffered
record for each input, the smallest of them is appended and its input read on.
-/

namespace Excise
set_option autoImplicit false

/-- The errors of the source and the panics of its `expect` and its indexing. -/
inductive RunMergeFailure where
  | Merge (error : RunMergeError)
  | panicked
  deriving DecidableEq, Repr

/-- `From<RunError>`. -/
def RunMergeFailure.ofRun : RunFileFailure → RunMergeFailure
  | .Run error => .Merge (.Run error)
  | .panicked => .panicked

structure BufferedRecord where
  key : List UInt8
  value : List UInt8
  ready : Bool

/-- An input with its entry of `records`. -/
structure MergeInput where
  reader : FileRunReader
  record : BufferedRecord

/-- `min_by` over the ready records with their positions: the first of the smallest. -/
def minReady : List BufferedRecord → Option (Nat × List UInt8)
  | [] => none
  | record :: rest =>
    match minReady rest with
    | none => if record.ready then some (0, record.key) else none
    | some (index, key) =>
      if record.ready ∧ compareBytes record.key key ≠ .gt then some (0, record.key)
      else some (index + 1, key)

def nextRecordIndex (records : List BufferedRecord) : Option Nat := (minReady records).map Prod.fst

section Merge

variable (digest : List UInt8 → BlockDigest) (refusal running : Nat → Option IoErrorKind)

/-- `next_record_into` the buffer of the input. -/
def MergeInput.load (i : MergeInput) : Except RunError MergeInput :=
  match i.reader.nextRecord digest running with
  | .error e => .error e
  | .ok (none, reader) => .ok ⟨reader, { i.record with ready := false }⟩
  | .ok (some (key, value), reader) => .ok ⟨reader, ⟨key, value, true⟩⟩

/-- What the loop has still to take from an input. -/
def MergeInput.size (i : MergeInput) : Nat := i.reader.remaining + i.record.ready.toNat

theorem MergeInput.load_size {i i' : MergeInput} (h : i.load digest running = .ok i')
    (hready : i.record.ready = true) : i'.size < i.size := by
  unfold load at h
  unfold size
  rw [hready]
  split at h
  · cases h
  · rename_i reader hnext
    cases h
    have hle := FileRunReader.nextRecord_remaining_le hnext
    show reader.remaining + 0 < i.reader.remaining + 1
    omega
  · rename_i key value reader hnext
    cases h
    have hlt := FileRunReader.nextRecord_remaining_lt hnext
    exact Nat.add_lt_add_right hlt 1

/-- The position is that of a ready record with the key. -/
theorem minReady_some {records : List BufferedRecord} {index : Nat} {key : List UInt8}
    (h : minReady records = some (index, key)) :
    ∃ record, records[index]? = some record ∧ record.ready = true ∧ record.key = key := by
  induction records generalizing index key with
  | nil => cases h
  | cons record rest ih =>
    unfold minReady at h
    split at h
    · split_ifs at h with hready
      cases h
      exact ⟨record, rfl, hready, rfl⟩
    · rename_i j k hrest
      split_ifs at h with hready
      · cases h
        exact ⟨record, rfl, hready.1, rfl⟩
      · cases h
        exact ih hrest

theorem sum_set_lt {l : List Nat} {i a b : Nat} (h : l[i]? = some a) (hlt : b < a) :
    (l.set i b).sum < l.sum := by
  induction l generalizing i with
  | nil => cases h
  | cons x l ih =>
    cases i with
    | zero =>
      cases h
      rw [List.set_cons_zero, List.sum_cons, List.sum_cons]
      omega
    | succ i =>
      have htail := ih h
      rw [List.set_cons_succ, List.sum_cons, List.sum_cons]
      omega

theorem MergeInput.set_size {inputs : List MergeInput} {index : Nat} {input input' : MergeInput}
    (hindex : nextRecordIndex (inputs.map record) = some index) (hinput : inputs[index]? = some input)
    (hload : input.load digest running = .ok input') :
    ((inputs.set index input').map size).sum < (inputs.map size).sum := by
  obtain ⟨⟨_, key⟩, hmin, rfl⟩ := Option.map_eq_some_iff.mp hindex
  obtain ⟨record, hrecord, hready, -⟩ := minReady_some hmin
  have hsame : input.record = record := by
    rw [List.getElem?_map, hinput] at hrecord
    exact Option.some.inj hrecord
  rw [List.map_set]
  refine sum_set_lt (a := input.size) ?_ (load_size digest running hload (hsame ▸ hready))
  rw [List.getElem?_map, hinput]
  rfl

/-- The loop of `merge_sorted_runs`. -/
def mergeRecords (previousKey : Option (List UInt8)) (inputs : List MergeInput)
    (output : FileRunWriter) : Except RunMergeFailure FileRunWriter :=
  match _hindex : nextRecordIndex (inputs.map MergeInput.record) with
  | none => .ok output
  | some index =>
    match _hinput : inputs[index]? with
    | none => .error .panicked
    | some input =>
      if previousKey = some input.record.key then .error (.Merge .DuplicateKey)
      else
        match output.append digest refusal (input.record.key, input.record.value) with
        | .error e => .error (.ofRun e)
        | .ok output =>
          match _hload : input.load digest running with
          | .error e => .error (.Merge (.Run e))
          | .ok next => mergeRecords (some input.record.key) (inputs.set index next) output
termination_by (inputs.map MergeInput.size).sum
decreasing_by exact MergeInput.set_size digest running _hindex _hinput _hload

def mergeSortedRunFiles (inputs : List FileRunReader) (output : FileRunWriter) :
    Except RunMergeFailure FileRunWriter :=
  if inputs.any fun input => decide (input.descriptor.generation ≠ output.descriptor.generation) ||
      decide (input.descriptor.kind ≠ output.descriptor.kind) then
    .error (.Merge .DescriptorMismatch)
  else
    match inputs.mapM fun reader => MergeInput.load digest running ⟨reader, ⟨[], [], false⟩⟩ with
    | .error e => .error (.Merge (.Run e))
    | .ok records => mergeRecords digest refusal running none records output

end Merge

/-! ## The loop takes what the merge of the lists takes -/

variable {digest : List UInt8 → BlockDigest} {refusal running : Nat → Option IoErrorKind}

namespace MergeInput

/-- The records an input still holds: the buffered one and those its reader has before it. -/
def Holds (digest : List UInt8 → BlockDigest) (i : MergeInput) (records : List FileRecord) : Prop :=
  (i.record.ready = false ∧ records = []) ∨
    (i.record.ready = true ∧ ∃ current blocks, FileRunReader.Unread digest i.reader current blocks ∧
      records = (i.record.key, i.record.value) :: (current ++ blocks.flatten))

theorem load_holds (hrun : ∀ n, running n = none) {i : MergeInput} {current : List FileRecord}
    {blocks : List (List FileRecord)} (h : FileRunReader.Unread digest i.reader current blocks) :
    ∃ i', i.load digest running = .ok i' ∧ Holds digest i' (current ++ blocks.flatten) := by
  unfold load
  rcases FileRunReader.nextRecord_unread hrun h with
    ⟨hempty, r', hstep⟩ | ⟨record, later, after, r', hstep, h', hcons⟩
  · rw [hstep]
    exact ⟨_, rfl, Or.inl ⟨rfl, hempty⟩⟩
  · rw [hstep]
    exact ⟨_, rfl, Or.inr ⟨rfl, later, after, h', hcons⟩⟩

end MergeInput

/-- No record is ready: nothing is left. Otherwise the record at the position is the one `popMin`
takes, and it takes it from that input. -/
theorem minReady_spec {inputs : List MergeInput} {rests : List (List FileRecord)}
    (h : List.Forall₂ (MergeInput.Holds digest) inputs rests) :
    (minReady (inputs.map MergeInput.record) = none ∧ popMin recordKey rests = none) ∨
    ∃ index input current blocks, minReady (inputs.map MergeInput.record)
        = some (index, input.record.key) ∧ inputs[index]? = some input ∧
      FileRunReader.Unread digest input.reader current blocks ∧
      popMin recordKey rests = some ((input.record.key, input.record.value),
        rests.set index (current ++ blocks.flatten)) := by
  induction h with
  | nil => exact Or.inl ⟨rfl, rfl⟩
  | @cons i records inputs rests hi _ ih =>
    rw [List.map_cons, minReady]
    rcases hi with ⟨hready, rfl⟩ | ⟨hready, current, blocks, hunread, rfl⟩
    · -- the first input is at its end
      rcases ih with ⟨hmin, hpop⟩ | ⟨index, input, current, blocks, hmin, hinput, hunread, hpop⟩
      · rw [hmin, popMin, hpop]
        exact Or.inl ⟨by simp [hready], rfl⟩
      · rw [hmin, popMin, hpop]
        exact Or.inr ⟨index + 1, input, current, blocks, by simp [hready], hinput, hunread, rfl⟩
    · rcases ih with ⟨hmin, hpop⟩ | ⟨index, input, current', blocks', hmin, hinput, hunread', hpop⟩
      · rw [hmin, popMin, hpop]
        exact Or.inr ⟨0, i, current, blocks, by simp [hready], rfl, hunread, rfl⟩
      · rw [hmin]
        by_cases hlt : compareBytes i.record.key input.record.key = .gt
        · exact Or.inr ⟨index + 1, input, current', blocks', if_neg fun hboth => hboth.2 hlt, hinput,
            hunread', popMin_cons_of_lt hpop (compareBytes_gt.mp hlt)⟩
        · exact Or.inr ⟨0, i, current, blocks, if_pos ⟨hready, hlt⟩, rfl, hunread,
            popMin_cons_of_not_lt hpop fun hless => hlt (compareBytes_gt.mpr hless)⟩

/-- What a run file of the records takes at most: each record in a block of its own. -/
def framedBytes (descriptor : RunDescriptor) (blockCapacity : Nat) (records : List FileRecord) : Nat :=
  (headerBytes descriptor blockCapacity).length + (records.map fun r => 44 + recordBytes r).sum + 20

theorem framedBytes_perm (descriptor : RunDescriptor) (blockCapacity : Nat)
    {records records' : List FileRecord} (h : records.Perm records') :
    framedBytes descriptor blockCapacity records = framedBytes descriptor blockCapacity records' := by
  unfold framedBytes
  rw [(h.map _).sum_eq]

theorem blockPayload_sum (records : List FileRecord) :
    (blockPayload records).length = (records.map recordBytes).sum := by
  induction records with
  | nil => rfl
  | cons r records ih =>
    have hcons : blockPayload (r :: records) = encodeRecord r ++ blockPayload records := by
      simp [blockPayload]
    rw [hcons, List.length_append, encodeRecord_length, ih, List.map_cons, List.sum_cons]

/-- Blocks that hold records take no more than their records one by one. -/
theorem runImage_length_le (descriptor : RunDescriptor) (blockCapacity : Nat)
    {blocks : List (List FileRecord)} (hne : ∀ b ∈ blocks, b ≠ []) :
    (runImage digest descriptor blockCapacity blocks).length
      ≤ framedBytes descriptor blockCapacity blocks.flatten := by
  have hframes : (blocks.flatMap (blockFrame digest)).length
      ≤ (blocks.flatten.map fun r => 44 + recordBytes r).sum := by
    induction blocks with
    | nil => exact le_refl _
    | cons b blocks ih =>
      obtain ⟨hb, hblocks⟩ := List.forall_mem_cons.mp hne
      have hlength : 0 < b.length := List.length_pos_of_ne_nil hb
      have hsum : (b.map fun r => 44 + recordBytes r).sum
          = 44 * b.length + (blockPayload b).length := by
        rw [blockPayload_sum, List.sum_map_add, List.map_const', List.sum_replicate, smul_eq_mul,
          Nat.mul_comm]
      have htail := ih hblocks
      rw [List.flatMap_cons, List.length_append, blockFrame_length, List.flatten_cons,
        List.map_append, List.sum_append, hsum]
      omega
  have hfooter : (encodeFooter blocks.flatten.length blocks.length).length = 20 := by
    simp [encodeFooter, footerMagic]
  rw [runImage, runBody, List.length_append, List.length_append, hfooter]
  unfold framedBytes
  omega

theorem framedBytes_mono (descriptor : RunDescriptor) (blockCapacity : Nat)
    {records records' : List FileRecord} (h : records.Sublist records') :
    framedBytes descriptor blockCapacity records ≤ framedBytes descriptor blockCapacity records' := by
  have hsum := (h.map fun r => 44 + recordBytes r).sum_le_sum fun _ _ => Nat.zero_le _
  unfold framedBytes
  omega

theorem HasRoom.mono {m n : Nat} (h : HasRoom refusal n) (hmn : m ≤ n) : HasRoom refusal m :=
  ⟨lt_of_le_of_lt hmn h.1, fun k hk => h.2 k (hk.trans hmn)⟩

theorem packStep_ne {blockCapacity : Nat} {s : List (List FileRecord) × List FileRecord}
    (hne : ∀ b ∈ s.1, b ≠ []) (r : FileRecord) :
    ∀ b ∈ (packStep blockCapacity s r).1, b ≠ [] := by
  unfold packStep
  split
  · rename_i hflush
    intro b hb
    rcases List.mem_append.mp hb with hb | hb
    · exact hne b hb
    · rw [List.mem_singleton.mp hb]
      exact hflush.1
  · exact hne

theorem closeBlocks_ne {s : List (List FileRecord) × List FileRecord} (hne : ∀ b ∈ s.1, b ≠ []) :
    ∀ b ∈ closeBlocks s, b ≠ [] := by
  unfold closeBlocks
  split
  · exact hne
  · rename_i hopen
    intro b hb
    rcases List.mem_append.mp hb with hb | hb
    · exact hne b hb
    · rw [List.mem_singleton.mp hb]
      exact hopen

/-- A writer whose storage has room for the records and one more appends it. -/
theorem append_of_room {w : FileRunWriter} {a a' : RunWriter recordKey}
    {s : List (List FileRecord) × List FileRecord} {r : FileRecord}
    (h : FileRunWriter.Represents digest w a s) (hfits : recordBytes r ≤ w.blockCapacity)
    (hroom : HasRoom refusal (framedBytes w.descriptor w.blockCapacity (a.records ++ [r])))
    (ha : a.append r = .ok a') :
    ∃ w' s', w.append digest refusal r = .ok w' ∧ w'.descriptor = w.descriptor ∧
      w'.blockCapacity = w.blockCapacity ∧ FileRunWriter.Represents digest w' a' s' := by
  rcases (FileRunWriter.append_spec refusal h hfits).2 a' ha with
    ⟨w', hw', hd, hc, h'⟩ | ⟨e, -, hblocked⟩
  · exact ⟨w', _, hw', hd, hc, h'⟩
  · refine absurd hblocked (not_blocked_of_hasRoom (hroom.mono ?_))
    have himage := @runImage_length_le digest w.descriptor w.blockCapacity
      (packStep w.blockCapacity s r).1 (packStep_ne (fun b hb => (h.full b hb).1) r)
    have hmono := framedBytes_mono w.descriptor w.blockCapacity
      (show ((packStep w.blockCapacity s r).1.flatten).Sublist (a.records ++ [r]) by
        rw [h.records, ← packStep_flatten]
        exact List.sublist_append_left _ _)
    rw [runImage, List.length_append] at himage
    omega

section Loop

variable {previousKey : Option (List UInt8)} {inputs : List MergeInput} {w : FileRunWriter}

theorem mergeRecords_none (h : nextRecordIndex (inputs.map MergeInput.record) = none) :
    mergeRecords digest refusal running previousKey inputs w = .ok w := by
  rw [mergeRecords]
  split
  · rfl
  · rename_i heq
    rw [h] at heq
    cases heq

theorem mergeRecords_some {index : Nat} {input : MergeInput}
    (hindex : nextRecordIndex (inputs.map MergeInput.record) = some index)
    (hinput : inputs[index]? = some input) :
    mergeRecords digest refusal running previousKey inputs w =
      if previousKey = some input.record.key then .error (.Merge .DuplicateKey)
      else
        match w.append digest refusal (input.record.key, input.record.value) with
        | .error e => .error (.ofRun e)
        | .ok w =>
          match input.load digest running with
          | .error e => .error (.Merge (.Run e))
          | .ok next =>
            mergeRecords digest refusal running (some input.record.key) (inputs.set index next) w := by
  rw [mergeRecords]
  split <;> rename_i heq <;> rw [hindex] at heq <;> cases heq
  split <;> rename_i heq <;> rw [hinput] at heq <;> cases heq
  by_cases hdup : previousKey = some input.record.key
  · rw [if_pos hdup, if_pos hdup]
  · rw [if_neg hdup, if_neg hdup]
    cases w.append digest refusal (input.record.key, input.record.value) with
    | error e => rfl
    | ok w' =>
      dsimp only
      split <;> rename_i hload <;> rw [hload]

theorem mergeLoop_none {ρ κ : Type} [LinearOrder κ] {key : ρ → κ} {previous : Option κ}
    {rests : List (List ρ)} {output : RunWriter key} (h : popMin key rests = none) :
    mergeLoop previous rests output = .ok output := by
  rw [mergeLoop]
  split
  · rfl
  · rename_i heq
    rw [h] at heq
    cases heq

theorem mergeLoop_some {ρ κ : Type} [LinearOrder κ] {key : ρ → κ} {previous : Option κ}
    {rests rests' : List (List ρ)} {output : RunWriter key} {record : ρ}
    (h : popMin key rests = some (record, rests')) :
    mergeLoop previous rests output =
      if previous = some (key record) then .error .DuplicateKey
      else
        match output.append record with
        | .error e => .error (.Run e)
        | .ok output => mergeLoop (some (key record)) rests' output := by
  rw [mergeLoop]
  split <;> rename_i heq <;> rw [h] at heq <;> cases heq
  rfl

/-- The loop over the files does what the loop over the lists does. -/
theorem mergeRecords_spec (hrun : ∀ n, running n = none) {rests : List (List FileRecord)}
    {a : RunWriter recordKey} {s : List (List FileRecord) × List FileRecord}
    (hholds : List.Forall₂ (MergeInput.Holds digest) inputs rests)
    (h : FileRunWriter.Represents digest w a s)
    (hfits : ∀ r ∈ rests.flatten, recordBytes r ≤ w.blockCapacity)
    (hroom : HasRoom refusal
      (framedBytes w.descriptor w.blockCapacity (a.records ++ rests.flatten))) :
    (∀ e, mergeLoop previousKey rests a = .error e →
      mergeRecords digest refusal running previousKey inputs w = .error (.Merge e)) ∧
    ∀ a', mergeLoop previousKey rests a = .ok a' →
      ∃ w' s', mergeRecords digest refusal running previousKey inputs w = .ok w' ∧
        w'.descriptor = w.descriptor ∧ w'.blockCapacity = w.blockCapacity ∧
        FileRunWriter.Represents digest w' a' s' := by
  induction hn : rests.flatten.length using Nat.strong_induction_on
    generalizing previousKey inputs rests w a s with
  | _ n ih =>
    rcases minReady_spec hholds with
      ⟨hmin, hpop⟩ | ⟨index, input, current, blocks, hmin, hinput, hunread, hpop⟩
    · have hnone : nextRecordIndex (inputs.map MergeInput.record) = none := by
        rw [nextRecordIndex, hmin]
        rfl
      rw [mergeRecords_none hnone, mergeLoop_none hpop]
      refine ⟨fun e he => (nomatch he), fun a' ha => ?_⟩
      cases ha
      exact ⟨w, s, rfl, rfl, rfl, h⟩
    · have hsome : nextRecordIndex (inputs.map MergeInput.record) = some index := by
        rw [nextRecordIndex, hmin]
        rfl
      obtain ⟨next, hload, hnext⟩ := MergeInput.load_holds hrun hunread
      have hperm := popMin_perm hpop
      have hshorter := popMin_length hpop
      rw [mergeRecords_some hsome hinput, mergeLoop_some hpop, hload]
      generalize hrecord : (input.record.key, input.record.value) = record at *
      have hkey : input.record.key = recordKey record := by rw [← hrecord]; rfl
      rw [hkey]
      by_cases hdup : previousKey = some (recordKey record)
      · -- both loops stop at the key they have just written
        rw [if_pos hdup, if_pos hdup]
        exact ⟨fun e he => (by cases he; rfl), fun a' ha => nomatch ha⟩
      · rw [if_neg hdup, if_neg hdup]
        have hmem : record ∈ rests.flatten := hperm.subset List.mem_cons_self
        cases happend : a.append record with
        | error e =>
          rw [(FileRunWriter.append_spec refusal h (hfits record hmem)).1 e happend]
          exact ⟨fun e' he => (by cases he; rfl), fun a' ha => nomatch ha⟩
        | ok a' =>
          have hrecords := (RunWriter.append_eq_ok happend).2.2
          have htotal : (a'.records ++ (rests.set index (current ++ blocks.flatten)).flatten).Perm
              (a.records ++ rests.flatten) := by
            rw [hrecords, List.append_assoc, List.singleton_append]
            exact hperm.append_left _
          have hone := hroom.mono (m := framedBytes w.descriptor w.blockCapacity (a.records ++ [record])) (by
            rw [← framedBytes_perm _ _ htotal, ← hrecords]
            exact framedBytes_mono _ _ (List.sublist_append_left _ _))
          obtain ⟨w', s', hw', hd, hc, h'⟩ := append_of_room h (hfits record hmem) hone happend
          rw [hw']
          have hset : List.Forall₂ (MergeInput.Holds digest) (inputs.set index next)
              (rests.set index (current ++ blocks.flatten)) :=
            forall₂_set hholds hnext
          have hrest := @ih _ (hn ▸ hshorter) (some (recordKey record)) _ _ _ _ _ hset h'
            (fun r hr => by rw [hc]; exact hfits r (hperm.subset (List.mem_cons_of_mem _ hr)))
            (by rw [hd, hc, framedBytes_perm _ _ htotal]; exact hroom) rfl
          rw [hd, hc] at hrest
          exact hrest

end Loop

/-! ## Merging sealed runs -/

/-- A strictly sorted run with the file it is sealed in. -/
structure InputRun (digest : List UInt8 → BlockDigest) where
  descriptor : RunDescriptor
  blockCapacity : Nat
  records : List FileRecord
  capacity : 0 < blockCapacity ∧ blockCapacity < 2 ^ 32
  sorted : SortedBy recordKey records
  fits : ∀ r ∈ records, recordBytes r ≤ blockCapacity
  short : (runImage digest descriptor blockCapacity (packBlocks blockCapacity records)).length < 2 ^ 64

namespace InputRun

def file (i : InputRun digest) : List UInt8 :=
  runImage digest i.descriptor i.blockCapacity (packBlocks i.blockCapacity i.records)

/-- No key occurs in two of the runs. -/
def NoSharedKey (inputs : List (InputRun digest)) : Prop :=
  inputs.Pairwise fun a b => ∀ x ∈ a.records, ∀ y ∈ b.records, x.1 ≠ y.1

def allRecords (inputs : List (InputRun digest)) : List FileRecord := inputs.flatMap InputRun.records

theorem noSharedKey_iff (inputs : List (InputRun digest)) :
    NoSharedKey inputs ↔ ((allRecords inputs).map recordKey).Nodup := by
  have hkeys : (allRecords inputs).map recordKey
      = (inputs.map fun i => i.records.map recordKey).flatten := by
    rw [allRecords, List.flatMap_def, List.map_flatten, List.map_map]
    rfl
  rw [hkeys, List.nodup_flatten, NoSharedKey, List.pairwise_map]
  constructor
  · intro h
    refine ⟨?_, h.imp fun hab => ?_⟩
    · intro l hl
      obtain ⟨i, -, rfl⟩ := List.mem_map.mp hl
      exact i.sorted.nodup_keys
    · intro k hka hkb
      obtain ⟨x, hx, rfl⟩ := List.mem_map.mp hka
      obtain ⟨y, hy, hxy⟩ := List.mem_map.mp hkb
      exact hab x hx y hy hxy.symm
  · intro h
    refine h.2.imp fun hab x hx y hy hxy => ?_
    have hsame : recordKey x = recordKey y := hxy
    exact hab (List.mem_map_of_mem hx) (hsame ▸ List.mem_map_of_mem hy)

theorem opens (i : InputRun digest) :
    ∃ r, FileRunReader.openFile i.file = .ok r ∧ r.descriptor = i.descriptor ∧
      FileRunReader.Unread digest r [] (packBlocks i.blockCapacity i.records) := by
  have hsorted : SortedBy recordKey (packBlocks i.blockCapacity i.records).flatten := by
    rw [packBlocks_flatten]
    exact i.sorted
  obtain ⟨r, hopen, hdescriptor, -, hunread⟩ := openFile_runImage digest i.descriptor i.capacity.1
    i.capacity.2 hsorted (packBlocks_full i.fits) i.short
  exact ⟨r, hopen, hdescriptor, hunread⟩

/-- Every input is read once before the loop starts. -/
theorem loads (hrun : ∀ n, running n = none) {inputs : List (InputRun digest)}
    {readers : List FileRunReader}
    (h : List.Forall₂ (fun (i : InputRun digest) (r : FileRunReader) => r.descriptor = i.descriptor ∧
      FileRunReader.Unread digest r [] (packBlocks i.blockCapacity i.records)) inputs readers) :
    ∃ loaded, (readers.mapM fun reader =>
        MergeInput.load digest running ⟨reader, ⟨[], [], false⟩⟩) = .ok loaded ∧
      List.Forall₂ (MergeInput.Holds digest) loaded (inputs.map InputRun.records) := by
  induction h with
  | nil => exact ⟨[], rfl, List.Forall₂.nil⟩
  | @cons i r _ _ hi _ ih =>
    obtain ⟨loaded, hloaded, hholds⟩ := ih
    obtain ⟨next, hnext, hnextHolds⟩ :=
      MergeInput.load_holds hrun (i := ⟨r, ⟨[], [], false⟩⟩) hi.2
    rw [List.nil_append, packBlocks_flatten] at hnextHolds
    refine ⟨next :: loaded, ?_, List.Forall₂.cons hnextHolds hholds⟩
    rw [List.mapM_cons, hnext, hloaded]
    rfl

end InputRun

/-- The sealed output holds what its writer was given. -/
theorem sealRun_readRunFile (hrun : ∀ n, running n = none) {w : FileRunWriter}
    {a : RunWriter recordKey} {s : List (List FileRecord) × List FileRecord}
    (h : FileRunWriter.Represents digest w a s)
    (hroom : HasRoom refusal (framedBytes w.descriptor w.blockCapacity a.records)) :
    ∃ run, w.sealRun digest refusal = .ok run ∧
      readRunFile digest running run.file = .ok (w.descriptor, a.records) := by
  have hflat : (closeBlocks s).flatten = a.records := by
    rw [flatten_closeBlocks, h.records]
  have hfull : ∀ b ∈ closeBlocks s, b ≠ [] ∧ (blockPayload b).length ≤ w.blockCapacity := by
    intro b hb
    refine ⟨closeBlocks_ne (fun b hb => (h.full b hb).1) b hb, ?_⟩
    unfold closeBlocks at hb
    split at hb
    · exact (h.full b hb).2
    · rcases List.mem_append.mp hb with hb | hb
      · exact (h.full b hb).2
      · rw [List.mem_singleton.mp hb]
        exact h.room
  have hlength := @runImage_length_le digest w.descriptor w.blockCapacity (closeBlocks s)
    fun b hb => (hfull b hb).1
  rw [hflat] at hlength
  rcases FileRunWriter.sealRun_spec refusal h with ⟨run, hseal, -, hfile, -⟩ | ⟨e, -, hblocked⟩
  · refine ⟨run, hseal, ?_⟩
    rw [hfile, readRunFile_runImage digest hrun w.descriptor h.capacity.1 h.capacity.2
      (hflat.symm ▸ a.sorted) hfull (lt_of_le_of_lt hlength hroom.1), hflat]
  · exact absurd hblocked (not_blocked_of_hasRoom (hroom.mono hlength))

open InputRun in
/-- Runs without a shared key merge into the sorted union of their records; the duplicate key is
reported exactly when there is one. -/
theorem merge_sorted_runs_exact (hrun : ∀ n, running n = none) {output : RunDescriptor}
    {blockCapacity : Nat} {w : FileRunWriter}
    (hnew : FileRunWriter.new refusal [] 0 output blockCapacity = .ok w)
    (inputs : List (InputRun digest))
    (hfamily : ∀ i ∈ inputs, i.descriptor.generation = output.generation ∧
      i.descriptor.kind = output.kind)
    (hfits : ∀ r ∈ allRecords inputs, recordBytes r ≤ blockCapacity)
    (hroom : HasRoom refusal (framedBytes output blockCapacity (allRecords inputs))) :
    ∃ readers, inputs.mapM (fun i => FileRunReader.openFile i.file) = .ok readers ∧
      (NoSharedKey inputs → ∃ w' run merged,
        mergeSortedRunFiles digest refusal running readers w = .ok w' ∧
        w'.sealRun digest refusal = .ok run ∧
        readRunFile digest running run.file = .ok (output, merged) ∧
        SortedBy recordKey merged ∧ merged.Perm (allRecords inputs)) ∧
      (mergeSortedRunFiles digest refusal running readers w = .error (.Merge .DuplicateKey) ↔
        ¬NoSharedKey inputs) := by
  obtain ⟨-, rfl, rfl, h⟩ := FileRunWriter.new_eq_ok digest hnew
  obtain ⟨readers, hreaders, hopened⟩ := mapM_forall₂ (l := inputs)
    (f := fun i => FileRunReader.openFile i.file) fun i _ => i.opens
  refine ⟨readers, hreaders, ?_⟩
  obtain ⟨loaded, hloaded, hholds⟩ := loads hrun hopened
  have hany : ¬(readers.any fun input =>
      decide (input.descriptor.generation ≠ w.descriptor.generation) ||
      decide (input.descriptor.kind ≠ w.descriptor.kind)) = true := by
    rw [List.any_eq_true]
    rintro ⟨r, hr, hother⟩
    obtain ⟨i, hi, hir⟩ := forall₂_mem hopened.flip hr
    obtain ⟨hg, hk⟩ := hfamily i hi
    rw [hir.1, hg, hk] at hother
    simp at hother
  have hflat : (inputs.map InputRun.records).flatten = allRecords inputs := rfl
  have hmerge : mergeSortedRunFiles digest refusal running readers w
      = mergeRecords digest refusal running none loaded w := by
    unfold mergeSortedRunFiles
    rw [if_neg hany, hloaded]
  have hready : MergeReady none (inputs.map InputRun.records)
      (RunWriter.new w.descriptor : RunWriter recordKey) := by
    refine ⟨?_, rfl, fun k hk => (nomatch hk)⟩
    intro l hl
    obtain ⟨i, -, rfl⟩ := List.mem_map.mp hl
    exact i.sorted
  obtain ⟨herror, hok⟩ := @mergeRecords_spec digest refusal running none loaded w hrun
    _ _ _ hholds h hfits hroom
  rw [hmerge, noSharedKey_iff]
  rcases mergeLoop_spec hready with ⟨hnodup, a', ha', -, hperm⟩ | ⟨hdup, he⟩
  · obtain ⟨w', s', hw', hd, hc, h'⟩ := hok a' ha'
    have hperm : a'.records.Perm (allRecords inputs) := hperm
    refine ⟨fun _ => ?_, ?_⟩
    · obtain ⟨run, hseal, hread⟩ := sealRun_readRunFile hrun h'
        (by rw [hd, hc, framedBytes_perm _ _ hperm]; exact hroom)
      rw [hd] at hread
      exact ⟨w', run, a'.records, hw', hseal, hread, a'.sorted, hperm⟩
    · rw [hw']
      exact ⟨fun hfailed => (nomatch hfailed), fun hshared => absurd hnodup hshared⟩
  · rw [herror _ he]
    exact ⟨fun hdistinct => absurd hdistinct hdup, fun _ => hdup, fun _ => rfl⟩

def equalDigest : List UInt8 → BlockDigest := fun _ => ⟨List.replicate 32 0, rfl⟩

theorem letterCapacity : 0 < 128 ∧ 128 < 2 ^ 32 := by decide

/-- A run of one-byte keys without values. -/
def letterRun (runId : UInt64) (letters : List UInt8) (hsorted : SortedBy recordKey (letters.map fun c => ([c], [])))
    (hshort : (runImage equalDigest ⟨⟨0⟩, runId, .PathObservation⟩ 128
      (packBlocks 128 (letters.map fun c => ([c], [])))).length < 2 ^ 64) : InputRun equalDigest :=
  ⟨⟨⟨0⟩, runId, .PathObservation⟩, 128, letters.map fun c => ([c], []), by decide, hsorted, by
    intro r hr
    obtain ⟨c, -, rfl⟩ := List.mem_map.mp hr
    show 8 + 1 + 0 ≤ 128
    decide, hshort⟩

/-- Two interleaved runs and an empty one. -/
theorem merge_sorted_runs_exact_three :
    ∃ readers, [letterRun 1 [97, 99] (by decide) (by decide +kernel),
        letterRun 2 [] (by decide) (by decide +kernel),
        letterRun 3 [98, 100] (by decide) (by decide +kernel)].mapM
        (fun i => FileRunReader.openFile i.file) = .ok readers ∧
      ∃ w' run merged, mergeSortedRunFiles equalDigest (fun _ => none) (fun _ => none) readers
          ⟨headerBytes ⟨⟨0⟩, 4, .PathObservation⟩ 128, ⟨⟨0⟩, 4, .PathObservation⟩, 128, [], none, 0, 0, 0,
            28, [], false, none⟩ = .ok w' ∧
        w'.sealRun equalDigest (fun _ => none) = .ok run ∧
        readRunFile equalDigest (fun _ => none) run.file
          = .ok (⟨⟨0⟩, 4, .PathObservation⟩, merged) ∧
        SortedBy recordKey merged ∧
        merged.Perm [([97], []), ([99], []), ([98], []), ([100], [])] := by
  obtain ⟨readers, hreaders, hmerged, -⟩ := @merge_sorted_runs_exact equalDigest (fun _ => none)
    (fun _ => none) (fun _ => rfl) ⟨⟨0⟩, 4, .PathObservation⟩ 128
    ⟨headerBytes ⟨⟨0⟩, 4, .PathObservation⟩ 128, ⟨⟨0⟩, 4, .PathObservation⟩, 128, [], none, 0, 0, 0,
      28, [], false, none⟩ rfl
    [letterRun 1 [97, 99] (by decide) (by decide +kernel),
      letterRun 2 [] (by decide) (by decide +kernel),
      letterRun 3 [98, 100] (by decide) (by decide +kernel)]
    (by decide) (by decide) ⟨by decide +kernel, fun _ _ => rfl⟩
  exact ⟨readers, hreaders, hmerged ((InputRun.noSharedKey_iff _).mpr (by decide))⟩

end Excise
