import Excise.Scanner.TaskSpill

/-!
# The task spill as a list

The bytes between the two cursors of a task spill are the records of a list, whatever was pushed,
taken or moved. A step whose calls to the system all succeed does to the list what its name says.
-/

namespace Excise
set_option autoImplicit false

/-- What is encoded can be read back. -/
def TaskSpillHost.Coding (host : TaskSpillHost) : Prop :=
  ∀ task payload, host.encode task = .ok payload → host.decode payload = .ok task

namespace TaskSpill

/-! ## The list -/

/-- The tasks whose records the bytes are, one behind the other. -/
def parseTasks (decode : List UInt8 → Except StorageError DirectoryTask) (bytes : List UInt8) :
    Option (List DirectoryTask) :=
  if bytes = [] then some []
  else if bytes.length < spillLengthBytes + leNat (bytes.take 8) then none
  else
    match decode (slice bytes 8 (leNat (bytes.take 8))) with
    | .error _ => none
    | .ok task =>
      (parseTasks decode (bytes.drop (spillLengthBytes + leNat (bytes.take 8)))).map (task :: ·)
termination_by bytes.length
decreasing_by
  simp only [List.length_drop, spillLengthBytes] at *
  omega

/-- What is between the two cursors. -/
def content (decode : List UInt8 → Except StorageError DirectoryTask) (s : TaskSpill) :
    Option (List DirectoryTask) :=
  parseTasks decode (slice s.file s.nextRead (s.nextWrite - s.nextRead))

variable (host : TaskSpillHost)

/-- The bytes of one record. -/
def frame (task : DirectoryTask) : List UInt8 :=
  match host.encode task with
  | .ok payload => leBytes 8 payload.length ++ payload
  | .error _ => []

def frames (tasks : List DirectoryTask) : List UInt8 := tasks.flatMap (frame host)

/-- A task that has a record. -/
def Spillable (task : DirectoryTask) : Prop :=
  ∃ payload, host.encode task = .ok payload ∧ payload.length ≤ maxSpilledTaskBytes

@[simp] theorem frames_nil : frames host [] = [] := rfl

@[simp] theorem frames_cons (task : DirectoryTask) (tasks : List DirectoryTask) :
    frames host (task :: tasks) = frame host task ++ frames host tasks := rfl

@[simp] theorem frames_append (tasks more : List DirectoryTask) :
    frames host (tasks ++ more) = frames host tasks ++ frames host more := List.flatMap_append

variable {host} {task : DirectoryTask} {payload : List UInt8}

theorem frame_of_encode (h : host.encode task = .ok payload) :
    frame host task = leBytes 8 payload.length ++ payload := by
  rw [frame, h]

theorem frame_length (h : host.encode task = .ok payload) :
    (frame host task).length = 8 + payload.length := by
  rw [frame_of_encode h, List.length_append, leBytes_length]

theorem payload_length_lt (h : payload.length ≤ maxSpilledTaskBytes) :
    payload.length < 256 ^ 8 := by
  have : maxSpilledTaskBytes < 256 ^ 8 := by decide +kernel
  omega

theorem parseTasks_frame (hcoding : host.Coding) (h : host.encode task = .ok payload)
    (hle : payload.length ≤ maxSpilledTaskBytes) (rest : List UInt8) :
    parseTasks host.decode (frame host task ++ rest) =
      (parseTasks host.decode rest).map (task :: ·) := by
  have hheader : (frame host task ++ rest).take 8 = leBytes 8 payload.length := by
    rw [frame_of_encode h, List.append_assoc]
    exact List.take_left' (leBytes_length 8 _)
  have hlen := leNat_leBytes (payload_length_lt hle)
  have hslice : slice (frame host task ++ rest) 8 payload.length = payload := by
    have hpart := slice_append (leBytes 8 payload.length) payload rest
    rwa [leBytes_length, ← List.append_assoc, ← frame_of_encode h] at hpart
  have hsize := frame_length h
  rw [parseTasks, if_neg, if_neg, hheader, hlen, hslice, hcoding task payload h]
  · dsimp only
    rw [show spillLengthBytes + payload.length = (frame host task).length from hsize.symm,
      List.drop_left]
  · rw [hheader, hlen, List.length_append, hsize, spillLengthBytes]
    omega
  · intro hnil
    have := congrArg List.length hnil
    rw [List.length_append, hsize, List.length_nil] at this
    omega

theorem parseTasks_frames (hcoding : host.Coding) {tasks : List DirectoryTask}
    (h : ∀ task ∈ tasks, Spillable host task) :
    parseTasks host.decode (frames host tasks) = some tasks := by
  induction tasks with
  | nil =>
    rw [frames_nil, parseTasks]
    rfl
  | cons task tasks ih =>
    obtain ⟨payload, hencode, hle⟩ := h task List.mem_cons_self
    rw [frames_cons, parseTasks_frame hcoding hencode hle,
      ih fun t ht => h t (List.mem_cons_of_mem _ ht)]
    rfl

/-! ## Calls -/

variable (host) in
/-- Some call from the `k`-th on has failed. -/
def FailedFrom (k : Nat) (s : TaskSpill) : Prop :=
  ∃ i, k ≤ i ∧ i < s.calls ∧ (host.events i).failure ≠ none

/-- The spill as it was, but for the bytes of its file and the cursor. -/
structure Disk (s₀ : TaskSpill) (file : List UInt8) (s : TaskSpill) : Prop where
  file : s.file = file
  nextRead : s.nextRead = s₀.nextRead
  nextWrite : s.nextWrite = s₀.nextWrite
  pending : s.pending = s₀.pending
  reserved : s.reserved = s₀.reserved
  calls : s₀.calls ≤ s.calls

structure Cursor (s₀ : TaskSpill) (file : List UInt8) (position : Nat) (s : TaskSpill) : Prop
    extends Disk s₀ file s where
  position : s.position = position

theorem FailedFrom.weaken {j k : Nat} {s : TaskSpill} (h : FailedFrom host k s) (hjk : j ≤ k) :
    FailedFrom host j s := by
  obtain ⟨i, hi, hlt, hne⟩ := h
  exact ⟨i, by omega, hlt, hne⟩

theorem FailedFrom.later {k : Nat} {s s' : TaskSpill} (h : FailedFrom host k s)
    (hle : s.calls ≤ s'.calls) : FailedFrom host k s' := by
  obtain ⟨i, hi, hlt, hne⟩ := h
  exact ⟨i, hi, by omega, hne⟩

variable {s₀ : TaskSpill} {file : List UInt8} {α : Type}
  {Q : α → TaskSpill → Prop} {E : StorageError → TaskSpill → Prop}

/-- The state when a call has been made. -/
def called (s : TaskSpill) : TaskSpill := { s with calls := s.calls + 1 }

theorem Disk.start (h : s₀.file = file) (s : TaskSpill) (hs : s = s₀) : Disk s₀ file s := by
  subst hs
  exact ⟨h, rfl, rfl, rfl, rfl, Nat.le_refl _⟩

theorem Disk.called {s : TaskSpill} (h : Disk s₀ file s) : Disk s₀ file s.called :=
  ⟨h.file, h.nextRead, h.nextWrite, h.pending, h.reserved, Nat.le_succ_of_le h.calls⟩

theorem Disk.failed {s : TaskSpill} (h : Disk s₀ file s) {failure : CallFailure}
    (hf : (host.events s.calls).failure = some failure) : FailedFrom host s₀.calls s.called :=
  ⟨s.calls, h.calls, Nat.lt_succ_self _, by rw [hf]; exact Option.some_ne_none _⟩

theorem call_eq (f : TaskSpillM α) (s : TaskSpill) :
    (do failIfFails (← systemCall host); f) s =
      match (host.events s.calls).failure with
      | none => f s.called
      | some failure => .error failure.error s.called := by
  show EStateM.bind (systemCall host) _ s = _
  rw [EStateM.bind]
  show EStateM.bind (failIfFails _) _ _ = _
  unfold EStateM.bind failIfFails
  dsimp only
  cases hfail : (host.events s.calls).failure with
  | none => rfl
  | some failure => rfl

/-- Errors of calls that only read. -/
def ReadFailed (host : TaskSpillHost) (s₀ : TaskSpill) (file : List UInt8) (_ : StorageError)
    (s : TaskSpill) : Prop := Disk s₀ file s ∧ FailedFrom host s₀.calls s

/-- Errors of calls that may have written. -/
def Lost (host : TaskSpillHost) (s₀ : TaskSpill) (_ : StorageError) (s : TaskSpill) : Prop :=
  FailedFrom host s₀.calls s

theorem triple_call {P : TaskSpill → Prop} {f : TaskSpillM α}
    (hE : ∀ s failure, P s → (host.events s.calls).failure = some failure →
      E failure.error s.called)
    (hf : Triple P (fun s => f s.called) Q E) :
    Triple P (do failIfFails (← systemCall host); f) Q E := by
  intro s hs
  rw [call_eq]
  cases hfail : (host.events s.calls).failure with
  | none =>
    dsimp only
    exact hf s hs
  | some failure => exact hE s failure hs hfail

theorem triple_seek (position : Nat) :
    Triple (Disk s₀ file) (seek host position) (fun _ => Cursor s₀ file position)
      (ReadFailed host s₀ file) := by
  refine triple_call (fun s failure hs hfail => ⟨hs.called, hs.failed hfail⟩) fun s hs => ?_
  exact ⟨⟨hs.file, hs.nextRead, hs.nextWrite, hs.pending, hs.reserved, hs.called.calls⟩, rfl⟩

theorem triple_readExact {position count : Nat} (h : position + count ≤ file.length) :
    Triple (Cursor s₀ file position) (readExact host count)
      (fun bytes s => bytes = slice file position count ∧ Cursor s₀ file (position + count) s)
      (ReadFailed host s₀ file) := by
  refine triple_call (fun s failure hs hfail => ⟨hs.toDisk.called, hs.toDisk.failed hfail⟩)
    fun s hs => ?_
  have hlen : ¬s.called.file.length < s.called.position + count := by
    show ¬s.file.length < s.position + count
    rw [hs.file, hs.position]
    omega
  simp only [if_neg hlen]
  refine ⟨?_, ⟨hs.file, hs.nextRead, hs.nextWrite, hs.pending, hs.reserved,
    hs.toDisk.called.calls⟩, ?_⟩
  · show slice s.file s.position count = _
    rw [hs.file, hs.position]
  · show s.position + count = _
    rw [hs.position]

theorem triple_writeAll {position : Nat} (bytes : List UInt8) :
    Triple (Cursor s₀ file position) (writeAll host bytes)
      (fun _ => Cursor s₀ (overwrite file position bytes) (position + bytes.length))
      (fun _ s => (∃ written, Disk s₀ (overwrite file position written) s) ∧
        FailedFrom host s₀.calls s) := by
  refine Triple.bind (Q := fun e s => ∃ s₁, Cursor s₀ file position s₁ ∧
    e = host.events s₁.calls ∧ s = s₁.called) (fun s hs => ⟨s, hs, rfl, rfl⟩) fun e => ?_
  rintro s ⟨s₁, hs, rfl, rfl⟩
  cases hfail : (host.events s₁.calls).failure with
  | none =>
    refine ⟨⟨?_, hs.nextRead, hs.nextWrite, hs.pending, hs.reserved, hs.toDisk.called.calls⟩, ?_⟩
    · show overwrite s₁.file s₁.position bytes = _
      rw [hs.file, hs.position]
    · show s₁.position + bytes.length = _
      rw [hs.position]
  | some failure =>
    refine ⟨⟨bytes.take failure.written, ?_, hs.nextRead, hs.nextWrite, hs.pending, hs.reserved,
      hs.toDisk.called.calls⟩, hs.toDisk.failed hfail⟩
    show overwrite s₁.file s₁.position (bytes.take failure.written) = _
    rw [hs.file, hs.position]

theorem triple_truncate (len : Nat) (hlen : len ≤ file.length) :
    Triple (Disk s₀ file) (truncate host len) (fun _ => Disk s₀ (file.take len))
      (ReadFailed host s₀ file) := by
  refine triple_call (fun s failure hs hfail => ⟨hs.called, hs.failed hfail⟩) fun s hs => ?_
  refine ⟨?_, hs.nextRead, hs.nextWrite, hs.pending, hs.reserved, hs.called.calls⟩
  show s.file.take len ++ List.replicate (len - s.file.length) 0 = _
  rw [hs.file, Nat.sub_eq_zero_of_le hlen, List.replicate_zero, List.append_nil]

/-- The calls of a record's read, when the record is there. -/
theorem readRecordAt_live (hcoding : host.Coding) {before : List UInt8} (after : List UInt8)
    {offset : Nat} (hencode : host.encode task = .ok payload)
    (hle : payload.length ≤ maxSpilledTaskBytes) (hoffset : before.length = offset)
    (hend : offset + (frame host task).length ≤ s₀.nextWrite) (hsmall : s₀.nextWrite < 2 ^ 64) :
    Triple (Disk s₀ (before ++ (frame host task ++ after))) (readRecordAt host offset)
      (fun record s => (record.task = task ∧
        record.recordEnd = offset + (frame host task).length) ∧
          Disk s₀ (before ++ (frame host task ++ after)) s)
      (ReadFailed host s₀ (before ++ (frame host task ++ after))) := by
  obtain ⟨file, hfile⟩ : ∃ file, before ++ (frame host task ++ after) = file := ⟨_, rfl⟩
  have hsize := frame_length hencode
  have hheader : slice file offset 8 = leBytes 8 payload.length := by
    have hpart := slice_append before (leBytes 8 payload.length) (payload ++ after)
    rwa [leBytes_length, hoffset, ← List.append_assoc (leBytes 8 _), ← frame_of_encode hencode,
      hfile] at hpart
  have hpayload : slice file (offset + 8) payload.length = payload := by
    have hpart := slice_append (before ++ leBytes 8 payload.length) payload after
    rwa [List.length_append, leBytes_length, hoffset, List.append_assoc,
      ← List.append_assoc (leBytes 8 _), ← frame_of_encode hencode, hfile] at hpart
  have hlength : offset + (8 + payload.length) ≤ file.length := by
    rw [← hfile, List.length_append, List.length_append, hsize]
    omega
  rw [hfile]
  unfold readRecordAt
  rw [hsize] at hend
  refine Triple.check_then (decide_eq_true (by rw [spillLengthBytes]; omega)) ?_
  refine Triple.get_then fun s₁ hs₁ => Triple.weaken (P := Disk s₀ file) ?_
    (fun s hs => hs ▸ hs₁) (fun _ _ h => h) fun _ _ h => h
  rw [hs₁.nextWrite]
  refine Triple.check_then (decide_eq_true (by rw [spillLengthBytes]; omega)) ?_
  refine (triple_seek offset).bind fun _ => ?_
  refine (triple_readExact (by omega)).bind fun length => Triple.of_fact (fun _ h => h.1)
    fun hbytes => ?_
  rw [hheader] at hbytes
  subst hbytes
  rw [leNat_leBytes (payload_length_lt hle), readPayload]
  refine Triple.check_then (decide_eq_true hle) ?_
  refine Triple.check_then (decide_eq_true (by rw [spillLengthBytes]; omega)) ?_
  refine Triple.check_then (decide_eq_true (by rw [spillLengthBytes]; omega)) ?_
  refine Triple.weaken (P := Cursor s₀ file (offset + 8)) ?_ (fun s h => h.2) (fun _ _ h => h)
    fun _ _ h => h
  refine (triple_readExact (by omega)).bind fun bytes => Triple.of_fact (fun _ h => h.1)
    fun hbytes => ?_
  rw [hpayload] at hbytes
  subst hbytes
  refine Triple.except_then (hcoding task bytes hencode) (Triple.pure fun s h => ⟨⟨rfl, ?_⟩,
    h.2.toDisk⟩)
  show offset + spillLengthBytes + bytes.length = _
  rw [hsize, spillLengthBytes]
  omega

/-! ## Moving bytes -/

theorem chunk_pos {n : Nat} (h : n ≠ 0) : 0 < min n taskSpillCompactionBytes := by
  rw [taskSpillCompactionBytes]
  omega

/-- The first bytes of the range are still to be moved, the others have been. -/
theorem shiftChunks_spec {before range after : List UInt8} {distance : Nat}
    (hsmall : before.length + range.length + distance < 2 ^ 64) (remaining : Nat)
    (hremaining : remaining ≤ range.length) (gap : List UInt8) (hgap : gap.length = distance) :
    Triple (Disk s₀ (before ++ (range.take remaining ++ (gap ++ (range.drop remaining ++ after)))))
      (shiftChunks host before.length distance remaining)
      (fun _ s => ∃ rest : List UInt8, rest.length = distance ∧
        Disk s₀ (before ++ (rest ++ (range ++ after))) s)
      (Lost host s₀) := by
  induction remaining using Nat.strongRecOn generalizing gap with
  | _ remaining ih =>
    rw [shiftChunks]
    split
    · rename_i hzero
      subst hzero
      exact Triple.pure fun s hs => ⟨gap, hgap, hs⟩
    · rename_i hne
      obtain ⟨left, hleft⟩ : ∃ left, remaining - min remaining taskSpillCompactionBytes = left :=
        ⟨_, rfl⟩
      obtain ⟨chunk, hchunk⟩ : ∃ chunk, min remaining taskSpillCompactionBytes = chunk := ⟨_, rfl⟩
      have hpos := chunk_pos hne
      have hmin := Nat.min_le_left remaining taskSpillCompactionBytes
      rw [hchunk] at hleft hpos hmin ⊢
      obtain ⟨buffer, hbuffer⟩ : ∃ buffer, (range.drop left).take chunk = buffer := ⟨_, rfl⟩
      have hlength : buffer.length = chunk := by
        rw [← hbuffer, List.length_take, List.length_drop]
        omega
      have htake : range.take remaining = range.take left ++ buffer := by
        rw [← hbuffer, ← List.take_add]
        congr 1
        omega
      have hdrop : range.drop left = buffer ++ range.drop remaining := by
        rw [← hbuffer]
        have hsplit := (List.take_append_drop chunk (range.drop left)).symm
        rwa [List.drop_drop, show left + chunk = remaining from by omega] at hsplit
      have hbefore : (before ++ range.take left).length = before.length + left := by
        rw [List.length_append, List.length_take]
        omega
      have hsource : before.length + remaining - chunk = before.length + left := by omega
      rw [htake]
      obtain ⟨file, hfile⟩ : ∃ file, before ++ (range.take left ++ buffer ++
        (gap ++ (range.drop remaining ++ after))) = file := ⟨_, rfl⟩
      have hparts : file = (before ++ range.take left) ++ (buffer ++
          (gap ++ (range.drop remaining ++ after))) := by
        rw [← hfile]
        simp only [List.append_assoc]
      have hslice : slice file (before.length + left) chunk = buffer := by
        rw [hparts, ← hbefore, ← hlength, slice_append]
      have hover : overwrite file (before.length + left + distance) buffer =
          before ++ (range.take left ++ ((buffer ++ gap).take distance ++
            (range.drop left ++ after))) := by
        rw [hparts, ← hbefore, ← hgap, overwrite_right, hdrop]
        simp only [List.append_assoc]
      have hfits : before.length + left + chunk ≤ file.length := by
        rw [hparts, List.length_append, hbefore, List.length_append, hlength]
        omega
      rw [hfile]
      refine Triple.check_then (decide_eq_true (by omega)) ?_
      dsimp only
      rw [hsource]
      refine ((triple_seek _).weaken (fun _ h => h) (fun _ _ h => h) fun _ _ h => h.2).bind
        fun _ => ?_
      refine ((triple_readExact hfits).weaken (fun _ h => h) (fun _ _ h => h)
        fun _ _ h => h.2).bind fun bytes => Triple.of_fact (fun _ h => h.1) fun hbytes => ?_
      rw [hslice] at hbytes
      subst hbytes
      refine Triple.check_then (decide_eq_true (by omega)) ?_
      refine ((triple_seek _).weaken (fun _ h => h.2.toDisk) (fun _ _ h => h)
        fun _ _ h => h.2).bind fun _ => ?_
      refine ((triple_writeAll bytes).weaken (fun _ h => h) (fun _ _ h => h)
        fun _ _ h => h.2).bind fun _ => ?_
      rw [hover, hleft]
      refine (ih left (by omega) (by omega) ((bytes ++ gap).take distance) ?_).weaken
        (fun _ h => h.toDisk) (fun _ _ h => h) fun _ _ h => h
      rw [List.length_take, List.length_append]
      omega

theorem shiftRangeRight_spec {before range gap after : List UInt8}
    (hsmall : before.length + range.length + gap.length < 2 ^ 64) :
    Triple (Disk s₀ (before ++ (range ++ (gap ++ after))))
      (shiftRangeRight host before.length (before.length + range.length) gap.length)
      (fun _ s => ∃ rest : List UInt8, rest.length = gap.length ∧
        Disk s₀ (before ++ (rest ++ (range ++ after))) s)
      (Lost host s₀) := by
  unfold shiftRangeRight
  refine Triple.check_then (decide_eq_true (by omega)) ?_
  rw [Nat.add_sub_cancel_left]
  have hspec : Triple (Disk s₀ (before ++ (_ ++ (_ ++ (_ ++ after)))))
      (shiftChunks host _ gap.length range.length) _ (Lost host s₀) :=
    shiftChunks_spec hsmall range.length (Nat.le_refl _) gap rfl
  rwa [List.take_length, List.drop_length, List.nil_append] at hspec

/-- The first bytes of the live range have been moved, with the gap behind them. -/
theorem compactChunks_spec {after : List UInt8} (bytes : List UInt8) :
    ∀ moved gap : List UInt8, moved.length + gap.length + bytes.length < 2 ^ 64 →
    Triple (Disk s₀ (moved ++ (gap ++ (bytes ++ after))))
      (compactChunks host (moved.length + gap.length) moved.length bytes.length)
      (fun _ s => ∃ rest, Disk s₀ (moved ++ (bytes ++ rest)) s)
      (Lost host s₀) := by
  obtain ⟨n, hn⟩ : ∃ n, bytes.length = n := ⟨_, rfl⟩
  induction n using Nat.strongRecOn generalizing bytes with
  | _ n ih =>
    intro moved gap hsmall
    rw [compactChunks]
    split
    · rename_i hzero
      rw [List.length_eq_zero_iff] at hzero
      subst hzero
      exact Triple.pure fun s hs => ⟨gap ++ after, hs⟩
    · rename_i hne
      obtain ⟨chunk, hchunk⟩ : ∃ chunk, min bytes.length taskSpillCompactionBytes = chunk :=
        ⟨_, rfl⟩
      have hpos := chunk_pos hne
      have hmin := Nat.min_le_left bytes.length taskSpillCompactionBytes
      rw [hchunk] at hpos hmin ⊢
      obtain ⟨buffer, hbuffer⟩ : ∃ buffer, bytes.take chunk = buffer := ⟨_, rfl⟩
      obtain ⟨left, hleft⟩ : ∃ left, bytes.drop chunk = left := ⟨_, rfl⟩
      have hbytes : bytes = buffer ++ left := by
        rw [← hbuffer, ← hleft, List.take_append_drop]
      have hlength : buffer.length = chunk := by
        rw [← hbuffer, List.length_take]
        omega
      have hrest : bytes.length - chunk = left.length := by rw [← hleft, List.length_drop]
      obtain ⟨file, hfile⟩ : ∃ file, moved ++ (gap ++ (bytes ++ after)) = file := ⟨_, rfl⟩
      have hparts : file = moved ++ (gap ++ (buffer ++ (left ++ after))) := by
        rw [← hfile, hbytes, List.append_assoc buffer]
      have hslice : slice file (moved.length + gap.length) chunk = buffer := by
        rw [hparts, ← List.append_assoc moved, ← List.length_append, ← hlength, slice_append]
      have hover : overwrite file moved.length buffer =
          (moved ++ buffer) ++ ((gap ++ buffer).drop buffer.length ++ (left ++ after)) := by
        rw [hparts, overwrite_left, List.append_assoc]
      have hfits : moved.length + gap.length + chunk ≤ file.length := by
        rw [hparts]
        simp only [List.length_append]
        omega
      have hgap : ((gap ++ buffer).drop buffer.length).length = gap.length := by
        rw [List.length_drop, List.length_append]
        omega
      rw [hfile]
      refine ((triple_seek _).weaken (fun _ h => h) (fun _ _ h => h) fun _ _ h => h.2).bind
        fun _ => ?_
      refine ((triple_readExact hfits).weaken (fun _ h => h) (fun _ _ h => h)
        fun _ _ h => h.2).bind fun read => Triple.of_fact (fun _ h => h.1) fun hread => ?_
      rw [hslice] at hread
      subst hread
      refine ((triple_seek _).weaken (fun _ h => h.2.toDisk) (fun _ _ h => h)
        fun _ _ h => h.2).bind fun _ => ?_
      refine ((triple_writeAll read).weaken (fun _ h => h) (fun _ _ h => h)
        fun _ _ h => h.2).bind fun _ => ?_
      refine Triple.check_then (decide_eq_true (by omega)) ?_
      refine Triple.check_then (decide_eq_true (by omega)) ?_
      rw [hover, hrest]
      have hplaces : moved.length + gap.length + chunk =
          (moved ++ read).length + ((gap ++ read).drop read.length).length := by
        rw [hgap, List.length_append]
        omega
      have hplace : moved.length + chunk = (moved ++ read).length := by
        rw [List.length_append, hlength]
      rw [hplaces, hplace]
      refine (ih left.length (by omega) left rfl (moved ++ read) _ ?_).weaken
        (fun _ h => h.toDisk) ?_ fun _ _ h => h
      · rw [← hplaces]
        omega
      · rintro _ s ⟨rest, hs⟩
        refine ⟨rest, ?_⟩
        rwa [hbytes, List.append_assoc, ← List.append_assoc moved]

/-! ## The invariant -/

variable (host) in
/-- The live range is the records of the tasks; the reservation covers it, and no more while no call
has failed. -/
structure Kept (journal : List DirectoryTask) (s : TaskSpill) : Prop where
  file : ∃ before after : List UInt8, before.length = s.nextRead ∧
    s.file = before ++ (frames host journal ++ after)
  written : s.nextWrite = s.nextRead + (frames host journal).length
  pending : s.pending = journal.length
  spillable : ∀ task ∈ journal, Spillable host task
  small : s.nextWrite < 2 ^ 64
  reserved : s.nextWrite ≤ s.reserved
  exact : ¬FailedFrom host 0 s → s.reserved = s.nextWrite

variable {journal : List DirectoryTask}

theorem kept_new : Kept host [] new where
  file := ⟨[], [], rfl, rfl⟩
  written := rfl
  pending := rfl
  spillable := fun _ h => absurd h (List.not_mem_nil)
  small := by decide
  reserved := Nat.le_refl _
  exact := fun _ => rfl

theorem Kept.content (hcoding : host.Coding) {s : TaskSpill} (h : Kept host journal s) :
    s.content host.decode = some journal := by
  obtain ⟨before, after, hbefore, hfile⟩ := h.file
  unfold TaskSpill.content
  rw [h.written, Nat.add_sub_cancel_left, hfile, ← hbefore, slice_append]
  exact parseTasks_frames hcoding h.spillable

theorem frames_pos {tasks : List DirectoryTask} (h : ∀ t ∈ tasks, Spillable host t)
    (hne : tasks ≠ []) : 0 < (frames host tasks).length := by
  cases tasks with
  | nil => exact absurd rfl hne
  | cons task tasks =>
    obtain ⟨payload, hencode, -⟩ := h task List.mem_cons_self
    rw [frames_cons, List.length_append, frame_length hencode]
    omega

/-! ## Taking -/

/-- The live range is moved to the front of the file. -/
theorem compactAfterRead_spec (hk : Kept host journal s₀) (hne : journal ≠ []) :
    Triple (fun s => s = s₀) (compactAfterRead host) (fun _ => Kept host journal)
      (Lost host s₀) := by
  obtain ⟨before, after, hbefore, hfile⟩ := hk.file
  have hpos := frames_pos hk.spillable hne
  have hwritten := hk.written
  have hsmall := hk.small
  have hreserved := hk.reserved
  have hremaining : s₀.nextWrite - s₀.nextRead = (frames host journal).length := by omega
  unfold compactAfterRead
  refine Triple.get_then fun s hs => ?_
  subst hs
  refine Triple.check_then (decide_eq_true (by omega)) ?_
  dsimp only
  rw [hremaining]
  refine Triple.check_then (decide_eq_true (by omega)) ?_
  split
  · exact Triple.pure fun _ hs => hs ▸ hk
  · have hstart : Triple (fun s₁ => s₁ = s)
        (compactChunks host s.nextRead 0 (frames host journal).length)
        (fun _ s₁ => ∃ rest, Disk s (frames host journal ++ rest) s₁) (Lost host s) := by
      have hspec : Triple (Disk s (_ ++ (_ ++ (_ ++ after)))) (compactChunks host _ _ _) _
          (Lost host s) :=
        compactChunks_spec (frames host journal) [] before (by rw [List.length_nil, hbefore]; omega)
      rw [List.length_nil, Nat.zero_add, hbefore] at hspec
      exact hspec.weaken (Disk.start hfile) (fun _ _ h => h) fun _ _ h => h
    refine hstart.bind fun _ => ?_
    rintro s₁ ⟨rest, hs₁⟩
    refine (((triple_truncate _ (by rw [List.length_append]; omega)).weaken (fun _ h => h)
      (fun _ _ h => h) fun _ _ h => h.2).bind fun _ => ?_) s₁ hs₁
    intro s₂ hs₂
    have hdisk : s₂.file = frames host journal := by rw [hs₂.file, List.take_left]
    have hcovered : min s₂.reserved (frames host journal).length =
        (frames host journal).length := by
      rw [hs₂.reserved]
      omega
    exact {
      file := ⟨[], [], rfl, hdisk.trans (List.append_nil _).symm⟩
      written := (Nat.zero_add _).symm
      pending := hs₂.pending.trans hk.pending
      spillable := hk.spillable
      small := by
        show (frames host journal).length < 2 ^ 64
        omega
      reserved := hcovered.ge
      exact := fun _ => hcovered }

theorem giveBack_spec (hk : Kept host journal s₀) :
    Triple (fun s => s = s₀) (giveBack host) (fun _ => Kept host journal) (Lost host s₀) := by
  unfold giveBack
  refine Triple.get_then fun s hs => ?_
  subst hs
  split
  · rename_i hzero
    have hnil : journal = [] := List.length_eq_zero_iff.mp (hk.pending ▸ hzero)
    subst hnil
    refine Triple.bind (Q := fun _ => Disk { s with nextRead := 0, nextWrite := 0 } s.file)
      (fun s₁ hs₁ => hs₁ ▸ ⟨rfl, rfl, rfl, rfl, rfl, Nat.le_refl _⟩) fun _ => ?_
    refine ((triple_truncate 0 (Nat.zero_le _)).weaken (fun _ h => h) (fun _ _ h => h)
      fun _ _ h => h.2).bind fun _ => ?_
    intro s₁ hs₁
    exact {
      file := ⟨[], [], hs₁.nextRead.symm, hs₁.file.trans List.take_zero⟩
      written := by
        show s₁.nextWrite = s₁.nextRead + 0
        rw [hs₁.nextRead, hs₁.nextWrite]
      pending := hs₁.pending.trans hk.pending
      spillable := hk.spillable
      small := by
        show s₁.nextWrite < 2 ^ 64
        rw [hs₁.nextWrite]
        exact Nat.two_pow_pos 64
      reserved := by
        show s₁.nextWrite ≤ min s₁.reserved 0
        rw [hs₁.nextWrite]
        exact Nat.zero_le _
      exact := by
        intro _
        show min s₁.reserved 0 = s₁.nextWrite
        rw [hs₁.nextWrite, Nat.min_zero] }
  · rename_i hzero
    refine compactAfterRead_spec hk ?_
    rintro rfl
    exact hzero hk.pending

/-- A spill whose file has the records of other tasks, and whose fields are as they were. -/
theorem Kept.of_disk (hk : Kept host journal s₀) {tasks : List DirectoryTask} {s : TaskSpill}
    (before after : List UInt8) (hdisk : Disk s₀ (before ++ (frames host tasks ++ after)) s)
    (hbefore : before.length = s₀.nextRead)
    (hframes : (frames host tasks).length = (frames host journal).length)
    (htasks : tasks.Perm journal) : Kept host tasks s where
  file := ⟨before, after, hbefore.trans hdisk.nextRead.symm, hdisk.file⟩
  written := by rw [hdisk.nextWrite, hdisk.nextRead, hframes, hk.written]
  pending := by rw [hdisk.pending, hk.pending, htasks.length_eq]
  spillable := fun t ht => hk.spillable t (htasks.mem_iff.mp ht)
  small := by
    rw [hdisk.nextWrite]
    exact hk.small
  reserved := by
    rw [hdisk.nextWrite, hdisk.reserved]
    exact hk.reserved
  exact := by
    intro hquiet
    rw [hdisk.nextWrite, hdisk.reserved]
    exact hk.exact fun hf => hquiet (hf.later hdisk.calls)

theorem take_spec (hcoding : host.Coding) (hk : Kept host (task :: journal) s₀) :
    Triple (fun s => s = s₀) (take host)
      (fun answer s => answer = some task ∧ Kept host journal s) (Lost host s₀) := by
  obtain ⟨before, after, hbefore, hfile⟩ := hk.file
  obtain ⟨payload, hencode, hle⟩ := hk.spillable task List.mem_cons_self
  have hwritten := hk.written
  rw [frames_cons, List.length_append] at hwritten
  rw [frames_cons, List.append_assoc] at hfile
  unfold take
  refine Triple.get_then fun s hs => ?_
  subst hs
  rw [if_neg (by rw [hk.pending, List.length_cons]; omega)]
  refine Triple.weaken (P := Disk s (before ++ (frame host task ++ (frames host journal ++ after))))
    ?_ (Disk.start hfile) (fun _ _ h => h) fun _ _ h => h
  refine ((readRecordAt_live hcoding (frames host journal ++ after) hencode hle hbefore
    (by omega) hk.small).weaken (fun _ h => h) (fun _ _ h => h) fun _ _ h => h.2).bind
      fun record => Triple.of_fact (fun _ h => h.1) fun hrecord => ?_
  obtain ⟨htask, hend⟩ := hrecord
  rw [hend, htask]
  intro s₁ hs₁
  replace hs₁ := hs₁.2
  obtain ⟨s₂, hs₂⟩ : ∃ s₂ : TaskSpill, { s₁ with
    nextRead := s.nextRead + (frame host task).length
    pending := s₁.pending - 1 } = s₂ := ⟨_, rfl⟩
  have hcalls : s.calls ≤ s₂.calls := by
    rw [← hs₂]
    exact hs₁.calls
  have hkept : Kept host journal s₂ := by
    subst hs₂
    exact {
      file := ⟨before ++ frame host task, after, by rw [List.length_append, hbefore],
        by rw [List.append_assoc]; exact hs₁.file⟩
      written := by
        show s₁.nextWrite =
          s.nextRead + (frame host task).length + (frames host journal).length
        rw [hs₁.nextWrite, hwritten]
        omega
      pending := by
        show s₁.pending - 1 = _
        rw [hs₁.pending, hk.pending, List.length_cons, Nat.add_sub_cancel]
      spillable := fun t ht => hk.spillable t (List.mem_cons_of_mem _ ht)
      small := by
        show s₁.nextWrite < 2 ^ 64
        rw [hs₁.nextWrite]
        exact hk.small
      reserved := by
        show s₁.nextWrite ≤ s₁.reserved
        rw [hs₁.nextWrite, hs₁.reserved]
        exact hk.reserved
      exact := by
        intro hquiet
        show s₁.reserved = s₁.nextWrite
        rw [hs₁.nextWrite, hs₁.reserved]
        exact hk.exact fun hf => hquiet (hf.later hs₁.calls) }
  have hgive : Triple (fun s => s = s₂) (do giveBack host; return some task)
      (fun answer s => answer = some task ∧ Kept host journal s) (Lost host s) :=
    ((giveBack_spec hkept).weaken (fun _ h => h) (fun _ _ h => h)
      fun _ _ h => FailedFrom.weaken h hcalls).bind fun _ => Triple.pure fun _ h => ⟨rfl, h⟩
  have hdone := hgive s₂ rfl
  rw [← hs₂] at hdone
  exact hdone

/-- The selected record is moved before the records in front of it. -/
theorem moveToFront_spec {seen rest : List DirectoryTask}
    (hk : Kept host (seen ++ task :: rest) s₀) :
    Triple (fun s => s = s₀)
      (moveToFront host (s₀.nextRead + (frames host seen).length)
        (s₀.nextRead + (frames host seen).length + (frame host task).length))
      (fun _ s => Kept host (task :: (seen ++ rest)) s ∧ s₀.calls ≤ s.calls) (Lost host s₀) := by
  obtain ⟨before, after, hbefore, hfile⟩ := hk.file
  have hwritten := hk.written
  have hsmall := hk.small
  have hmiddle : List.Perm (task :: (seen ++ rest)) (seen ++ task :: rest) :=
    List.perm_middle.symm
  have hsize : (frames host (task :: (seen ++ rest))).length =
      (frames host (seen ++ task :: rest)).length := by
    simp only [frames_cons, frames_append, List.length_append]
    omega
  simp only [frames_append, frames_cons, List.length_append] at hwritten
  simp only [frames_append, frames_cons, List.append_assoc] at hfile
  unfold moveToFront
  refine Triple.get_then fun s hs => ?_
  subst hs
  split
  · rename_i hfront
    have hnil : seen = [] := by
      by_contra hne
      have := frames_pos (fun t ht => hk.spillable t (List.mem_append_left _ ht)) hne
      omega
    subst hnil
    refine Triple.pure fun _ hs => ?_
    subst hs
    exact ⟨hk, Nat.le_refl _⟩
  · refine Triple.check_then (decide_eq_true (by omega)) ?_
    rw [Nat.add_sub_cancel_left, ← hbefore]
    obtain ⟨behind, hbehind⟩ : ∃ behind, frames host rest ++ after = behind := ⟨_, rfl⟩
    rw [hbehind] at hfile
    have hslice : slice (before ++ (frames host seen ++ (frame host task ++ behind)))
        (before.length + (frames host seen).length) (frame host task).length =
          frame host task := by
      rw [← List.append_assoc before, ← List.length_append, slice_append]
    refine Triple.weaken (P := Disk s (before ++ (frames host seen ++ (frame host task ++ behind))))
      ?_ (Disk.start hfile) (fun _ _ h => h) fun _ _ h => h
    refine ((triple_seek _).weaken (fun _ h => h) (fun _ _ h => h) fun _ _ h => h.2).bind
      fun _ => ?_
    refine ((triple_readExact (by simp only [List.length_append]; omega)).weaken (fun _ h => h)
      (fun _ _ h => h) fun _ _ h => h.2).bind fun record => Triple.of_fact (fun _ h => h.1)
        fun hrecord => ?_
    rw [hslice] at hrecord
    subst hrecord
    refine Triple.bind ((shiftRangeRight_spec (by omega)).weaken (fun _ h => h.2.toDisk)
      (fun _ _ h => h) fun _ _ h => h) fun _ => ?_
    rintro s₁ ⟨room, hroom, hs₁⟩
    refine Triple.bind ((triple_seek before.length).weaken (fun _ h => h) (fun _ _ h => h)
      fun _ _ h => h.2) (fun _ => ?_) s₁ hs₁
    refine (triple_writeAll (frame host task)).weaken (fun _ h => h) ?_ fun _ _ h => h.2
    intro _ s₂ hs₂
    rw [overwrite_middle hroom, ← hbehind] at hs₂
    refine ⟨hk.of_disk before after ?_ hbefore hsize hmiddle,
      hs₂.toDisk.calls⟩
    simpa only [frames_cons, frames_append, List.append_assoc] using hs₂.toDisk

/-- The records in front were read and are of other paths. -/
theorem takePathFrom_spec (hcoding : host.Coding) (path : NativePath)
    (rest seen : List DirectoryTask) (hk : Kept host (seen ++ rest) s₀) :
    Triple (Disk s₀ s₀.file)
      (takePathFrom host path s₀.nextWrite (s₀.nextRead + (frames host seen).length))
      (fun answer s => answer = rest.find? (·.path = path) ∧
        Kept host (seen ++ rest.eraseP (·.path = path)) s) (Lost host s₀) := by
  obtain ⟨before, after, hbefore, hfile⟩ := hk.file
  have hwritten := hk.written
  induction rest generalizing seen with
  | nil =>
    rw [List.append_nil] at hwritten
    rw [takePathFrom, if_neg (by omega)]
    refine Triple.pure fun s hs => ⟨rfl, ?_⟩
    rw [hfile] at hs
    exact hk.of_disk before after hs hbefore rfl (List.Perm.refl _)
  | cons task rest ih =>
    obtain ⟨payload, hencode, hle⟩ :=
      hk.spillable task (List.mem_append_right _ List.mem_cons_self)
    have hsize := frame_length hencode
    rw [frames_append, frames_cons, List.length_append, List.length_append] at hwritten
    have hparts : s₀.file = (before ++ frames host seen) ++
        (frame host task ++ (frames host rest ++ after)) := by
      rw [hfile, frames_append, frames_cons]
      simp only [List.append_assoc]
    have hoffset : (before ++ frames host seen).length =
        s₀.nextRead + (frames host seen).length := by
      rw [List.length_append, hbefore]
    rw [takePathFrom, if_pos (by omega)]
    refine ((readRecordAt_live hcoding (frames host rest ++ after) hencode hle hoffset (by omega)
      hk.small).weaken (fun s hs => hparts ▸ hs) (fun _ _ h => h) fun _ _ h => h.2).bind
        fun record => Triple.of_fact (fun _ h => h.1) fun hrecord => ?_
    obtain ⟨htask, hend⟩ := hrecord
    rw [hend, htask, ← hparts]
    split
    · rename_i hpath
      have hfind : (task :: rest).find? (·.path = path) = some task :=
        List.find?_cons_of_pos (decide_eq_true hpath)
      have herase : (task :: rest).eraseP (·.path = path) = rest :=
        List.eraseP_cons_of_pos (decide_eq_true hpath)
      rw [hfind, herase]
      rintro s₁ ⟨-, hs₁⟩
      have hk₁ : Kept host (seen ++ task :: rest) s₁ := by
        rw [hfile] at hs₁
        exact hk.of_disk before after hs₁ hbefore rfl (List.Perm.refl _)
      have hselected : Triple (fun s => s = s₁)
          (do
            moveToFront host (s₁.nextRead + (frames host seen).length)
              (s₁.nextRead + (frames host seen).length + (frame host task).length)
            take host)
          (fun answer s => answer = some task ∧ Kept host (seen ++ rest) s) (Lost host s₀) := by
        refine ((moveToFront_spec hk₁).weaken (fun _ h => h) (fun _ _ h => h)
          fun _ _ h => FailedFrom.weaken h hs₁.calls).bind fun _ =>
            Triple.of_state fun s₂ hs₂ => ?_
        exact (take_spec hcoding hs₂.1).weaken (fun _ h => h) (fun _ _ h => h)
          fun _ _ h => FailedFrom.weaken h (hs₁.calls.trans hs₂.2)
      rw [hs₁.nextRead] at hselected
      exact hselected s₁ rfl
    · rename_i hpath
      have hother : ¬decide (task.path = path) = true := by simpa using hpath
      have hfind : (task :: rest).find? (·.path = path) = rest.find? (·.path = path) :=
        List.find?_cons_of_neg hother
      have herase : (task :: rest).eraseP (·.path = path) = task :: rest.eraseP (·.path = path) :=
        List.eraseP_cons_of_neg hother
      rw [hfind, herase]
      have hsplit : seen ++ task :: rest = seen ++ [task] ++ rest := by
        rw [List.append_assoc, List.singleton_append]
      have hplace : s₀.nextRead + (frames host seen).length + (frame host task).length =
          s₀.nextRead + (frames host (seen ++ [task])).length := by
        rw [frames_append, frames_cons, frames_nil, List.append_nil, List.length_append]
        omega
      have hrest := ih (seen ++ [task]) (hsplit ▸ hk) (hsplit ▸ hfile)
        (by rw [← hsplit]; exact hk.written)
      rw [← hplace, List.append_assoc (seen), List.singleton_append] at hrest
      exact hrest.weaken (fun _ h => h.2) (fun _ _ h => h) fun _ _ h => h

theorem takePath_spec (hcoding : host.Coding) (path : NativePath) (hk : Kept host journal s₀) :
    Triple (fun s => s = s₀) (takePath host path)
      (fun answer s => answer = journal.find? (·.path = path) ∧
        Kept host (journal.eraseP (·.path = path)) s) (Lost host s₀) := by
  unfold takePath
  refine Triple.get_then fun s hs => ?_
  subst hs
  exact (takePathFrom_spec hcoding path journal [] hk).weaken (Disk.start rfl)
    (fun _ _ h => h) fun _ _ h => h

/-! ## Pushing -/

variable (host) in
/-- What `push` refuses before it touches the file. -/
def Refused (task : DirectoryTask) (s : TaskSpill) : Prop :=
  match host.encode task with
  | .error _ => True
  | .ok payload =>
    maxSpilledTaskBytes < payload.length ∨
      2 ^ 64 ≤ s.nextWrite + spillLengthBytes + payload.length ∨ 2 ^ 64 ≤ s.pending + 1 ∨
        ∃ e, (host.events s.calls).storage.growTo (host.events s.calls).stopSeen s.reserved
          (s.nextWrite + spillLengthBytes + payload.length) = .error e

theorem Kept.called (hk : Kept host journal s₀) : Kept host journal s₀.called where
  file := hk.file
  written := hk.written
  pending := hk.pending
  spillable := hk.spillable
  small := hk.small
  reserved := hk.reserved
  exact := fun hquiet => hk.exact fun hf => hquiet (hf.later (Nat.le_succ _))

/-- The record behind the live range, when the reservation covers it. -/
theorem writeRecord_spec (kept after payload : List UInt8) {offset : Nat}
    (hoffset : kept.length = offset) :
    Triple (Disk s₀ (kept ++ after)) (writeRecord host offset payload)
      (fun _ s => ∃ rest, Disk s₀ (kept ++ (leBytes 8 payload.length ++ payload ++ rest)) s)
      (fun _ s => (∃ rest, Disk s₀ (kept ++ rest) s) ∧ FailedFrom host s₀.calls s) := by
  subst hoffset
  refine ((triple_seek _).weaken (fun _ h => h) (fun _ _ h => h)
    fun _ _ h => ⟨⟨_, h.1⟩, h.2⟩).bind fun _ => ?_
  refine ((triple_writeAll _).weaken (fun _ h => h) (fun _ _ h => h) ?_).bind fun _ => ?_
  · rintro _ s ⟨⟨written, hs⟩, hf⟩
    rw [overwrite_append] at hs
    exact ⟨⟨_, hs⟩, hf⟩
  · rw [overwrite_append, ← List.append_assoc, ← List.length_append]
    refine (triple_writeAll payload).weaken (fun _ h => h) ?_ ?_
    · intro _ s hs
      rw [overwrite_append, List.append_assoc, ← List.append_assoc (leBytes 8 _)] at hs
      exact ⟨_, hs.toDisk⟩
    · rintro _ s ⟨⟨written, hs⟩, hf⟩
      rw [overwrite_append, List.append_assoc] at hs
      exact ⟨⟨_, hs⟩, hf⟩

theorem push_spec (hk : Kept host journal s₀) :
    Triple (fun s => s = s₀) (push host task) (fun _ => Kept host (journal ++ [task]))
      (fun _ s => Kept host journal s ∧ (Refused host task s₀ ∨ FailedFrom host s₀.calls s)) := by
  obtain ⟨before, after, hbefore, hfile⟩ := hk.file
  unfold push
  refine Triple.except (fun e s hs he => ?_) fun payload hencode => ?_
  · subst hs
    exact ⟨hk, .inl (by rw [Refused, he]; trivial)⟩
  refine Triple.check (fun s hs hlong => ?_) fun hle => ?_
  · subst hs
    have hlong := of_decide_eq_false hlong
    exact ⟨hk, .inl (by rw [Refused, hencode]; exact .inl (by omega))⟩
  have hle := of_decide_eq_true hle
  refine Triple.get_then fun s hs => ?_
  subst hs
  refine Triple.check (fun s₁ hs₁ hlarge => ?_) fun hsmall => ?_
  · subst hs₁
    have hlarge := of_decide_eq_false hlarge
    exact ⟨hk, .inl (by rw [Refused, hencode]; exact .inr (.inl (by omega)))⟩
  have hsmall := of_decide_eq_true hsmall
  refine Triple.check (fun s₁ hs₁ hmany => ?_) fun _ => ?_
  · subst hs₁
    have hmany := of_decide_eq_false hmany
    exact ⟨hk, .inl (by rw [Refused, hencode]; exact .inr (.inr (.inl (by omega))))⟩
  have hgrow : Triple (fun s₁ => s₁ = s)
      (growTo host (s.nextWrite + spillLengthBytes + payload.length))
      (fun _ s₁ => s₁ = { s.called with
        reserved := max s.reserved (s.nextWrite + spillLengthBytes + payload.length) })
      (fun _ s₁ => Kept host journal s₁ ∧ (Refused host task s ∨ FailedFrom host s.calls s₁)) := by
    refine Triple.bind (Q := fun e s₁ => e = host.events s.calls ∧ s₁ = s.called)
      (fun s₁ hs₁ => hs₁ ▸ ⟨rfl, rfl⟩) fun e => ?_
    rintro _ ⟨rfl, rfl⟩
    dsimp only
    cases hstorage : (host.events s.calls).storage.growTo (host.events s.calls).stopSeen
        s.called.reserved (s.nextWrite + spillLengthBytes + payload.length) with
    | error e =>
      refine ⟨hk.called, .inl ?_⟩
      rw [Refused, hencode]
      exact .inr (.inr (.inr ⟨e, hstorage⟩))
    | ok r =>
      dsimp only
      rw [TemporaryStorageState.growTo_eq_ok hstorage]
      rfl
  refine hgrow.bind fun _ => ?_
  refine Triple.of_state fun s₁ hs₁ => ?_
  have hfields : s₁.file = s.file ∧ s₁.nextRead = s.nextRead ∧ s₁.nextWrite = s.nextWrite ∧
      s₁.pending = s.pending ∧ s.calls ≤ s₁.calls := by
    subst hs₁
    exact ⟨rfl, rfl, rfl, rfl, Nat.le_succ _⟩
  have hreserved : s₁.reserved =
      max s.reserved (s.nextWrite + spillLengthBytes + payload.length) := by
    subst hs₁
    rfl
  clear hs₁
  obtain ⟨hfile₁, hread₁, hwrite₁, hpending₁, hcalls₁⟩ := hfields
  have hframe := frame_length hencode
  have hcovers := hk.reserved
  have hkept : (before ++ frames host journal).length = s.nextWrite := by
    rw [List.length_append, hbefore, hk.written]
  have hrecord : Triple (Disk s₁ (_ ++ after)) (writeRecord host _ payload) _ _ :=
    writeRecord_spec _ after payload hkept
  have hstart : s₁.file = before ++ frames host journal ++ after := by
    rw [hfile₁, hfile, List.append_assoc]
  refine (hrecord.weaken (Disk.start hstart) (fun _ _ h => h) ?_).bind fun _ => ?_
  · rintro _ s₂ ⟨⟨rest, hs₂⟩, hf⟩
    have hfailed := hf.weaken hcalls₁
    refine ⟨?_, .inr hfailed⟩
    exact {
      file := ⟨before, rest, by rw [hs₂.nextRead, hread₁, hbefore],
        by rw [hs₂.file, List.append_assoc]⟩
      written := by rw [hs₂.nextWrite, hwrite₁, hs₂.nextRead, hread₁, hk.written]
      pending := by rw [hs₂.pending, hpending₁, hk.pending]
      spillable := hk.spillable
      small := by
        rw [hs₂.nextWrite, hwrite₁]
        exact hk.small
      reserved := by
        rw [hs₂.nextWrite, hwrite₁, hs₂.reserved, hreserved]
        omega
      exact := fun hquiet => absurd (hfailed.weaken (Nat.zero_le _)) hquiet }
  · rintro s₂ ⟨rest, hs₂⟩
    have hlast : frames host [task] = leBytes 8 payload.length ++ payload := by
      rw [frames_cons, frames_nil, List.append_nil, frame_of_encode hencode]
    exact {
      file := ⟨before, rest, by
        show before.length = s₂.nextRead
        rw [hs₂.nextRead, hread₁, hbefore], by
        show s₂.file = _
        rw [hs₂.file, frames_append, hlast]
        simp only [List.append_assoc]⟩
      written := by
        show s.nextWrite + spillLengthBytes + payload.length =
          s₂.nextRead + (frames host (journal ++ [task])).length
        rw [frames_append, hlast, hs₂.nextRead, hread₁, hk.written]
        simp only [List.length_append, leBytes_length, spillLengthBytes]
        omega
      pending := by
        show s.pending + 1 = _
        rw [hk.pending, List.length_append, List.length_singleton]
      spillable := by
        intro t ht
        rcases List.mem_append.mp ht with ht | ht
        · exact hk.spillable t ht
        · rw [List.mem_singleton.mp ht]
          exact ⟨payload, hencode, hle⟩
      small := hsmall
      reserved := by
        show s.nextWrite + spillLengthBytes + payload.length ≤ s₂.reserved
        rw [hs₂.reserved, hreserved]
        omega
      exact := by
        intro hquiet
        show s₂.reserved = s.nextWrite + spillLengthBytes + payload.length
        have hexact := hk.exact fun hf => hquiet (hf.later (hcalls₁.trans hs₂.calls))
        rw [hs₂.reserved, hreserved, hexact]
        omega }

/-! ## Runs -/

/-- What a list does in a step, and what it answers. -/
def journalStep (journal : List DirectoryTask) :
    TaskSpillStep → Option DirectoryTask × List DirectoryTask
  | .push task => (none, journal ++ [task])
  | .take => (journal.head?, journal.tail)
  | .takePath path => (journal.find? (·.path = path), journal.eraseP (·.path = path))
  | .compact => (none, journal)

/-- Runs up to the first step other than a push that fails, with the list that made the same steps.
What was not pushed is not in the list. -/
inductive Runs (host : TaskSpillHost) : TaskSpill → List DirectoryTask → Prop
  | new : Runs host new []
  | done {s s' : TaskSpill} {journal : List DirectoryTask} {op : TaskSpillStep}
      {answer : Option DirectoryTask} :
      Runs host s journal → step host op s = .ok answer s' →
        Runs host s' (journalStep journal op).2
  | unpushed {s s' : TaskSpill} {journal : List DirectoryTask} {task : DirectoryTask}
      {e : StorageError} :
      Runs host s journal → step host (.push task) s = .error e s' → Runs host s' journal

/-- A step that returns is the step of the list; a push that fails leaves the list, and other steps
fail only in a call to the system. -/
theorem step_spec (hcoding : host.Coding) (hk : Kept host journal s₀) (op : TaskSpillStep) :
    Triple (fun s => s = s₀) (step host op)
      (fun answer s => answer = (journalStep journal op).1 ∧ Kept host (journalStep journal op).2 s)
      (fun _ s => (∀ task, op = .push task → Kept host journal s) ∧
        ((∃ task, op = .push task ∧ Refused host task s₀) ∨ FailedFrom host s₀.calls s)) := by
  have hlost {op : TaskSpillStep} (hop : ∀ task, op ≠ .push task) (e : StorageError)
      (s : TaskSpill) (h : Lost host s₀ e s) :
      (∀ task, op = .push task → Kept host journal s) ∧
        ((∃ task, op = .push task ∧ Refused host task s₀) ∨ FailedFrom host s₀.calls s) :=
    ⟨fun task htask => absurd htask (hop task), .inr h⟩
  cases op with
  | push task =>
    refine ((push_spec hk).weaken (fun _ h => h) (fun _ _ h => h) ?_).bind fun _ =>
      Triple.pure fun s hs => ⟨rfl, hs⟩
    rintro _ s ⟨hs, hrefused | hf⟩
    · exact ⟨fun _ _ => hs, .inl ⟨task, rfl, hrefused⟩⟩
    · exact ⟨fun _ _ => hs, .inr hf⟩
  | take =>
    cases journal with
    | nil =>
      show Triple _ (take host) _ _
      unfold take
      refine Triple.get_then fun s hs => ?_
      subst hs
      have hpending : s.pending = 0 := hk.pending
      rw [if_pos hpending]
      exact Triple.pure fun _ hs => hs ▸ ⟨rfl, hk⟩
    | cons task journal =>
      exact (take_spec hcoding hk).weaken (fun _ h => h) (fun _ _ h => h)
        (hlost fun _ h => by cases h)
  | takePath path =>
    exact (takePath_spec hcoding path hk).weaken (fun _ h => h) (fun _ _ h => h)
      (hlost fun _ h => by cases h)
  | compact =>
    refine Triple.get_then fun s hs => ?_
    subst hs
    split
    · exact Triple.pure fun _ hs => hs ▸ ⟨rfl, hk⟩
    · rename_i hpending
      have hne : journal ≠ [] := by
        rintro rfl
        exact hpending hk.pending
      exact ((compactAfterRead_spec hk hne).weaken (fun _ h => h) (fun _ _ h => h)
        (hlost fun _ h => by cases h)).bind fun _ => Triple.pure fun _ hs => ⟨rfl, hs⟩

theorem Runs.kept (hcoding : host.Coding) {s : TaskSpill} (h : Runs host s journal) :
    Kept host journal s := by
  induction h with
  | new => exact kept_new
  | @done s s' journal op answer _ hstep ih => exact ((step_spec hcoding ih op).ok rfl hstep).2
  | @unpushed s s' journal task e _ hstep ih =>
    exact ((step_spec hcoding ih (.push task)).error rfl hstep).1 task rfl

/-- The spill after a step, whatever the answer. -/
def after (host : TaskSpillHost) (s : TaskSpill) (op : TaskSpillStep) : TaskSpill :=
  match step host op s with
  | .ok _ s' => s'
  | .error _ s' => s'

/-- Where no call fails, every step but a refused push returns. -/
theorem Runs.after (hcoding : host.Coding) (hquiet : ∀ i, (host.events i).failure = none)
    {s : TaskSpill} (hrun : Runs host s journal) {op : TaskSpillStep}
    (hop : ∀ task, op = .push task → ¬Refused host task s) :
    step host op s = .ok (journalStep journal op).1 (TaskSpill.after host s op) ∧
      Runs host (TaskSpill.after host s op) (journalStep journal op).2 := by
  have hspec := step_spec hcoding (hrun.kept hcoding) op
  unfold TaskSpill.after
  cases hstep : step host op s with
  | ok answer s' =>
    obtain ⟨hanswer, -⟩ := hspec.ok rfl hstep
    rw [hanswer]
    exact ⟨rfl, hrun.done hstep⟩
  | error e s' =>
    obtain ⟨-, ⟨task, hpush, hrefused⟩ | ⟨i, -, -, hfailed⟩⟩ := hspec.error rfl hstep
    · exact absurd hrefused (hop task hpush)
    · exact absurd (hquiet i) hfailed

/-- The spill is the list of its run: what lies between the cursors is its records, each step
answers what the list answers, and the reservation is what is used while no call has failed. -/
theorem task_spill_refines_list (host : TaskSpillHost) (hcoding : host.Coding) {s : TaskSpill}
    {journal : List DirectoryTask} (hrun : Runs host s journal) :
    s.content host.decode = some journal ∧ s.pending = journal.length ∧
      s.nextWrite ≤ s.reserved ∧
      ((∀ i < s.calls, (host.events i).failure = none) → s.reserved = s.nextWrite) ∧
      ∀ op,
        (∀ answer s', step host op s = .ok answer s' → answer = (journalStep journal op).1) ∧
        ∀ e s', step host op s = .error e s' →
          (∃ task, op = .push task ∧ Refused host task s) ∨ FailedFrom host s.calls s' := by
  have hk := hrun.kept hcoding
  refine ⟨hk.content hcoding, hk.pending, hk.reserved, fun hquiet => ?_, fun op => ⟨?_, ?_⟩⟩
  · refine hk.exact ?_
    rintro ⟨i, -, hi, hfailed⟩
    exact hfailed (hquiet i hi)
  · intro answer s' hstep
    exact ((step_spec hcoding hk op).ok rfl hstep).1
  · intro e s' hstep
    exact ((step_spec hcoding hk op).error rfl hstep).2

/-- `[{"encoding":"unix-bytes","data":"` with the base64 text of a path and `"},null]`. -/
def unixRecord (data : List UInt8) : List UInt8 :=
  [91, 123, 34, 101, 110, 99, 111, 100, 105, 110, 103, 34, 58, 34, 117, 110, 105, 120, 45, 98, 121,
    116, 101, 115, 34, 44, 34, 100, 97, 116, 97, 34, 58, 34] ++ data ++
    [34, 125, 44, 110, 117, 108, 108, 93]

/-- `/r/a`. -/
def firstTask : DirectoryTask := ⟨[[114], [97]], none⟩

/-- `/r/` and a name of 48 bytes. -/
def longTask : DirectoryTask := ⟨[[114], List.replicate 48 98], none⟩

/-- `/r/c`. -/
def lastTask : DirectoryTask := ⟨[[114], [99]], none⟩

def taskRecords : List (DirectoryTask × List UInt8) :=
  [(firstTask, unixRecord [76, 51, 73, 118, 89, 81, 61, 61]),
    (longTask, unixRecord ([76, 51, 73, 118] ++ (List.replicate 16 [89, 109, 74, 105]).flatten)),
    (lastTask, unixRecord [76, 51, 73, 118, 89, 119, 61, 61])]

/-- Knows three tasks; the calls of `failing` fail. -/
def recordHost (failing : Nat → Bool) : TaskSpillHost where
  encode := fun task =>
    match taskRecords.find? fun r => r.1.path = task.path ∧ r.1.identity = task.identity with
    | some r => .ok r.2
    | none => .error ⟨.Other, "unknown task"⟩
  decode := fun payload =>
    match taskRecords.find? fun r => r.2 = payload with
    | some r => .ok r.1
    | none => .error ⟨.Other, "unknown payload"⟩
  events := fun i =>
    { failure := if failing i then some ⟨⟨.Other, "input/output error"⟩, 0⟩ else none
      storage := .withLimitBytesNamed (2 ^ 20) "temporary storage" "--temporary-storage-mib"
      stopSeen := false }

theorem recordHost_coding (failing : Nat → Bool) : (recordHost failing).Coding := by
  rintro ⟨path, identity⟩ payload h
  simp only [recordHost] at h ⊢
  split at h
  · rename_i r hfound
    cases h
    obtain ⟨hpath, hidentity⟩ : r.1.path = path ∧ r.1.identity = identity := by
      simpa using List.find?_some hfound
    have hread : ∀ r ∈ taskRecords, taskRecords.find? (fun q => q.2 = r.2) = some r := by
      intro r hr
      have hcases : r = taskRecords[0] ∨ r = taskRecords[1] ∨ r = taskRecords[2] := by
        simpa [taskRecords] using hr
      rcases hcases with rfl | rfl | rfl <;> rfl
    rw [hread r (List.mem_of_find?_eq_some hfound)]
    subst hpath hidentity
    rfl
  · cases h

def quietHost : TaskSpillHost := recordHost fun _ => false

/-- Three tasks pushed, the longest between the others. -/
def threePushed : TaskSpill :=
  [.push firstTask, .push longTask, .push lastTask].foldl (after quietHost) new

def middleTaken : TaskSpill := after quietHost threePushed (.takePath longTask.path)

theorem runs_threePushed : Runs quietHost threePushed [firstTask, longTask, lastTask] := by
  have hfirst : step quietHost (.push firstTask) new =
    .ok none (after quietHost new (.push firstTask)) := rfl
  have hlong : step quietHost (.push longTask) (after quietHost new (.push firstTask)) =
    .ok none (after quietHost (after quietHost new (.push firstTask)) (.push longTask)) := rfl
  have hlast : step quietHost (.push lastTask)
      (after quietHost (after quietHost new (.push firstTask)) (.push longTask)) =
    .ok none threePushed := rfl
  exact .done (.done (.done .new hfirst) hlong) hlast

/-- The task in the middle is taken by its path. Less is left than was read, so it is moved to the
front of the file. -/
theorem task_spill_refines_list_middle :
    step quietHost (.takePath longTask.path) threePushed = .ok (some longTask) middleTaken ∧
      middleTaken.content quietHost.decode = some [firstTask, lastTask] ∧ middleTaken.pending = 2 ∧
      middleTaken.nextRead = 0 ∧ middleTaken.nextWrite < threePushed.nextWrite ∧
      middleTaken.reserved = middleTaken.nextWrite := by
  have hcoding : quietHost.Coding := recordHost_coding fun _ => false
  have hquiet : ∀ i, (quietHost.events i).failure = none := fun _ => rfl
  have hmiddle : step quietHost (.takePath longTask.path) threePushed =
      .ok (some longTask) middleTaken ∧ Runs quietHost middleTaken [firstTask, lastTask] :=
    runs_threePushed.after hcoding hquiet fun task h => by cases h
  have h := task_spill_refines_list quietHost hcoding hmiddle.2
  exact ⟨hmiddle.1, h.1, h.2.1, by decide +kernel, by decide +kernel,
    h.2.2.2.1 fun i _ => hquiet i⟩

/-- The reservation grew and the header was not written. -/
theorem reservation_exceeds_offset :
    (recordHost (· == 2)).Coding ∧
      Runs (recordHost (· == 2)) (after (recordHost (· == 2)) new (.push firstTask)) [] ∧
      (after (recordHost (· == 2)) new (.push firstTask)).reserved ≠
        (after (recordHost (· == 2)) new (.push firstTask)).nextWrite := by
  have hstep : step (recordHost (· == 2)) (.push firstTask) new =
      .error ⟨.Other, "input/output error"⟩
        (after (recordHost (· == 2)) new (.push firstTask)) := rfl
  exact ⟨recordHost_coding _, .unpushed .new hstep, by decide +kernel⟩

end TaskSpill

end Excise
