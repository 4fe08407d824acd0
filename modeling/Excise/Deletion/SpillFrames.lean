import Excise.Deletion.SpillReads

/-!
# The bytes of a spill file

While nobody else writes the file it holds the frames of the live records one behind the other,
and every operation returns what a list of the records would, or it fails and changes nothing. A
write that fails midway leaves the file longer than its accounted length, and from then on every
operation fails.
-/

namespace Excise
set_option autoImplicit false

/-- Nobody else changes the file. -/
def SpillHost.Quiet (host : SpillHost) : Prop := ∀ i file, (host.events i).modify file = file

/-- Some call fails. -/
def SpillHost.Failing (host : SpillHost) : Prop :=
  ∃ i failure, (host.events i).failure = some failure

namespace RecordSpill

/-- The bytes of one record. -/
def frame (host : SpillHost) (key : SpillAuthenticationKey) (offset : Nat)
    (payload : List UInt8) : List UInt8 :=
  leBytes 8 payload.length ++ (payload ++
    ((key.tag host.sha256 offset (leBytes 8 payload.length) payload).toList ++
      leBytes 8 payload.length))

def frames (host : SpillHost) (key : SpillAuthenticationKey) : Nat → List (List UInt8) → List UInt8
  | _, [] => []
  | offset, payload :: rest =>
    frame host key offset payload ++ frames host key (offset + recordSize payload) rest

section
variable (host : SpillHost) (key : SpillAuthenticationKey)

@[simp] theorem frame_length (offset : Nat) (payload : List UInt8) :
    (frame host key offset payload).length = recordSize payload := by
  simp only [frame, recordSize, List.length_append, leBytes_length, Vector.length_toList]
  omega

@[simp] theorem frames_length (offset : Nat) (payloads : List (List UInt8)) :
    (frames host key offset payloads).length = totalSize payloads := by
  induction payloads generalizing offset with
  | nil => rfl
  | cons p ps ih => rw [frames, List.length_append, frame_length, ih, totalSize_cons]

theorem frames_append (offset : Nat) (ps qs : List (List UInt8)) :
    frames host key offset (ps ++ qs) =
      frames host key offset ps ++ frames host key (offset + totalSize ps) qs := by
  induction ps generalizing offset with
  | nil => rfl
  | cons p ps ih =>
    rw [List.cons_append, frames, frames, ih, totalSize_cons, Nat.add_assoc, List.append_assoc]

end

/-- The comparison of tags finds every difference. -/
theorem tagMatches_tag (sha256 : List UInt8 → Vector UInt8 32) (key : SpillAuthenticationKey)
    (offset : Nat) (header payload : List UInt8) :
    key.tagMatches sha256 offset header payload (key.tag sha256 offset header payload).toList =
      true := by
  have hfold (l : List UInt8) : (l.zip l).foldl
      (fun difference pair => difference ||| (pair.1 ^^^ pair.2)) (0 : UInt8) = 0 := by
    induction l with
    | nil => rfl
    | cons b l ih =>
      rw [List.zip_cons_cons, List.foldl_cons, UInt8.xor_self]
      exact ih
  unfold SpillAuthenticationKey.tagMatches
  dsimp only
  rw [hfold]
  rfl

/-- The file holds the frames of `live` and then `extra`; the counts are those of `live`. -/
structure Filed (host : SpillHost) (key : SpillAuthenticationKey) (maximum : Nat)
    (live : List (List UInt8)) (extra : List UInt8) (s : RecordSpill) : Prop where
  file : s.file = frames host key 0 live ++ extra
  length : s.length = totalSize live
  records : s.records = live.length
  authentication : s.authentication = key
  maximumPayload : s.maximumPayload = maximum
  fits : ∀ p ∈ live, p.length ≤ maximum
  small : totalSize live < 2 ^ 64

/-- The file is not as long as was accounted. -/
def Torn (s : RecordSpill) : Prop := s.file.length ≠ s.length

variable {host : SpillHost} {key : SpillAuthenticationKey} {maximum : Nat}
  {live : List (List UInt8)} {extra : List UInt8}

theorem Filed.file_length {s : RecordSpill} (h : Filed host key maximum live extra s) :
    s.file.length = s.length + extra.length := by
  rw [h.file, h.length, List.length_append, frames_length]

theorem Filed.torn {s : RecordSpill} (h : Filed host key maximum live extra s)
    (hextra : extra ≠ []) : Torn s := by
  have := List.length_pos_iff.mpr hextra
  unfold Torn
  rw [h.file_length]
  omega

/-! ## Calls -/

theorem systemCall_quiet (hquiet : host.Quiet) (s : RecordSpill) :
    systemCall host s = .ok (host.events s.calls) { s with calls := s.calls + 1 } := by
  unfold systemCall
  rw [hquiet]

/-- The state when a call has been made. -/
def called (s : RecordSpill) : RecordSpill := { s with calls := s.calls + 1 }

theorem call_quiet (hquiet : host.Quiet) {α : Type} (f : SpillM α) (s : RecordSpill) :
    (do failIfFails (← systemCall host); f) s =
      match (host.events s.calls).failure with
      | none => f s.called
      | some failure => .error failure.error s.called := by
  show EStateM.bind (systemCall host) _ s = _
  rw [EStateM.bind, systemCall_quiet hquiet]
  show EStateM.bind (failIfFails _) _ _ = _
  unfold EStateM.bind failIfFails
  cases hfail : (host.events s.calls).failure with
  | none => rfl
  | some failure => rfl

/-- A call that does not fail goes on with the state as it was. -/
theorem triple_call (hquiet : host.Quiet) {α : Type} {P : RecordSpill → Prop} {f : SpillM α}
    {Q : α → RecordSpill → Prop} {E : StorageError → RecordSpill → Prop}
    (hP : ∀ s, P s → P s.called) (hE : ∀ e s, P s → host.Failing → E e s)
    (hf : Triple P f Q E) : Triple P (do failIfFails (← systemCall host); f) Q E := by
  intro s hs
  rw [call_quiet hquiet]
  cases hfail : (host.events s.calls).failure with
  | none => exact hf s.called (hP s hs)
  | some failure => exact hE failure.error s.called (hP s hs) ⟨s.calls, failure, hfail⟩

theorem Filed.called {s : RecordSpill} (h : Filed host key maximum live extra s) :
    Filed host key maximum live extra s.called :=
  ⟨h.file, h.length, h.records, h.authentication, h.maximumPayload, h.fits, h.small⟩

/-- An assertion about the file and the cursor. -/
structure At (host : SpillHost) (key : SpillAuthenticationKey) (maximum : Nat)
    (live : List (List UInt8)) (extra : List UInt8) (position : Nat) (s : RecordSpill) : Prop
    extends Filed host key maximum live extra s where
  position : s.position = position

theorem At.called {position : Nat} {s : RecordSpill}
    (h : At host key maximum live extra position s) :
    At host key maximum live extra position s.called := ⟨h.toFiled.called, h.position⟩

/-- What is left when an operation has failed midway. -/
abbrev FailedIn (host : SpillHost) (key : SpillAuthenticationKey) (maximum : Nat)
    (live : List (List UInt8)) (s : RecordSpill) : Prop :=
  Filed host key maximum live [] s ∧ host.Failing

variable {α : Type} {Q : α → RecordSpill → Prop}

theorem seek_then (hquiet : host.Quiet) {offset : Nat} {f : SpillM α}
    {E : StorageError → RecordSpill → Prop}
    (hE : ∀ e s, Filed host key maximum live extra s → host.Failing → E e s)
    (hf : Triple (At host key maximum live extra offset) f Q E) :
    Triple (Filed host key maximum live extra) (do seek host offset; f) Q E := by
  refine Triple.bind (Q := fun _ => At host key maximum live extra offset) ?_ fun _ => hf
  refine triple_call hquiet (fun s h => h.called) hE fun s hs => ?_
  exact ⟨⟨hs.file, hs.length, hs.records, hs.authentication, hs.maximumPayload, hs.fits, hs.small⟩,
    rfl⟩

theorem readExact_then (hquiet : host.Quiet) {position count : Nat} {bytes : List UInt8}
    {f : List UInt8 → SpillM α} {E : StorageError → RecordSpill → Prop}
    (hE : ∀ e s, Filed host key maximum live extra s → host.Failing → E e s)
    (hcount : bytes.length = count)
    (hslice : slice (frames host key 0 live ++ extra) position bytes.length = bytes)
    (hend : position + bytes.length ≤ totalSize live + extra.length)
    (hf : Triple (At host key maximum live extra (position + bytes.length)) (f bytes) Q E) :
    Triple (At host key maximum live extra position) (readExact host count >>= f) Q E := by
  subst hcount
  refine Triple.bind (Q := fun b s => b = bytes ∧
    At host key maximum live extra (position + bytes.length) s) ?_ fun b =>
      Triple.of_fact (fun _ h => h.1) fun hb => ?_
  · refine triple_call hquiet (fun s h => h.called) (fun e s h => hE e s h.toFiled) fun s hs => ?_
    have hlen : ¬s.file.length < s.position + bytes.length := by
      rw [hs.toFiled.file_length, hs.position, hs.length]
      omega
    simp only [if_neg hlen]
    refine ⟨?_, ⟨hs.file, hs.length, hs.records, hs.authentication, hs.maximumPayload, hs.fits,
      hs.small⟩, ?_⟩
    · rw [← slice, hs.file, hs.position]
      exact hslice
    · rw [hs.position]
  · subst hb
    exact hf.weaken (fun _ h => h.2) (fun _ _ h => h) fun _ _ h => h

theorem ensure_then {P : RecordSpill → Prop} {check : Bool} {e : StorageError} {f : SpillM α}
    {E : StorageError → RecordSpill → Prop} (hcheck : check = true) (hf : Triple P f Q E) :
    Triple P (do ensure check e; f) Q E := by
  subst hcheck
  exact hf

theorem ofExcept_then {β : Type} {P : RecordSpill → Prop} {x : Except StorageError β} {b : β}
    {f : β → SpillM α} {E : StorageError → RecordSpill → Prop} (hx : x = .ok b)
    (hf : Triple P (f b) Q E) : Triple P (ofExcept x >>= f) Q E := by
  subst hx
  exact hf

theorem get_then {P : RecordSpill → Prop} {f : RecordSpill → SpillM α}
    {E : StorageError → RecordSpill → Prop} (hf : ∀ s₁, P s₁ → Triple P (f s₁) Q E) :
    Triple P (get >>= f) Q E := fun s hs => hf s hs s hs

theorem checkTag_then {offset position : Nat} {header payload tag : List UInt8} {f : SpillM α}
    {E : StorageError → RecordSpill → Prop}
    (hmatch : key.tagMatches host.sha256 offset header payload tag = true)
    (hf : Triple (Filed host key maximum live extra) f Q E) :
    Triple (At host key maximum live extra position)
      (do checkTag host offset header payload tag; f) Q E := by
  refine Triple.bind (Q := fun _ => Filed host key maximum live extra) ?_ fun _ => hf
  intro s hs
  unfold checkTag
  rw [hs.authentication, if_pos hmatch]
  exact ⟨hs.file, hs.length, hs.records, rfl, hs.maximumPayload, hs.fits, hs.small⟩

/-! ## Reading what is there -/

theorem slice_frame (after : List (List UInt8)) {before : List (List UInt8)} {p x y z : List UInt8}
    (h : frame host key (totalSize before) p = x ++ (y ++ z)) :
    slice (frames host key 0 (before ++ p :: after) ++ []) (totalSize before + x.length) y.length =
      y := by
  have hfile : frames host key 0 (before ++ p :: after) ++ [] =
      (frames host key 0 before ++ x) ++
        (y ++ (z ++ frames host key (totalSize before + recordSize p) after)) := by
    rw [List.append_nil, frames_append, frames, Nat.zero_add, h]
    simp only [List.append_assoc]
  have hlen : totalSize before + x.length = (frames host key 0 before ++ x).length := by
    rw [List.length_append, frames_length]
  rw [hfile, hlen, slice_append]

theorem spillRecordLen_of_lt {payload : List UInt8} (h : recordSize payload < 2 ^ 64) :
    spillRecordLen payload.length = .ok (recordSize payload) := by
  unfold recordSize at *
  unfold spillRecordLen spillRecordLengthBytes spillRecordMacBytes
  dsimp only
  rw [if_neg (by omega)]
  congr 1
  omega

theorem readRecord_live (hquiet : host.Quiet) {before after : List (List UInt8)}
    {p : List UInt8} {finish : Nat} (hfinish : finish = totalSize (before ++ p :: after)) :
    Triple (Filed host key maximum (before ++ p :: after) [])
      (readRecord host (totalSize before) finish)
      (fun r s => r = (p, totalSize before + recordSize p) ∧
        Filed host key maximum (before ++ p :: after) [] s)
      fun _ => FailedIn host key maximum (before ++ p :: after) := by
  refine Triple.of_fact (p := p.length ≤ maximum ∧ totalSize (before ++ p :: after) < 2 ^ 64)
    (fun s h => ⟨h.fits p (List.mem_append_right _ List.mem_cons_self), h.small⟩)
    fun ⟨hfits, hsmall⟩ => ?_
  have htotal : totalSize (before ++ p :: after) = totalSize before + recordSize p +
      totalSize after := by
    rw [totalSize_append, totalSize_cons, Nat.add_assoc]
  have hsize : recordSize p = 48 + p.length := rfl
  have hE : ∀ (e : StorageError) s, Filed host key maximum (before ++ p :: after) [] s →
      host.Failing → FailedIn host key maximum (before ++ p :: after) s := fun _ _ h hf => ⟨h, hf⟩
  -- the four parts of the frame
  obtain ⟨header, hheader⟩ : ∃ header, header = leBytes 8 p.length := ⟨_, rfl⟩
  obtain ⟨tag, htag⟩ : ∃ tag, tag = (key.tag host.sha256 (totalSize before) header p).toList :=
    ⟨_, rfl⟩
  have hnumber : leNat header = p.length := by
    rw [hheader]
    exact leNat_leBytes (by omega)
  have hlen : spillRecordLen p.length = .ok (recordSize p) := spillRecordLen_of_lt (by omega)
  have hheaderLength : header.length = 8 := by rw [hheader, leBytes_length]
  have htagLength : tag.length = spillRecordMacBytes := by
    rw [htag]
    exact Vector.length_toList
  have hmac : spillRecordMacBytes = 32 := rfl
  have hframe : frame host key (totalSize before) p = header ++ (p ++ (tag ++ header)) := by
    rw [htag, hheader]
    rfl
  have hpart1 := slice_frame after (x := []) (y := header) (z := p ++ (tag ++ header)) hframe
  have hpart2 := slice_frame after hframe
  have hpart3 := slice_frame after (x := header ++ p) (y := tag) (z := header)
    (by rw [hframe, List.append_assoc])
  have hpart4 := slice_frame after (x := header ++ p ++ tag) (y := header) (z := [])
    (by rw [hframe, List.append_nil, List.append_assoc, List.append_assoc])
  rw [List.length_nil, Nat.add_zero] at hpart1
  rw [List.length_append, ← Nat.add_assoc] at hpart3
  rw [List.length_append, List.length_append, ← Nat.add_assoc, ← Nat.add_assoc] at hpart4
  unfold readRecord
  refine ensure_then (decide_eq_true (by unfold spillRecordLengthBytes; omega)) ?_
  refine ensure_then (decide_eq_true (by unfold spillRecordLengthBytes; omega)) ?_
  refine seek_then hquiet hE ?_
  refine readExact_then hquiet hE hheaderLength hpart1 (by rw [List.length_nil]; omega) ?_
  refine get_then fun s₁ hs₁ => ?_
  rw [hnumber, hlen]
  refine ensure_then (decide_eq_true (by rw [hs₁.maximumPayload]; exact hfits)) ?_
  refine ofExcept_then rfl ?_
  refine ensure_then (decide_eq_true (by omega)) ?_
  refine ensure_then (decide_eq_true (by omega)) ?_
  refine readExact_then hquiet hE rfl hpart2 (by rw [List.length_nil]; omega) ?_
  refine readExact_then hquiet hE htagLength hpart3 (by rw [List.length_nil]; omega) ?_
  refine readExact_then hquiet hE hheaderLength hpart4 (by rw [List.length_nil]; omega) ?_
  refine ensure_then (beq_self_eq_true header) ?_
  refine checkTag_then (htag ▸ tagMatches_tag host.sha256 key _ _ _) ?_
  exact Triple.pure fun s hs => ⟨rfl, hs⟩

theorem verifyLength_live (hquiet : host.Quiet) :
    Triple (Filed host key maximum live []) (verifyLength host)
      (fun _ => Filed host key maximum live []) fun _ => FailedIn host key maximum live := by
  unfold verifyLength
  refine Triple.bind (Q := fun n s => n = s.length ∧ Filed host key maximum live [] s) ?_
    fun n s hs => ?_
  · exact triple_call hquiet (fun s h => h.called) (fun _ _ h hf => ⟨h, hf⟩)
      fun s hs => ⟨hs.file_length, hs⟩
  · rw [if_pos hs.1]
    exact hs.2

theorem verifyLength_then (hquiet : host.Quiet) {f : SpillM α}
    {E : StorageError → RecordSpill → Prop}
    (hE : ∀ e s, Filed host key maximum live [] s → host.Failing → E e s)
    (hf : Triple (Filed host key maximum live []) f Q E) :
    Triple (Filed host key maximum live []) (do verifyLength host; f) Q E :=
  Triple.bind ((verifyLength_live hquiet).weaken (fun _ h => h) (fun _ _ h => h)
    fun e s h => hE e s h.1 h.2) fun _ => hf

theorem readAt_live (hquiet : host.Quiet) {before after : List (List UInt8)} {p : List UInt8} :
    Triple (Filed host key maximum (before ++ p :: after) []) (readAt host (totalSize before))
      (fun r s => r = (p, totalSize before + recordSize p) ∧
        Filed host key maximum (before ++ p :: after) [] s)
      fun _ => FailedIn host key maximum (before ++ p :: after) :=
  verifyLength_then hquiet (fun _ _ h hf => ⟨h, hf⟩) <| get_then fun _ hs₁ =>
    readRecord_live hquiet hs₁.length

/-! ## Taking the last record off -/

theorem trailer_of_last {before : List (List UInt8)} {p : List UInt8} :
    slice (frames host key 0 (before ++ [p]) ++ [])
      (totalSize (before ++ [p]) - spillRecordLengthBytes) (leBytes 8 p.length).length =
        leBytes 8 p.length := by
  have hpart := @slice_frame host key [] before p
    (leBytes 8 p.length ++ p ++
      (key.tag host.sha256 (totalSize before) (leBytes 8 p.length) p).toList)
    (leBytes 8 p.length) []
    (by rw [frame, List.append_nil, List.append_assoc, List.append_assoc])
  have hwhere : totalSize before + (leBytes 8 p.length ++ p ++
      (key.tag host.sha256 (totalSize before) (leBytes 8 p.length) p).toList).length =
        totalSize (before ++ [p]) - spillRecordLengthBytes := by
    simp only [totalSize_append, totalSize_cons, totalSize_nil, recordSize, List.length_append,
      leBytes_length, Vector.length_toList, spillRecordLengthBytes]
    omega
  rw [hwhere] at hpart
  exact hpart

theorem setLen_then (hquiet : host.Quiet) {before : List (List UInt8)} {p : List UInt8}
    {E : StorageError → RecordSpill → Prop} {f : SpillM α}
    (hE : ∀ e s, Filed host key maximum (before ++ [p]) [] s → host.Failing → E e s)
    (hf : Triple (fun s => Filed host key maximum before []
      { s with length := totalSize before, records := s.records - 1 } ∧
        s.records = before.length + 1) f Q E) :
    Triple (Filed host key maximum (before ++ [p]) []) (do setLen host (totalSize before); f)
      Q E := by
  refine Triple.bind (Q := fun _ s => Filed host key maximum before []
    { s with length := totalSize before, records := s.records - 1 } ∧
      s.records = before.length + 1) ?_ fun _ => hf
  refine triple_call hquiet (fun s h => h.called) hE fun s hs => ?_
  have hrecords : s.records = before.length + 1 := by
    rw [hs.records, List.length_append, List.length_singleton]
  have hsmall := hs.small
  rw [totalSize_append] at hsmall
  refine ⟨⟨?_, rfl, ?_, hs.authentication, hs.maximumPayload,
    fun q hq => hs.fits q (List.mem_append_left _ hq), by omega⟩, hrecords⟩
  · show s.file.take (totalSize before) ++ List.replicate (totalSize before - s.file.length) 0 = _
    have hlen : totalSize before = (frames host key 0 before).length := by rw [frames_length]
    have hnone : totalSize before - s.file.length = 0 := by
      rw [hs.file_length, hs.length, totalSize_append]
      omega
    rw [hnone, hs.file, frames_append, List.append_nil, hlen, List.take_left]
    rfl
  · show s.records - 1 = before.length
    omega

theorem popLast_live (hquiet : host.Quiet) {before : List (List UInt8)} {p : List UInt8} :
    Triple (Filed host key maximum (before ++ [p]) []) (popLast host)
      (fun payload s => payload = p ∧ Filed host key maximum before [] s)
      fun _ => FailedIn host key maximum (before ++ [p]) := by
  refine Triple.of_fact (p := p.length ≤ maximum ∧ totalSize (before ++ [p]) < 2 ^ 64)
    (fun s h => ⟨h.fits p (List.mem_append_right _ List.mem_cons_self), h.small⟩)
    fun ⟨hfits, hsmall⟩ => ?_
  have htotal : totalSize (before ++ [p]) = totalSize before + recordSize p := by
    rw [totalSize_append, totalSize_cons, totalSize_nil, Nat.add_zero]
  have hsize : recordSize p = 48 + p.length := rfl
  have h8 : spillRecordLengthBytes = 8 := rfl
  have hE : ∀ (e : StorageError) s, Filed host key maximum (before ++ [p]) [] s →
      host.Failing → FailedIn host key maximum (before ++ [p]) s := fun _ _ h hf => ⟨h, hf⟩
  obtain ⟨trailer, htrailer⟩ : ∃ trailer, trailer = leBytes 8 p.length := ⟨_, rfl⟩
  have hnumber : leNat trailer = p.length := by
    rw [htrailer]
    exact leNat_leBytes (by omega)
  have hlen : spillRecordLen p.length = .ok (recordSize p) := spillRecordLen_of_lt (by omega)
  have hslice := @trailer_of_last host key before p
  have htrailerLength : trailer.length = 8 := by rw [htrailer, leBytes_length]
  rw [← htrailer] at hslice
  unfold popLast
  refine get_then fun s₁ hs₁ => ?_
  rw [hs₁.length]
  refine ensure_then (decide_eq_true (by omega)) ?_
  refine seek_then hquiet hE ?_
  refine readExact_then hquiet hE htrailerLength hslice (by rw [List.length_nil]; omega) ?_
  rw [hnumber]
  dsimp only
  rw [hlen, hs₁.maximumPayload]
  refine ensure_then (decide_eq_true hfits) ?_
  refine ofExcept_then rfl ?_
  refine ensure_then (decide_eq_true (by omega)) ?_
  have hstart : totalSize (before ++ [p]) - recordSize p = totalSize before := by omega
  rw [hstart]
  refine Triple.bind ((readRecord_live hquiet rfl).weaken (fun _ h => h.toFiled) (fun _ _ h => h)
    fun _ _ h => h) fun r => Triple.of_fact (fun _ h => h.1) fun hr => ?_
  subst hr
  refine ensure_then (beq_iff_eq.mpr htotal.symm) ?_
  refine Triple.weaken (P := Filed host key maximum (before ++ [p]) []) ?_ (fun _ h => h.2)
    (fun _ _ h => h) fun _ _ h => h
  refine setLen_then hquiet hE ?_
  intro s hs
  have hnonzero : s₁.records ≠ 0 := by
    rw [hs₁.records, List.length_append, List.length_singleton]
    omega
  simp only [hnonzero, ne_eq, not_false_eq_true, decide_true]
  obtain ⟨hfile, hlength, hcount, hkey, hmaximum, hfits', hsmall'⟩ := hs.1
  exact ⟨rfl, hfile, hlength, hcount, hkey, hmaximum, hfits', hsmall'⟩

theorem pop_live (hquiet : host.Quiet) :
    Triple (Filed host key maximum live []) (pop host)
      (fun r s => r = live.getLast? ∧ Filed host key maximum live.dropLast [] s)
      fun _ => FailedIn host key maximum live := by
  refine verifyLength_then hquiet (fun _ _ h hf => ⟨h, hf⟩) <| get_then fun s₁ hs₁ => ?_
  rcases List.eq_nil_or_concat live with rfl | ⟨before, p, rfl⟩
  · rw [if_pos (by rw [hs₁.records]; rfl)]
    exact ensure_then (beq_iff_eq.mpr hs₁.length) <| Triple.pure fun s hs => ⟨rfl, hs⟩
  · rw [List.concat_eq_append] at hs₁ ⊢
    rw [if_neg (by rw [hs₁.records, List.length_append, List.length_singleton]; omega)]
    refine Triple.bind (popLast_live hquiet) fun payload => Triple.pure ?_
    rintro s ⟨rfl, hs⟩
    rw [List.getLast?_concat, List.dropLast_concat]
    exact ⟨rfl, hs⟩

/-! ## Appending -/

/-- A failed write leaves the file as it was, or longer than was accounted. -/
abbrev FailedWriting (host : SpillHost) (key : SpillAuthenticationKey) (maximum : Nat)
    (live : List (List UInt8)) (s : RecordSpill) : Prop :=
  (Filed host key maximum live [] s ∨ Torn s) ∧ host.Failing

theorem Filed.failedWriting {s : RecordSpill} (h : Filed host key maximum live extra s)
    (hf : host.Failing) : FailedWriting host key maximum live s := by
  by_cases hnil : extra = []
  · subst hnil
    exact ⟨Or.inl h, hf⟩
  · exact ⟨Or.inr (h.torn hnil), hf⟩

/-- The cursor is at the end of the file. -/
def AtEnd (host : SpillHost) (key : SpillAuthenticationKey) (maximum : Nat)
    (live : List (List UInt8)) (extra : List UInt8) (s : RecordSpill) : Prop :=
  At host key maximum live extra (totalSize live + extra.length) s

theorem writeAll_end (hquiet : host.Quiet) (bytes : List UInt8) :
    Triple (AtEnd host key maximum live extra) (writeAll host bytes)
      (fun _ => AtEnd host key maximum live (extra ++ bytes))
      fun _ => FailedWriting host key maximum live := by
  have hwrite {s : RecordSpill} (hs : AtEnd host key maximum live extra s) (written : List UInt8) :
      AtEnd host key maximum live (extra ++ written) { s with
        file := overwrite s.file s.position written
        position := s.position + written.length } := by
    have hend : s.position = s.file.length := by
      rw [hs.position, hs.toFiled.file_length, hs.length]
    refine ⟨⟨?_, hs.length, hs.records, hs.authentication, hs.maximumPayload, hs.fits, hs.small⟩, ?_⟩
    · show overwrite s.file s.position written = _
      rw [hend, overwrite_end, hs.file, List.append_assoc]
    · show s.position + written.length = _
      rw [hs.position, List.length_append, Nat.add_assoc]
  refine Triple.bind (Q := fun e s => AtEnd host key maximum live extra s ∧
    ∀ failure, e.failure = some failure → host.Failing) ?_ fun e s hs => ?_
  · intro s hs
    rw [systemCall_quiet hquiet]
    exact ⟨hs.called, fun failure hfail => ⟨s.calls, failure, hfail⟩⟩
  · cases hfail : e.failure with
    | none => exact hwrite hs.1 bytes
    | some failure =>
      exact (hwrite hs.1 (bytes.take failure.written)).toFiled.failedWriting (hs.2 failure hfail)

theorem writeRecord_end (hquiet : host.Quiet) {header payload : List UInt8}
    {tag : Vector UInt8 32} :
    Triple (AtEnd host key maximum live []) (writeRecord host header payload tag)
      (fun _ => AtEnd host key maximum live (header ++ (payload ++ (tag.toList ++ header))))
      fun _ => FailedWriting host key maximum live := by
  refine Triple.bind (writeAll_end hquiet header) fun _ =>
    Triple.bind (writeAll_end hquiet payload) fun _ =>
    Triple.bind (writeAll_end hquiet tag.toList) fun _ => ?_
  have hlast := @writeAll_end host key maximum live ([] ++ header ++ payload ++ tag.toList) hquiet
    header
  simp only [List.nil_append, List.append_assoc] at hlast ⊢
  exact hlast

theorem reserve_then (hquiet : host.Quiet) {growReservation : Bool} {nextLength : Nat}
    {f : SpillM α} {E : StorageError → RecordSpill → Prop}
    (hE : ∀ e s, Filed host key maximum live [] s → E e s)
    (hf : Triple (Filed host key maximum live []) f Q E) :
    Triple (Filed host key maximum live []) (do reserve host growReservation nextLength; f)
      Q E := by
  refine Triple.bind (Q := fun _ => Filed host key maximum live []) ?_ fun _ => hf
  cases growReservation with
  | true =>
    refine Triple.bind (Q := fun _ => Filed host key maximum live []) ?_ fun e s hs => ?_
    · intro s hs
      rw [systemCall_quiet hquiet]
      exact hs.called
    · cases e.storage.growTo e.stopSeen s.reserved nextLength with
      | error e' => exact hE e' s hs
      | ok r =>
        exact ⟨hs.file, hs.length, hs.records, hs.authentication, hs.maximumPayload, hs.fits,
          hs.small⟩
  | false =>
    refine Triple.of_result fun s hs => ⟨fun _ s' hc => ?_, fun e s' hc => ?_⟩ <;>
      change (if s.reserved < nextLength then _ else _) = _ at hc <;> split at hc <;> cases hc
    · exact hs
    · exact hE _ s hs

theorem payloadLen_then {payload : List UInt8} {f : Nat → SpillM α}
    {E : StorageError → RecordSpill → Prop}
    (hE : ∀ e s, Filed host key maximum live [] s → E e s)
    (hf : payload.length ≤ maximum → payload.length < 2 ^ 64 →
      Triple (Filed host key maximum live []) (f payload.length) Q E) :
    Triple (Filed host key maximum live []) (payloadLen payload >>= f) Q E := by
  refine Triple.bind (Q := fun n s => (n = payload.length ∧ n ≤ maximum ∧ n < 2 ^ 64) ∧
    Filed host key maximum live [] s) ?_ fun n => Triple.of_fact (fun _ h => h.1) fun hn => ?_
  · refine Triple.of_result fun s hs => ⟨fun n s' hc => ?_, fun e s' hc => ?_⟩ <;>
      unfold payloadLen at hc <;> split at hc
    · cases hc
    · rename_i hbound
      split at hc <;> cases hc
      rename_i hfits
      rw [hs.maximumPayload] at hfits
      exact ⟨⟨rfl, by omega, by omega⟩, hs⟩
    · cases hc
      exact hE _ s hs
    · split at hc <;> cases hc
      exact hE _ s hs
  · obtain ⟨rfl, hle, hlt⟩ := hn
    exact (hf hle hlt).weaken (fun _ h => h.2) (fun _ _ h => h) fun _ _ h => h

theorem ensure_or {check : Bool} {e : StorageError} {f : SpillM α} {P : RecordSpill → Prop}
    {E : StorageError → RecordSpill → Prop} (hE : ∀ e s, P s → E e s)
    (hf : check = true → Triple P f Q E) : Triple P (do ensure check e; f) Q E := by
  cases check with
  | true => exact hf rfl
  | false => exact fun s hs => hE e s hs

theorem append_live (hquiet : host.Quiet) (payload : List UInt8) (growReservation : Bool) :
    Triple (Filed host key maximum live []) (append host payload growReservation)
      (fun _ => Filed host key maximum (live ++ [payload]) [])
      fun _ s => Filed host key maximum live [] s ∨ (Torn s ∧ host.Failing) := by
  have hE : ∀ (e : StorageError) s, Filed host key maximum live [] s →
      Filed host key maximum live [] s ∨ (Torn s ∧ host.Failing) := fun _ _ h => Or.inl h
  have hEf : ∀ (e : StorageError) s, Filed host key maximum live [] s → host.Failing →
      Filed host key maximum live [] s ∨ (Torn s ∧ host.Failing) := fun _ _ h _ => Or.inl h
  refine payloadLen_then hE fun hfits _ => ?_
  cases hlen : spillRecordLen payload.length with
  | error e => exact fun s hs => hE e s hs
  | ok len =>
    have hlen' : len = recordSize payload := (spillRecordLen_eq_ok hlen).1
    refine ofExcept_then rfl ?_
    refine get_then fun s₁ hs₁ => ?_
    refine ensure_or hE fun hnext => ?_
    refine ensure_or hE fun _ => ?_
    refine verifyLength_then hquiet hEf ?_
    refine reserve_then hquiet hE ?_
    refine Triple.bind (Q := fun tag s =>
      tag = key.tag host.sha256 (totalSize live) (leBytes 8 payload.length) payload ∧
        Filed host key maximum live [] s) ?_ fun tag => Triple.of_fact (fun _ h => h.1) fun htag => ?_
    · intro s hs
      refine ⟨?_, hs.file, hs.length, hs.records, hs.authentication, hs.maximumPayload, hs.fits,
        hs.small⟩
      rw [hs.authentication, hs.length]
    · refine Triple.weaken (P := Filed host key maximum live []) ?_ (fun _ h => h.2)
        (fun _ _ h => h) fun _ _ h => h
      rw [hs₁.length]
      refine seek_then hquiet hEf ?_
      refine Triple.bind ((writeRecord_end hquiet).weaken (fun _ h => h) (fun _ _ h => h)
        fun _ s h => h.1.imp_right fun htorn => ⟨htorn, h.2⟩) fun _ s hs => ?_
      have hsize : totalSize (live ++ [payload]) = totalSize live + len := by
        rw [totalSize_append, totalSize_cons, totalSize_nil, hlen', Nat.add_zero]
      refine ⟨?_, hsize.symm, ?_, hs.authentication, hs.maximumPayload, ?_, ?_⟩
      · show s.file = _
        rw [hs.file, frames_append, frames, frames, frame, Nat.zero_add, htag, List.append_nil,
          List.append_nil]
      · show s₁.records + 1 = _
        rw [hs₁.records, List.length_append, List.length_singleton]
      · intro q hq
        rcases List.mem_append.mp hq with hq | hq
        · exact hs.fits q hq
        · rw [List.mem_singleton.mp hq]
          exact hfits
      · rw [hsize, ← hs₁.length]
        exact of_decide_eq_true hnext

/-! ## A file of another length -/

theorem verifyLength_torn (hquiet : host.Quiet) :
    Triple Torn (verifyLength host) (fun _ _ => False) fun _ => Torn := by
  unfold verifyLength
  refine Triple.bind (Q := fun n s => n = s.file.length ∧ Torn s) ?_ fun n s hs => ?_
  · exact triple_call hquiet (fun s h => h) (fun _ s h _ => h) fun s hs => ⟨rfl, hs⟩
  · rw [if_neg (by rw [hs.1]; exact hs.2)]
    exact hs.2

theorem append_torn (hquiet : host.Quiet) (payload : List UInt8) (growReservation : Bool) :
    Triple Torn (append host payload growReservation) (fun _ _ => False) fun _ => Torn := by
  have hE : ∀ (e : StorageError) s, Torn s → Torn s := fun _ _ h => h
  refine Triple.bind (Q := fun _ => Torn) ?_ fun n => ?_
  · refine Triple.of_result fun s hs => ⟨fun n s' hc => ?_, fun e s' hc => ?_⟩ <;>
      unfold payloadLen at hc <;> split at hc <;> try split at hc
    all_goals cases hc
    all_goals exact hs
  · cases spillRecordLen n with
    | error e => exact fun s hs => hs
    | ok len =>
      refine ofExcept_then rfl ?_
      refine get_then fun s₁ _ => ?_
      refine ensure_or hE fun _ => ?_
      refine ensure_or hE fun _ => ?_
      exact Triple.bind (verifyLength_torn hquiet) fun _ => fun s hs => hs.elim

theorem pop_torn (hquiet : host.Quiet) :
    Triple Torn (pop host) (fun _ _ => False) fun _ => Torn :=
  Triple.bind (verifyLength_torn hquiet) fun _ => fun _ hs => hs.elim

theorem readAt_torn (hquiet : host.Quiet) (offset : Nat) :
    Triple Torn (readAt host offset) (fun _ _ => False) fun _ => Torn :=
  Triple.bind (verifyLength_torn hquiet) fun _ => fun _ hs => hs.elim

/-! ## Passes -/

theorem handOver_starts (accept : List (List UInt8) → Bool) (handed ps : List (List UInt8)) :
    handed <+: (handOver accept handed ps).1 := by
  induction ps generalizing handed with
  | nil => exact List.prefix_refl _
  | cons p ps ih =>
    unfold handOver
    split
    · exact (List.prefix_append handed [p]).trans (ih _)
    · exact List.prefix_append handed [p]

/-- A pass over live records hands them over as a list would, until a call fails. -/
theorem readRecords_live {read : Nat → SpillM (List UInt8 × Nat)}
    (hread : ∀ before p after, live = before ++ p :: after →
      Triple (Filed host key maximum live []) (read (totalSize before))
        (fun r s => r = (p, totalSize before + recordSize p) ∧ Filed host key maximum live [] s)
        fun _ => FailedIn host key maximum live)
    (accept : List (List UInt8) → Bool) {n : Nat} {before rest : List (List UInt8)}
    (hlive : live = before ++ rest) (hn : n ≤ rest.length) (handed : List (List UInt8))
    {s : RecordSpill} (hs : Filed host key maximum live [] s) :
    Filed host key maximum live [] (readRecords read accept n (totalSize before) handed s).2 ∧
      (((readRecords read accept n (totalSize before) handed s).1.1 =
            (handOver accept handed (rest.take n)).1 ∧
          (readRecords read accept n (totalSize before) handed s).1.2 =
            (handOver accept handed (rest.take n)).2.map fun _ =>
              totalSize (before ++ rest.take n)) ∨
        host.Failing ∧ (readRecords read accept n (totalSize before) handed s).1.1 <+:
            (handOver accept handed (rest.take n)).1 ∧
          ∃ e, (readRecords read accept n (totalSize before) handed s).1.2 = .error (.Io e)) := by
  induction n generalizing before rest handed s with
  | zero =>
    refine ⟨hs, Or.inl ⟨rfl, ?_⟩⟩
    rw [List.take_zero, List.append_nil]
    rfl
  | succ n ih =>
    cases rest with
    | nil => exact absurd hn (Nat.not_succ_le_zero n)
    | cons p rest =>
      rw [List.take_succ_cons]
      unfold readRecords
      cases hc : read (totalSize before) s with
      | error e s₁ =>
        obtain ⟨hfiled, hfailing⟩ := (hread before p rest hlive).error hs hc
        exact ⟨hfiled, Or.inr ⟨hfailing, handOver_starts accept handed _, e, rfl⟩⟩
      | ok r s₁ =>
        obtain ⟨rfl, hfiled⟩ := (hread before p rest hlive).ok hs hc
        unfold handOver
        dsimp only
        split
        · rename_i ha
          have hlive' : live = (before ++ [p]) ++ rest := by
            rw [hlive, List.append_assoc, List.singleton_append]
          have hrest := ih hlive' (Nat.le_of_succ_le_succ hn) (handed ++ [p]) hfiled
          have hsize : totalSize (before ++ [p]) = totalSize before + recordSize p := by
            rw [totalSize_append, totalSize_cons, totalSize_nil, Nat.add_zero]
          rw [hsize, List.append_assoc, List.singleton_append] at hrest
          exact hrest
        · exact ⟨hfiled, Or.inl ⟨rfl, rfl⟩⟩

theorem handOver_true (handed ps : List (List UInt8)) :
    handOver (fun _ => true) handed ps = (handed ++ ps, .ok ()) := by
  induction ps generalizing handed with
  | nil => rw [List.append_nil]; rfl
  | cons p ps ih => rw [handOver, if_pos rfl, ih, List.append_assoc, List.singleton_append]

/-- A pass gave what a list gives, or a call failed and the pass stopped there. -/
def PassOf (host : SpillHost) (given : List (List UInt8) × Except SpillVisitError Unit)
    (pass : List (List UInt8) × Except SpillVisitError Unit) : Prop :=
  pass = given ∨ host.Failing ∧ pass.1 <+: given.1 ∧ ∃ e, pass.2 = .error (.Io e)

theorem visit_live (hquiet : host.Quiet) (accept : List (List UInt8) → Bool) {s : RecordSpill}
    (hs : Filed host key maximum live [] s) :
    Filed host key maximum live [] (visit host accept s).2 ∧
      PassOf host (handOver accept [] live) (visit host accept s).1 := by
  unfold visit
  cases hc : verifyLength host s with
  | error e s₁ =>
    obtain ⟨hfiled, hfailing⟩ := (verifyLength_live hquiet).error hs hc
    exact ⟨hfiled, Or.inr ⟨hfailing, List.nil_prefix, e, rfl⟩⟩
  | ok _ s₁ =>
    have hfiled := (verifyLength_live hquiet).ok hs hc
    obtain ⟨hafter, hpass⟩ := @readRecords_live host key maximum live
      (fun offset => readRecord host offset s₁.length)
      (fun before p after hlive => by
        subst hlive
        exact readRecord_live hquiet hfiled.length) accept live.length [] live rfl
      (Nat.le_refl _) [] s₁ hfiled
    dsimp only
    rw [hfiled.records]
    rw [List.take_length, List.nil_append, totalSize_nil] at hpass
    rw [totalSize_nil] at hafter
    generalize readRecords _ accept live.length 0 [] s₁ = out at *
    obtain ⟨⟨handed, outcome⟩, s₂⟩ := out
    dsimp only at hpass hafter
    rcases hpass with ⟨rfl, rfl⟩ | ⟨hfailing, hstart, e, rfl⟩
    · cases hgiven : (handOver accept [] live).2 with
      | error e => exact ⟨hafter, Or.inl (by rw [Prod.ext_iff]; exact ⟨rfl, hgiven.symm⟩)⟩
      | ok _ =>
        dsimp only [Except.map]
        rw [if_pos hafter.length.symm]
        exact ⟨hafter, Or.inl (by rw [Prod.ext_iff]; exact ⟨rfl, hgiven.symm⟩)⟩
    · exact ⟨hafter, Or.inr ⟨hfailing, hstart, e, rfl⟩⟩

theorem iterate_live (hquiet : host.Quiet) (count : Nat) {s : RecordSpill}
    (hs : Filed host key maximum live [] s) :
    Filed host key maximum live [] (iterate host count s).2 ∧
      PassOf host (live.take count, .ok ()) (iterate host count s).1 := by
  obtain ⟨hafter, hpass⟩ := @readRecords_live host key maximum live (readAt host)
    (fun before p after hlive => by
      subst hlive
      exact readAt_live hquiet) (fun _ => true) (min count live.length) [] live rfl
    (Nat.min_le_right _ _) [] s hs
  have htake : live.take (min count live.length) = live.take count := by
    rw [← List.take_take, List.take_length]
  rw [htake, List.nil_append, totalSize_nil, handOver_true, List.nil_append] at hpass
  rw [totalSize_nil] at hafter
  unfold iterate
  rw [hs.records]
  generalize readRecords _ _ (min count live.length) 0 [] s = out at *
  obtain ⟨⟨handed, outcome⟩, s₂⟩ := out
  dsimp only at hpass hafter ⊢
  rcases hpass with ⟨rfl, rfl⟩ | ⟨hfailing, hstart, e, rfl⟩
  · exact ⟨hafter, Or.inl rfl⟩
  · exact ⟨hafter, Or.inr ⟨hfailing, hstart, e, rfl⟩⟩

/-! ## When a push is refused -/

/-- What a push needs besides calls that work: a record of at most the configured size, counts that
can go on, and room in the reservation, or in the storage behind it. -/
structure Accepts (host : SpillHost) (s : RecordSpill) (payload : List UInt8)
    (growReservation : Bool) : Prop where
  size : payload.length ≤ s.maximumPayload
  length : s.length + recordSize payload < 2 ^ 64
  records : s.records + 1 < 2 ^ 64
  /-- The storage is asked at the call after the one for the length of the file. -/
  grown : growReservation = true → ∃ r, (host.events (s.calls + 1)).storage.growTo
    (host.events (s.calls + 1)).stopSeen s.reserved (s.length + recordSize payload) = .ok r
  covered : growReservation = false → s.length + recordSize payload ≤ s.reserved

theorem writeAll_works (hquiet : host.Quiet) (hnone : ¬host.Failing) (bytes : List UInt8) :
    Triple (fun _ => True) (writeAll host bytes) (fun _ _ => True) fun _ _ => False := by
  refine Triple.bind (Q := fun event _ => event.failure = none) ?_ fun event s hevent => ?_
  · intro s _
    rw [systemCall_quiet hquiet]
    cases hfailure : (host.events s.calls).failure with
    | none => exact hfailure
    | some failure => exact absurd ⟨s.calls, failure, hfailure⟩ hnone
  · cases event
    subst hevent
    trivial

theorem metadataLen_works (hquiet : host.Quiet) (hnone : ¬host.Failing) (s : RecordSpill) :
    metadataLen host s = .ok s.file.length s.called := by
  refine (call_quiet hquiet (fun s => .ok s.file.length s) s).trans ?_
  cases hfailure : (host.events s.calls).failure with
  | none => rfl
  | some failure => exact absurd ⟨s.calls, failure, hfailure⟩ hnone

theorem verifyLength_works (hquiet : host.Quiet) (hnone : ¬host.Failing) {s : RecordSpill}
    (hs : Filed host key maximum live [] s) :
    Triple (fun t => t = s) (verifyLength host) (fun _ t => t = s.called) fun _ _ => False := by
  refine Triple.bind (Q := fun n t => n = s.length ∧ t = s.called) ?_ fun n => ?_
  · rintro t rfl
    rw [metadataLen_works hquiet hnone]
    exact ⟨hs.file_length, rfl⟩
  · rintro t ⟨rfl, rfl⟩
    dsimp only
    rw [if_pos (by rfl)]

/-- The storage is asked at the call that comes next. -/
theorem growTo_decided (hquiet : host.Quiet) (bytes : Nat) (s : RecordSpill) :
    Triple (fun t => t = s) (growTo host bytes)
      (fun _ _ => ∃ r, (host.events s.calls).storage.growTo (host.events s.calls).stopSeen
        s.reserved bytes = .ok r)
      fun _ _ => ¬∃ r, (host.events s.calls).storage.growTo (host.events s.calls).stopSeen
        s.reserved bytes = .ok r := by
  refine Triple.bind (Q := fun event t => event = host.events s.calls ∧ t = s.called) ?_
    fun event => ?_
  · rintro t rfl
    rw [systemCall_quiet hquiet]
    exact ⟨rfl, rfl⟩
  · rintro t ⟨rfl, rfl⟩
    dsimp only [called]
    cases (host.events s.calls).storage.growTo (host.events s.calls).stopSeen s.reserved bytes with
    | ok r => exact ⟨r, rfl⟩
    | error e => exact fun ⟨_, h⟩ => by cases h


/-- What comes once the room is there. -/
theorem written_works (hquiet : host.Quiet) (hnone : ¬host.Failing) (header payload : List UInt8)
    (offset nextLength nextRecords : Nat) :
    Triple (fun _ => True) (do
        let tag ← makeTag host header payload
        seek host offset
        writeRecord host header payload tag
        modify fun s => { s with length := nextLength, records := nextRecords })
      (fun _ _ => True) fun _ _ => False := by
  refine Triple.bind (Q := fun _ _ => True) (fun _ _ => trivial) fun tag => ?_
  refine Triple.bind (Q := fun _ _ => True) ?_ fun _ => ?_
  · exact triple_call hquiet (fun _ _ => trivial) (fun _ _ _ hfailing => hnone hfailing)
      fun _ _ => trivial
  refine Triple.bind (Q := fun _ _ => True) ?_ fun _ => fun _ _ => trivial
  refine (writeAll_works hquiet hnone header).bind fun _ => ?_
  refine (writeAll_works hquiet hnone payload).bind fun _ => ?_
  exact (writeAll_works hquiet hnone tag.toList).bind fun _ => writeAll_works hquiet hnone header

/-- A push is refused for its own record, for the counts, or for want of room. -/
theorem append_decided (hquiet : host.Quiet) (hnone : ¬host.Failing) {s : RecordSpill}
    (hs : Filed host key maximum live [] s) (payload : List UInt8) (growReservation : Bool) :
    Triple (fun t => t = s) (append host payload growReservation)
      (fun _ _ => Accepts host s payload growReservation)
      fun _ _ => ¬Accepts host s payload growReservation := by
  have hsize : recordSize payload = 48 + payload.length := rfl
  refine Triple.bind (Q := fun n t => (n = payload.length ∧ n ≤ s.maximumPayload) ∧ t = s) ?_
    fun n => Triple.of_fact (fun _ h => h.1) ?_
  · rintro t rfl
    unfold payloadLen
    by_cases hlong : 2 ^ 64 ≤ payload.length
    · rw [if_pos hlong]
      intro haccepts
      have := haccepts.length
      omega
    rw [if_neg hlong]
    by_cases hlarge : t.maximumPayload < payload.length
    · rw [if_pos hlarge]
      exact fun haccepts => Nat.not_lt.mpr haccepts.size hlarge
    · rw [if_neg hlarge]
      exact ⟨⟨rfl, Nat.not_lt.mp hlarge⟩, rfl⟩
  rintro ⟨rfl, hpayload⟩
  refine Triple.weaken (P := fun t => t = s) ?_ (fun _ h => h.2) (fun _ _ h => h) fun _ _ h => h
  cases hlen : spillRecordLen payload.length with
  | error e =>
    intro t _ haccepts
    have hlength := haccepts.length
    rw [spillRecordLen_of_lt (by omega)] at hlen
    cases hlen
  | ok len =>
    have hlen' : len = recordSize payload := (spillRecordLen_eq_ok hlen).1
    subst hlen'
    refine ofExcept_then rfl (get_then ?_)
    intro s₁ hs₁
    rw [hs₁]
    refine Triple.check (fun _ _ hlong haccepts => of_decide_eq_false hlong haccepts.length)
      fun hlength => ?_
    refine Triple.check (fun _ _ hmany haccepts => of_decide_eq_false hmany haccepts.records)
      fun hrecords => ?_
    have hlength := of_decide_eq_true hlength
    have hrecords := of_decide_eq_true hrecords
    refine Triple.bind ((verifyLength_works hquiet hnone hs).weaken (fun _ h => h)
      (fun _ _ h => h) fun _ _ h => h.elim) fun _ => ?_
    refine Triple.bind (Q := fun _ _ => Accepts host s payload growReservation) ?_ fun _ =>
      Triple.of_fact (fun _ h => h) fun haccepts => ?_
    rotate_left
    · exact (written_works hquiet hnone _ _ _ _ _).weaken (fun _ _ => trivial)
        (fun _ _ _ => haccepts) fun _ _ h => h.elim
    cases growReservation with
    | true =>
      exact (growTo_decided hquiet _ _).weaken (fun _ h => h)
        (fun _ _ h => ⟨hpayload, hlength, hrecords, fun _ => h, nofun⟩)
        fun _ _ h haccepts => h (haccepts.grown rfl)
    | false =>
      rintro _ rfl
      by_cases hroom : s.reserved < s.length + recordSize payload
      · have hrefused : reserve host false (s.length + recordSize payload) s.called =
            .error ⟨.StorageFull, "deletion result exceeds its reserved temporary storage"⟩
              s.called := if_pos hroom
        rw [hrefused]
        exact fun haccepts => Nat.not_lt.mpr (haccepts.covered rfl) hroom
      · have hcovered : reserve host false (s.length + recordSize payload) s.called =
            .ok () s.called := if_neg hroom
        rw [hcovered]
        exact ⟨hpayload, hlength, hrecords, nofun, fun _ => Nat.not_lt.mp hroom⟩

end RecordSpill

end Excise
