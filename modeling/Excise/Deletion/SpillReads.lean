import Excise.Deletion.RecordSpill

/-!
# What a read of a spill file returns

Whatever happens to the file, a record that is handed out passed the check of its tag at the place
it was read from, and a pass hands the records out one behind the other.
-/

namespace Excise
set_option autoImplicit false

/-- The bytes a record takes. -/
def recordSize (payload : List UInt8) : Nat := 48 + payload.length

def totalSize (payloads : List (List UInt8)) : Nat := (payloads.map recordSize).sum

/-- The records one behind the other from `offset` on. -/
def placed : Nat → List (List UInt8) → List (Nat × List UInt8)
  | _, [] => []
  | offset, payload :: rest => (offset, payload) :: placed (offset + recordSize payload) rest

@[simp] theorem totalSize_nil : totalSize [] = 0 := rfl

@[simp] theorem totalSize_cons (p : List UInt8) (ps : List (List UInt8)) :
    totalSize (p :: ps) = recordSize p + totalSize ps := rfl

@[simp] theorem totalSize_append (ps qs : List (List UInt8)) :
    totalSize (ps ++ qs) = totalSize ps + totalSize qs := by
  simp [totalSize]

theorem placed_append (offset : Nat) (ps qs : List (List UInt8)) :
    placed offset (ps ++ qs) = placed offset ps ++ placed (offset + totalSize ps) qs := by
  induction ps generalizing offset with
  | nil => rfl
  | cons p ps ih =>
    rw [List.cons_append, placed, placed, ih, totalSize_cons, Nat.add_assoc, List.cons_append]

/-- A visitor goes through a list. -/
def handOver (accept : List (List UInt8) → Bool) (handed : List (List UInt8)) :
    List (List UInt8) → List (List UInt8) × Except SpillVisitError Unit
  | [] => (handed, .ok ())
  | p :: ps =>
    if accept (handed ++ [p]) then handOver accept (handed ++ [p]) ps
    else (handed ++ [p], .error .Visitor)

theorem handOver_append {accept : List (List UInt8) → Bool} {handed ps : List (List UInt8)}
    (h : (handOver accept handed ps).2 = .ok ()) (qs : List (List UInt8)) :
    handOver accept handed (ps ++ qs) = handOver accept (handed ++ ps) qs := by
  induction ps generalizing handed with
  | nil => rw [List.nil_append, List.append_nil]
  | cons p ps ih =>
    unfold handOver at h
    rw [List.cons_append, handOver]
    split at h
    · rename_i ha
      rw [if_pos ha, ih h, List.append_assoc, List.singleton_append]
    · cases h

theorem handOver_append_refused {accept : List (List UInt8) → Bool}
    {handed ps : List (List UInt8)} (h : (handOver accept handed ps).2 ≠ .ok ())
    (qs : List (List UInt8)) :
    handOver accept handed (ps ++ qs) = handOver accept handed ps := by
  induction ps generalizing handed with
  | nil => exact absurd rfl h
  | cons p ps ih =>
    unfold handOver at h
    rw [List.cons_append, handOver, handOver]
    split at h
    · rename_i ha
      rw [if_pos ha, if_pos ha]
      exact ih h
    · rename_i ha
      rw [if_neg ha, if_neg ha]

namespace RecordSpill

/-- Nothing was counted or tagged; a check may have accepted something. -/
structure Kept (s s' : RecordSpill) : Prop where
  length : s'.length = s.length
  records : s'.records = s.records
  maximumPayload : s'.maximumPayload = s.maximumPayload
  authentication : s'.authentication = s.authentication
  tagged : s'.tagged = s.tagged
  accepted : s.accepted ⊆ s'.accepted

theorem Kept.refl (s : RecordSpill) : Kept s s := ⟨rfl, rfl, rfl, rfl, rfl, fun _ h => h⟩

theorem Kept.trans {s s' s'' : RecordSpill} (h : Kept s s') (h' : Kept s' s'') : Kept s s'' where
  length := h'.length.trans h.length
  records := h'.records.trans h.records
  maximumPayload := h'.maximumPayload.trans h.maximumPayload
  authentication := h'.authentication.trans h.authentication
  tagged := h'.tagged.trans h.tagged
  accepted := fun _ hx => h'.accepted (h.accepted hx)

/-- Counts and tags nothing, whether it returns or fails. -/
def Keeps {α : Type} (c : SpillM α) (Q : α → RecordSpill → Prop) : Prop :=
  ∀ s₀, Triple (Kept s₀) c (fun a s => Kept s₀ s ∧ Q a s) (fun _ s => Kept s₀ s)

theorem Keeps.of_step {α : Type} {c : SpillM α} {Q : α → RecordSpill → Prop}
    (hok : ∀ s a s', c s = .ok a s' → Kept s s' ∧ Q a s')
    (herror : ∀ s e s', c s = .error e s' → Kept s s') : Keeps c Q := by
  refine fun s₀ => Triple.of_result fun s hs => ⟨fun a s' hc => ?_, fun e s' hc => ?_⟩
  · exact ⟨hs.trans (hok s a s' hc).1, (hok s a s' hc).2⟩
  · exact hs.trans (herror s e s' hc)

theorem Keeps.bind {α β : Type} {c : SpillM α} {Q : α → RecordSpill → Prop} {f : α → SpillM β}
    {R : β → RecordSpill → Prop} (hc : Keeps c Q)
    (hf : ∀ a s₀, Triple (fun s => Kept s₀ s ∧ Q a s) (f a) (fun b s => Kept s₀ s ∧ R b s)
      fun _ s => Kept s₀ s) : Keeps (c >>= f) R :=
  fun s₀ => Triple.bind (hc s₀) fun a => hf a s₀

theorem Keeps.bind_fact {α β : Type} {c : SpillM α} {q : α → Prop} {f : α → SpillM β}
    {R : β → RecordSpill → Prop} (hc : Keeps c fun a _ => q a) (hf : ∀ a, q a → Keeps (f a) R) :
    Keeps (c >>= f) R := by
  refine hc.bind fun a s₀ => ?_
  exact Triple.of_fact (fun _ h => h.2) fun hq =>
    (hf a hq s₀).weaken (fun _ h => h.1) (fun _ _ h => h) fun _ _ h => h

variable (host : SpillHost)

theorem systemCall_keeps : Keeps (systemCall host) fun _ _ => True :=
  Keeps.of_step (fun s a s' hc => by
    cases hc
    exact ⟨⟨rfl, rfl, rfl, rfl, rfl, fun _ h => h⟩, trivial⟩) (fun s e s' hc => by cases hc)

theorem failIfFails_keeps (e : SpillEvent) : Keeps (failIfFails e) fun _ _ => True := by
  refine Keeps.of_step (fun s a s' hc => ?_) (fun s e' s' hc => ?_) <;> unfold failIfFails at hc <;>
    split at hc <;> cases hc
  · exact ⟨.refl s, trivial⟩
  · exact .refl s

theorem ensure_keeps (check : Bool) (e : StorageError) :
    Keeps (ensure check e) fun _ _ => check = true := by
  refine Keeps.of_step (fun s a s' hc => ?_) (fun s e' s' hc => ?_) <;> unfold ensure at hc <;>
    split at hc <;> cases hc
  · exact ⟨.refl s, by assumption⟩
  · exact .refl s

theorem ofExcept_keeps {α : Type} (x : Except StorageError α) :
    Keeps (ofExcept x) fun a _ => x = .ok a := by
  refine Keeps.of_step (fun s a s' hc => ?_) (fun s e' s' hc => ?_) <;> unfold ofExcept at hc <;>
    split at hc <;> cases hc
  · exact ⟨.refl s, rfl⟩
  · exact .refl s

theorem metadataLen_keeps : Keeps (metadataLen host) fun _ _ => True :=
  (systemCall_keeps host).bind_fact fun e _ => (failIfFails_keeps e).bind_fact fun _ _ =>
    Keeps.of_step (fun s a s' hc => by cases hc; exact ⟨.refl s, trivial⟩)
      (fun s e s' hc => by cases hc)

theorem seek_keeps (offset : Nat) : Keeps (seek host offset) fun _ _ => True :=
  (systemCall_keeps host).bind_fact fun e _ => (failIfFails_keeps e).bind_fact fun _ _ =>
    Keeps.of_step (fun s a s' hc => by
      cases hc
      exact ⟨⟨rfl, rfl, rfl, rfl, rfl, fun _ h => h⟩, trivial⟩) (fun s e s' hc => by cases hc)

theorem readExact_keeps (count : Nat) :
    Keeps (readExact host count) fun bytes _ => bytes.length = count := by
  refine (systemCall_keeps host).bind_fact fun e _ => (failIfFails_keeps e).bind_fact fun _ _ => ?_
  refine Keeps.of_step (fun s a s' hc => ?_) (fun s e s' hc => ?_)
  · split at hc
    · cases hc
    · rename_i hlen
      cases hc
      refine ⟨⟨rfl, rfl, rfl, rfl, rfl, fun _ h => h⟩, ?_⟩
      rw [List.length_take, List.length_drop]
      omega
  · split at hc <;> cases hc
    exact .refl s

theorem setLen_keeps (length : Nat) : Keeps (setLen host length) fun _ _ => True :=
  (systemCall_keeps host).bind_fact fun e _ => (failIfFails_keeps e).bind_fact fun _ _ =>
    Keeps.of_step (fun s a s' hc => by
      cases hc
      exact ⟨⟨rfl, rfl, rfl, rfl, rfl, fun _ h => h⟩, trivial⟩) (fun s e s' hc => by cases hc)

theorem writeAll_keeps (bytes : List UInt8) : Keeps (writeAll host bytes) fun _ _ => True := by
  refine (systemCall_keeps host).bind_fact fun e _ =>
    Keeps.of_step (fun s a s' hc => ?_) (fun s e s' hc => ?_) <;> split at hc <;> cases hc
  · exact ⟨⟨rfl, rfl, rfl, rfl, rfl, fun _ h => h⟩, trivial⟩
  · exact ⟨rfl, rfl, rfl, rfl, rfl, fun _ h => h⟩

theorem growTo_keeps (bytes : Nat) : Keeps (growTo host bytes) fun _ _ => True := by
  refine (systemCall_keeps host).bind_fact fun e _ =>
    Keeps.of_step (fun s a s' hc => ?_) (fun s e s' hc => ?_) <;> split at hc <;> cases hc
  · exact ⟨⟨rfl, rfl, rfl, rfl, rfl, fun _ h => h⟩, trivial⟩
  · exact .refl s

theorem get_keeps : Keeps (get : SpillM RecordSpill) fun a s => a = s :=
  Keeps.of_step (fun s a s' hc => by cases hc; exact ⟨.refl s, rfl⟩) (fun s e s' hc => by cases hc)

/-- What is read of the state is what the state still says. -/
theorem Keeps.get_bind {β : Type} {f : RecordSpill → SpillM β} {R : β → RecordSpill → Prop}
    (hf : ∀ a, Keeps (f a) fun b s => Kept a s → R b s) : Keeps (get >>= f) R := by
  refine get_keeps.bind fun a s₀ => ?_
  refine Triple.weaken (P := fun s => Kept s₀ s ∧ Kept a s) ?_ (fun s h => ⟨h.1, h.2 ▸ .refl s⟩)
    (fun _ _ h => h) fun _ _ h => h
  refine Triple.of_result fun s hs => ⟨fun b s' hc => ?_, fun e s' hc => ?_⟩
  · exact ⟨((hf a s₀).ok hs.1 hc).1, ((hf a a).ok hs.2 hc).2 ((hf a a).ok hs.2 hc).1⟩
  · exact (hf a s₀).error hs.1 hc

theorem Keeps.mono {α : Type} {c : SpillM α} {Q R : α → RecordSpill → Prop} (h : Keeps c Q)
    (hQ : ∀ a s, Q a s → R a s) : Keeps c R :=
  fun s₀ => (h s₀).weaken (fun _ h => h) (fun a s h => ⟨h.1, hQ a s h.2⟩) fun _ _ h => h

theorem spillRecordLen_eq_ok {n len : Nat} (h : spillRecordLen n = .ok len) :
    len = 48 + n ∧ len < 2 ^ 64 := by
  unfold spillRecordLen spillRecordLengthBytes spillRecordMacBytes at h
  dsimp only at h
  split at h
  · cases h
  · cases h
    omega

theorem checkTag_keeps (offset : Nat) (header payload tag : List UInt8) :
    Keeps (checkTag host offset header payload tag) fun _ s => (offset, payload) ∈ s.accepted := by
  refine Keeps.of_step (fun s a s' hc => ?_) (fun s e' s' hc => ?_) <;> unfold checkTag at hc <;>
    split at hc <;> cases hc
  · exact ⟨⟨rfl, rfl, rfl, rfl, rfl, fun _ h => List.mem_append_left _ h⟩,
      List.mem_append_right _ (List.mem_singleton_self _)⟩
  · exact .refl s

/-- A record read at `offset`, and where the next one begins. -/
def ReadAt (offset finish : Nat) (r : List UInt8 × Nat) (s : RecordSpill) : Prop :=
  (offset, r.1) ∈ s.accepted ∧ r.2 = offset + recordSize r.1 ∧ r.2 ≤ finish

theorem readRecord_keeps (offset finish : Nat) :
    Keeps (readRecord host offset finish) (ReadAt offset finish) := by
  refine (ensure_keeps _ _).bind_fact fun _ _ => (ensure_keeps _ _).bind_fact fun _ _ =>
    (seek_keeps host offset).bind_fact fun _ _ => (readExact_keeps host 8).bind_fact fun header _ =>
    Keeps.get_bind fun s => ?_
  refine (ensure_keeps _ _).bind_fact fun _ _ => (ofExcept_keeps _).bind_fact fun len hlen =>
    (ensure_keeps _ _).bind_fact fun _ _ => (ensure_keeps _ _).bind_fact fun _ hend =>
    (readExact_keeps host _).bind_fact fun payload hpayload =>
    (readExact_keeps host _).bind_fact fun tag _ => (readExact_keeps host 8).bind_fact fun _ _ =>
    (ensure_keeps _ _).bind_fact fun _ _ => (checkTag_keeps host _ _ _ _).bind fun _ s₀ => ?_
  refine Triple.pure fun s' h => ⟨h.1, fun _ => ⟨h.2, ?_, of_decide_eq_true hend⟩⟩
  rw [(spillRecordLen_eq_ok hlen).1, recordSize, hpayload]

theorem verifyLength_keeps : Keeps (verifyLength host) fun _ _ => True := by
  refine (metadataLen_keeps host).bind_fact fun _ _ =>
    Keeps.of_step (fun s a s' hc => ?_) (fun s e s' hc => ?_) <;> split at hc <;> cases hc
  · exact ⟨.refl s, trivial⟩
  · exact .refl s

theorem readAt_keeps (offset : Nat) :
    Keeps (readAt host offset) fun r s => ReadAt offset s.length r s :=
  (verifyLength_keeps host).bind_fact fun _ _ => Keeps.get_bind fun s =>
    (readRecord_keeps host offset s.length).mono fun r s' h hk => by
      rwa [hk.length]

/-! ## Pushing and popping -/

theorem Keeps.seq {α β : Type} {c : SpillM α} {q : α → Prop} {f : α → SpillM β} {s₀ : RecordSpill}
    {Q : β → RecordSpill → Prop} {E : StorageError → RecordSpill → Prop}
    (hc : Keeps c fun a _ => q a) (hE : ∀ e s, Kept s₀ s → E e s)
    (hf : ∀ a, q a → Triple (Kept s₀) (f a) Q E) : Triple (Kept s₀) (c >>= f) Q E :=
  Triple.bind ((hc s₀).weaken (fun _ h => h) (fun _ _ h => h) hE) fun a =>
    Triple.of_fact (fun _ h => h.2) fun hq =>
      (hf a hq).weaken (fun _ h => h.1) (fun _ _ h => h) fun _ _ h => h

theorem Kept.get_seq {β : Type} {f : RecordSpill → SpillM β} {s₀ : RecordSpill}
    {Q : β → RecordSpill → Prop} {E : StorageError → RecordSpill → Prop}
    (hf : ∀ a, Kept s₀ a → Triple (Kept s₀) (f a) Q E) : Triple (Kept s₀) (get >>= f) Q E :=
  fun s hs => hf s hs s hs

theorem Kept.start {α : Type} {c : SpillM α} {P : RecordSpill → Prop}
    {Q : α → RecordSpill → Prop} {E : StorageError → RecordSpill → Prop}
    (h : ∀ s, P s → Triple (Kept s) c Q E) : Triple P c Q E :=
  fun s hs => h s hs s (.refl s)

structure Popped (s₀ : RecordSpill) (payload : List UInt8) (s : RecordSpill) : Prop where
  length : s.length + recordSize payload = s₀.length
  records : s.records + 1 = s₀.records
  maximumPayload : s.maximumPayload = s₀.maximumPayload
  tagged : s.tagged = s₀.tagged
  accepted : (s.length, payload) ∈ s.accepted

theorem popLast_spec {s₀ : RecordSpill} (hrecords : s₀.records ≠ 0) :
    Triple (Kept s₀) (popLast host) (Popped s₀) fun _ => Kept s₀ := by
  have hE : ∀ (e : StorageError) s, Kept s₀ s → Kept s₀ s := fun _ _ h => h
  refine Kept.get_seq fun a ha => (ensure_keeps _ _).seq hE fun _ _ =>
    (seek_keeps host _).seq hE fun _ _ => (readExact_keeps host 8).seq hE fun trailer _ =>
    (ensure_keeps _ _).seq hE fun _ _ => (ofExcept_keeps _).seq hE fun len _ =>
    (ensure_keeps _ _).seq hE fun _ hle => ?_
  have hle' := of_decide_eq_true hle
  refine Triple.bind (readRecord_keeps host _ _ s₀) fun r => Kept.start fun s₁ h₁ => ?_
  obtain ⟨hkept, haccepted, hsize, -⟩ := h₁
  have hE' : ∀ (e : StorageError) s, Kept s₁ s → Kept s₀ s := fun _ _ h => hkept.trans h
  refine (ensure_keeps _ _).seq hE' fun _ hend => (setLen_keeps host _).seq hE' fun _ _ => ?_
  intro s hs
  have hnonzero : a.records ≠ 0 := by rw [ha.records]; exact hrecords
  have hdone : Popped s₀ r.1 { s with
      reserved := min s.reserved (a.length - len)
      length := a.length - len
      records := s.records - 1 } := by
    have hall := hkept.trans hs
    have hfull : r.2 = a.length := eq_of_beq hend
    refine ⟨?_, ?_, hall.maximumPayload, hall.tagged, hs.accepted haccepted⟩
    · show a.length - len + recordSize r.1 = s₀.length
      rw [← hsize, hfull, ha.length]
    · show s.records - 1 + 1 = s₀.records
      rw [hall.records]
      omega
  simp only [hnonzero, ne_eq, not_false_eq_true, decide_true]
  exact hdone

theorem pop_spec (s₀ : RecordSpill) :
    Triple (Kept s₀) (pop host)
      (fun r s => (r = none ∧ s₀.records = 0 ∧ s₀.length = 0 ∧ Kept s₀ s) ∨
        ∃ payload, r = some payload ∧ Popped s₀ payload s) fun _ => Kept s₀ := by
  have hE : ∀ (e : StorageError) s, Kept s₀ s → Kept s₀ s := fun _ _ h => h
  refine (verifyLength_keeps host).seq hE fun _ _ => Kept.get_seq fun a ha => ?_
  split
  · rename_i hzero
    refine (ensure_keeps _ _).seq hE fun _ hlength => Triple.pure fun s hs => Or.inl ?_
    exact ⟨rfl, ha.records ▸ hzero, ha.length ▸ eq_of_beq hlength, hs⟩
  · rename_i hnonzero
    rw [ha.records] at hnonzero
    exact Triple.bind (popLast_spec host hnonzero) fun payload =>
      Triple.pure fun s hs => Or.inr ⟨payload, rfl, hs⟩

structure Appended (s₀ : RecordSpill) (payload : List UInt8) (s : RecordSpill) : Prop where
  length : s.length = s₀.length + recordSize payload
  records : s.records = s₀.records + 1
  maximumPayload : s.maximumPayload = s₀.maximumPayload
  tagged : s.tagged = s₀.tagged ++ [(s₀.length, payload)]

/-- The tag of `payload` is made, and nothing more has come of it. -/
def withTag (s : RecordSpill) (payload : List UInt8) : RecordSpill :=
  { s with tagged := s.tagged ++ [(s.length, payload)] }

theorem reserve_keeps (growReservation : Bool) (nextLength : Nat) :
    Keeps (reserve host growReservation nextLength) fun _ _ => True := by
  cases growReservation with
  | true => exact growTo_keeps host nextLength
  | false =>
    refine Keeps.of_step (fun s a s' hc => ?_) (fun s e s' hc => ?_) <;> 
      change (if s.reserved < nextLength then _ else _) = _ at hc <;> split at hc <;> cases hc
    · exact ⟨.refl s, trivial⟩
    · exact .refl s

theorem payloadLen_keeps (payload : List UInt8) :
    Keeps (payloadLen payload) fun n _ => n = payload.length := by
  refine Keeps.of_step (fun s a s' hc => ?_) (fun s e s' hc => ?_) <;> unfold payloadLen at hc
  · split at hc
    · cases hc
    · split at hc <;> cases hc
      exact ⟨.refl s, rfl⟩
  · split at hc
    · cases hc
      exact .refl s
    · split at hc <;> cases hc
      exact .refl s

theorem writeRecord_keeps (header payload : List UInt8) (tag : Vector UInt8 32) :
    Keeps (writeRecord host header payload tag) fun _ _ => True :=
  (writeAll_keeps host header).bind_fact fun _ _ => (writeAll_keeps host payload).bind_fact
    fun _ _ => (writeAll_keeps host tag.toList).bind_fact fun _ _ => writeAll_keeps host header

theorem append_spec (payload : List UInt8) (growReservation : Bool) (s₀ : RecordSpill) :
    Triple (Kept s₀) (append host payload growReservation) (fun _ => Appended s₀ payload)
      fun _ s => Kept s₀ s ∨ Kept (s₀.withTag payload) s := by
  have hE : ∀ (e : StorageError) s, Kept s₀ s → Kept s₀ s ∨ Kept (s₀.withTag payload) s :=
    fun _ _ h => Or.inl h
  refine (payloadLen_keeps payload).seq hE fun n hn => (ofExcept_keeps _).seq hE fun len hlen =>
    Kept.get_seq fun a ha => (ensure_keeps _ _).seq hE fun _ _ => (ensure_keeps _ _).seq hE
    fun _ _ => (verifyLength_keeps host).seq hE fun _ _ => (reserve_keeps host _ _).seq hE
    fun _ _ => ?_
  have htag : Triple (Kept s₀) (makeTag host (leBytes 8 n) payload)
      (fun _ s => Kept (s₀.withTag payload) s)
      fun _ s => Kept s₀ s ∨ Kept (s₀.withTag payload) s := by
    refine fun s hs => ⟨hs.length, hs.records, hs.maximumPayload, hs.authentication, ?_, hs.accepted⟩
    show s.tagged ++ [(s.length, payload)] = s₀.tagged ++ [(s₀.length, payload)]
    rw [hs.tagged, hs.length]
  have hE' : ∀ (e : StorageError) s, Kept (s₀.withTag payload) s →
      Kept s₀ s ∨ Kept (s₀.withTag payload) s := fun _ _ h => Or.inr h
  refine Triple.bind htag fun tag => (seek_keeps host _).seq hE' fun _ _ =>
    (writeRecord_keeps host _ _ _).seq hE' fun _ _ => fun s hs => ?_
  refine ⟨?_, ?_, hs.maximumPayload, hs.tagged⟩
  · show a.length + len = s₀.length + recordSize payload
    rw [ha.length, (spillRecordLen_eq_ok hlen).1, hn, recordSize]
  · show a.records + 1 = s₀.records + 1
    rw [ha.records]

/-! ## Passes -/

/-- What the visitor has said. -/
def visitorOutcome {α : Type} : Except SpillVisitError α → Except SpillVisitError Unit
  | .error .Visitor => .error .Visitor
  | _ => .ok ()

/-- A pass from `offset` on has handed `new` over, each record where the one before it ended. -/
structure HandedOver (accept : List (List UInt8) → Bool) (remaining offset finish : Nat)
    (handed new : List (List UInt8))
    (out : (List (List UInt8) × Except SpillVisitError Nat) × RecordSpill) : Prop where
  gives : out.1.1 = handed ++ new
  accepted : placed offset new ⊆ out.2.accepted
  few : new.length ≤ remaining
  within : new ≠ [] → offset + totalSize new ≤ finish
  shown : handOver accept handed new = (handed ++ new, visitorOutcome out.1.2)
  all : ∀ next, out.1.2 = .ok next → new.length = remaining ∧ next = offset + totalSize new

theorem readRecords_spec {finish : Nat} {read : Nat → SpillM (List UInt8 × Nat)}
    (hread : ∀ offset, Keeps (read offset) fun r s => s.length = finish → ReadAt offset finish r s)
    (accept : List (List UInt8) → Bool) (remaining offset : Nat) (handed : List (List UInt8))
    {s : RecordSpill} (hs : s.length = finish) :
    Kept s (readRecords read accept remaining offset handed s).2 ∧
      ∃ new, HandedOver accept remaining offset finish handed new
        (readRecords read accept remaining offset handed s) := by
  induction remaining generalizing offset handed s with
  | zero =>
    refine ⟨.refl s, [], (List.append_nil _).symm, fun _ h => (by cases h), Nat.le_refl _,
      fun h => absurd rfl h, by rw [List.append_nil]; rfl, fun next hnext => ?_⟩
    cases hnext
    exact ⟨rfl, rfl⟩
  | succ remaining ih =>
    unfold readRecords
    cases hc : read offset s with
    | error e s₁ =>
      refine ⟨(hread offset s).error (.refl s) hc, [], (List.append_nil _).symm,
        fun _ h => (by cases h), Nat.zero_le _, fun h => absurd rfl h,
        by rw [List.append_nil]; rfl, fun next hnext => ?_⟩
      cases hnext
    | ok r s₁ =>
      obtain ⟨payload, next⟩ := r
      obtain ⟨hkept, hwhere⟩ := (hread offset s).ok (.refl s) hc
      have hlength := hkept.length.trans hs
      obtain ⟨haccepted, hsize, hle⟩ := hwhere hlength
      dsimp only at haccepted hsize hle ⊢
      split
      · rename_i ha
        -- the rest of the pass starts behind this record
        obtain ⟨hafter, new, hnew⟩ := ih next (handed ++ [payload]) hlength
        refine ⟨hkept.trans hafter, payload :: new, ?_, ?_, Nat.succ_le_succ hnew.few, fun _ => ?_,
          ?_, ?_⟩
        · rw [hnew.gives, List.append_assoc, List.singleton_append]
        · intro x hx
          rcases List.mem_cons.mp hx with rfl | hx
          · exact hafter.accepted haccepted
          · exact hnew.accepted (hsize ▸ hx)
        · rw [totalSize_cons, ← Nat.add_assoc, ← hsize]
          by_cases hnil : new = []
          · rw [hnil]
            exact hle
          · exact hnew.within hnil
        · rw [handOver, if_pos ha, hnew.shown, List.append_assoc, List.singleton_append]
        · intro off hoff
          obtain ⟨hlen, hoff⟩ := hnew.all off hoff
          refine ⟨by rw [List.length_cons, hlen], ?_⟩
          rw [hoff, hsize, totalSize_cons, Nat.add_assoc]
      · rename_i ha
        refine ⟨hkept, [payload], rfl, ?_, Nat.succ_le_succ (Nat.zero_le _), fun _ => ?_, ?_, ?_⟩
        · intro x hx
          rw [List.mem_singleton.mp hx]
          exact haccepted
        · rw [totalSize_cons, totalSize_nil, Nat.add_zero, ← hsize]
          exact hle
        · rw [handOver, if_neg ha]
          rfl
        · intro off hoff
          cases hoff

/-- What a pass over at most `most` records from the front has done. -/
structure PassedOver (accept : List (List UInt8) → Bool) (most : Nat) (s : RecordSpill)
    (out : (List (List UInt8) × Except SpillVisitError Unit) × RecordSpill) : Prop where
  kept : Kept s out.2
  accepted : placed 0 out.1.1 ⊆ out.2.accepted
  few : out.1.1.length ≤ most
  within : totalSize out.1.1 ≤ s.length
  shown : handOver accept [] out.1.1 = (out.1.1, visitorOutcome out.1.2)
  all : out.1.2 = .ok () → out.1.1.length = most

theorem HandedOver.passedOver {accept : List (List UInt8) → Bool} {most : Nat} {s : RecordSpill}
    {out : (List (List UInt8) × Except SpillVisitError Nat) × RecordSpill}
    {new : List (List UInt8)} (h : HandedOver accept most 0 s.length [] new out)
    (hkept : Kept s out.2) {outcome : Except SpillVisitError Unit}
    (hsame : visitorOutcome outcome = visitorOutcome out.1.2)
    (hall : outcome = .ok () → ∃ next, out.1.2 = .ok next) :
    PassedOver accept most s ((out.1.1, outcome), out.2) := by
  have hgives : out.1.1 = new := h.gives
  refine ⟨hkept, ?_, ?_, ?_, ?_, fun hok => ?_⟩
  · rw [hgives]
    exact h.accepted
  · rw [hgives]
    exact h.few
  · rw [hgives]
    by_cases hnil : new = []
    · rw [hnil]
      exact Nat.zero_le _
    · have := h.within hnil
      rwa [Nat.zero_add] at this
  · rw [hgives, hsame]
    exact h.shown
  · obtain ⟨next, hnext⟩ := hall hok
    rw [hgives]
    exact (h.all next hnext).1

theorem PassedOver.nothing {accept : List (List UInt8) → Bool} {most : Nat} {s s' : RecordSpill}
    (h : Kept s s') (e : StorageError) :
    PassedOver accept most s (([], .error (.Io e)), s') where
  kept := h
  accepted := fun _ hx => by cases hx
  few := Nat.zero_le _
  within := Nat.zero_le _
  shown := rfl
  all := fun hok => by cases hok

theorem PassedOver.of_kept {accept : List (List UInt8) → Bool} {most : Nat} {s s' : RecordSpill}
    {out : (List (List UInt8) × Except SpillVisitError Unit) × RecordSpill} (hs : Kept s s')
    (h : PassedOver accept most s' out) : PassedOver accept most s out :=
  { h with
    kept := hs.trans h.kept
    within := hs.length ▸ h.within }

theorem visit_spec (accept : List (List UInt8) → Bool) (s : RecordSpill) :
    PassedOver accept s.records s (visit host accept s) := by
  unfold visit
  cases hv : verifyLength host s with
  | error e s₁ => exact .nothing ((verifyLength_keeps host s).error (.refl s) hv) e
  | ok _ s₁ =>
    have hkept := ((verifyLength_keeps host s).ok (.refl s) hv).1
    obtain ⟨hafter, new, hnew⟩ := @readRecords_spec s₁.length
      (fun offset => readRecord host offset s₁.length)
      (fun offset => (readRecord_keeps host offset s₁.length).mono fun _ _ h _ => h) accept
      s₁.records 0 [] s₁ rfl
    rw [← hkept.records]
    refine PassedOver.of_kept hkept ?_
    dsimp only
    generalize readRecords _ accept s₁.records 0 [] s₁ = out at *
    obtain ⟨⟨handed, outcome⟩, s₂⟩ := out
    cases outcome with
    | error e =>
      refine hnew.passedOver hafter ?_ fun hok => by cases hok
      cases e <;> rfl
    | ok next =>
      dsimp only
      split
      · exact hnew.passedOver hafter rfl fun _ => ⟨next, rfl⟩
      · exact hnew.passedOver hafter rfl fun hok => by cases hok

theorem iterate_spec (count : Nat) (s : RecordSpill) :
    PassedOver (fun _ => true) (min count s.records) s (iterate host count s) := by
  unfold iterate
  obtain ⟨hafter, new, hnew⟩ := @readRecords_spec s.length (readAt host)
    (fun offset => (readAt_keeps host offset).mono fun _ _ h hlen => hlen ▸ h) (fun _ => true)
    (min count s.records) 0 [] s rfl
  generalize readRecords _ _ (min count s.records) 0 [] s = out at *
  obtain ⟨⟨handed, outcome⟩, s₂⟩ := out
  refine hnew.passedOver hafter ?_ fun hok => ?_
  · cases outcome with
    | error e => cases e <;> rfl
    | ok next => rfl
  · cases outcome with
    | error e => cases hok
    | ok next => exact ⟨next, rfl⟩

end RecordSpill

end Excise
