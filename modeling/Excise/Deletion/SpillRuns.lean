import Excise.Lib.Machine
import Excise.Deletion.SpillFrames
import Mathlib.Data.List.Induction

/-!
# A spill file is a list

Runs of pushes, pops and passes beside the list they stand for. Without interference the answers
are the list's; with it every record that is handed out was pushed at the place it was read from,
which is the list's own record as long as no place was written twice.
-/

namespace Excise
set_option autoImplicit false

inductive SpillOp where
  | push (payload : List UInt8)
  | pushReserved (payload : List UInt8)
  | pop
  | visit (accept : List (List UInt8) → Bool)
  | iterate (count : Nat)

inductive SpillAnswer where
  | pushed
  | popped (r : Option (List UInt8))
  | passed (pass : List (List UInt8) × Except SpillVisitError Unit)
  | failed (e : StorageError)
  deriving DecidableEq

namespace SpillOp

/-- What the operation is on a list. -/
def onList (live : List (List UInt8)) : SpillOp → SpillAnswer × List (List UInt8)
  | .push payload | .pushReserved payload => (.pushed, live ++ [payload])
  | .pop => (.popped live.getLast?, live.dropLast)
  | .visit accept => (.passed (handOver accept [] live), live)
  | .iterate count => (.passed (live.take count, .ok ()), live)

/-- What the operation needs besides calls that work. -/
def Accepted (host : SpillHost) (s : RecordSpill) : SpillOp → Prop
  | .push payload => RecordSpill.Accepts host s payload true
  | .pushReserved payload => RecordSpill.Accepts host s payload false
  | _ => True

end SpillOp

def SpillAnswer.ofResult {α : Type} (f : α → SpillAnswer) :
    EStateM.Result StorageError RecordSpill α → SpillAnswer × RecordSpill
  | .ok a s => (f a, s)
  | .error e s => (.failed e, s)

def SpillOp.perform (host : SpillHost) (s : RecordSpill) : SpillOp → SpillAnswer × RecordSpill
  | .push payload => SpillAnswer.ofResult (fun _ => .pushed) (RecordSpill.push host payload s)
  | .pushReserved payload =>
    SpillAnswer.ofResult (fun _ => .pushed) (RecordSpill.pushReserved host payload s)
  | .pop => SpillAnswer.ofResult .popped (RecordSpill.pop host s)
  | .visit accept =>
    (.passed (RecordSpill.visit host accept s).1, (RecordSpill.visit host accept s).2)
  | .iterate count =>
    (.passed (RecordSpill.iterate host count s).1, (RecordSpill.iterate host count s).2)

namespace SpillAnswer

def isFailed : SpillAnswer → Bool
  | .failed _ | .passed (_, .error (.Io _)) => true
  | _ => false

/-- The list's answer, or an error; a pass that ends with an error has handed over what comes
first. -/
inductive Agrees : SpillAnswer → SpillAnswer → Prop where
  | same (answer : SpillAnswer) : Agrees answer answer
  | failed (e : StorageError) (answer : SpillAnswer) : Agrees (.failed e) answer
  | stopped (e : StorageError) {handed given : List (List UInt8)}
    (outcome : Except SpillVisitError Unit) (h : handed <+: given) :
    Agrees (.passed (handed, .error (.Io e))) (.passed (given, outcome))

/-- Every record handed out had its tag made for the place it was read from. -/
def AsPushed (s : RecordSpill) : SpillAnswer → Prop
  | .popped (some payload) => (s.length, payload) ∈ s.tagged
  | .passed (handed, _) => placed 0 handed ⊆ s.tagged
  | _ => True

end SpillAnswer

/-- A spill and the list it stands for. -/
structure SpillRun where
  spill : RecordSpill
  live : List (List UInt8)

namespace SpillRun

def start (key : SpillAuthenticationKey) (maximumPayload : Nat) : SpillRun :=
  ⟨RecordSpill.new key maximumPayload, []⟩

def machine (host : SpillHost) : Machine SpillRun SpillOp SpillAnswer where
  step s op :=
    let (answer, spill) := op.perform host s.spill
    (⟨spill, if answer.isFailed then s.live else (op.onList s.live).2⟩, answer)

/-- The tag check has accepted only tags that were made. -/
def Unforged (s : RecordSpill) : Prop := s.accepted ⊆ s.tagged

/-- No place was written twice. -/
def Distinct (s : RecordSpill) : Prop := (s.tagged.map Prod.fst).Nodup

instance (s : RecordSpill) : Decidable (Unforged s) :=
  decidable_of_iff (∀ r ∈ s.accepted, r ∈ s.tagged) Iff.rfl

instance (s : RecordSpill) : Decidable (Distinct s) := inferInstanceAs (Decidable (List.Nodup _))

end SpillRun

/-! ## Without interference -/

namespace RecordSpill
variable {host : SpillHost} {key : SpillAuthenticationKey} {maximum : Nat}

/-- The file holds the list, or no operation works any more. -/
def Standing (host : SpillHost) (key : SpillAuthenticationKey) (maximum : Nat) (s : SpillRun) :
    Prop :=
  Filed host key maximum s.live [] s.spill ∨
    (Torn s.spill ∧ s.spill.records = s.live.length) ∧ host.Failing

theorem visit_torn (hquiet : host.Quiet) (accept : List (List UInt8) → Bool) {s : RecordSpill}
    (hs : Torn s) : Torn (visit host accept s).2 ∧
      ∃ e, (visit host accept s).1 = ([], .error (.Io e)) := by
  unfold visit
  cases hc : verifyLength host s with
  | error e s₁ => exact ⟨(verifyLength_torn hquiet).error hs hc, e, rfl⟩
  | ok _ s₁ => exact ((verifyLength_torn hquiet).ok hs hc).elim

theorem iterate_torn (hquiet : host.Quiet) (count : Nat) {s : RecordSpill} (hs : Torn s) :
    Torn (iterate host count s).2 ∧
      (((iterate host count s).1 = ([], .ok ()) ∧ min count s.records = 0) ∨
        ∃ e, (iterate host count s).1 = ([], .error (.Io e))) := by
  unfold iterate
  cases hn : min count s.records with
  | zero => exact ⟨hs, Or.inl ⟨rfl, rfl⟩⟩
  | succ n =>
    unfold readRecords
    cases hc : readAt host 0 s with
    | error e s₁ => exact ⟨(readAt_torn hquiet 0).error hs hc, Or.inr ⟨e, rfl⟩⟩
    | ok r s₁ => exact ((readAt_torn hquiet 0).ok hs hc).elim

theorem append_error_records {payload : List UInt8} {growReservation : Bool} {s s' : RecordSpill}
    {e : StorageError} (hc : append host payload growReservation s = .error e s') :
    s'.records = s.records := by
  rcases (append_spec host payload growReservation s).error (.refl s) hc with h | h
  · exact h.records
  · exact h.records

theorem append_standing (hquiet : host.Quiet) {s : SpillRun}
    (h : Standing host key maximum s) (payload : List UInt8) (growReservation : Bool) :
    match append host payload growReservation s.spill with
    | .ok _ spill => Standing host key maximum ⟨spill, s.live ++ [payload]⟩
    | .error _ spill => Standing host key maximum ⟨spill, s.live⟩ := by
  cases hc : append host payload growReservation s.spill with
  | ok _ spill =>
    rcases h with h | ⟨⟨h, -⟩, -⟩
    · exact Or.inl ((append_live hquiet payload growReservation).ok h hc)
    · exact ((append_torn hquiet payload growReservation).ok h hc).elim
  | error e spill =>
    have hrecords := append_error_records hc
    rcases h with h | ⟨⟨h, hcount⟩, hfailing⟩
    · rcases (append_live hquiet payload growReservation).error h hc with hfiled | ⟨htorn, hfailing⟩
      · exact Or.inl hfiled
      · exact Or.inr ⟨⟨htorn, hrecords.trans h.records⟩, hfailing⟩
    · exact Or.inr ⟨⟨(append_torn hquiet payload growReservation).error h hc,
        hrecords.trans hcount⟩, hfailing⟩

end RecordSpill

/-- The list's answer or an error; where no call fails, an error exactly for a push that is not
accepted. -/
def SpillRun.Follows (host : SpillHost) (s : SpillRun) (op : SpillOp) : Prop :=
  (op.perform host s.spill).1.Agrees (op.onList s.live).1 ∧
    (¬host.Failing →
      op.Accepted host s.spill ∧ (op.perform host s.spill).1 = (op.onList s.live).1 ∨
        ¬op.Accepted host s.spill ∧ ∃ e, (op.perform host s.spill).1 = .failed e)

namespace RecordSpill
variable {host : SpillHost} {key : SpillAuthenticationKey} {maximum : Nat}

theorem pass_standing {s : SpillRun} {op : SpillOp}
    {pass : List (List UInt8) × Except SpillVisitError Unit}
    {given : List (List UInt8) × Except SpillVisitError Unit} {spill : RecordSpill}
    (hop : op.perform host s.spill = (.passed pass, spill))
    (hlist : op.onList s.live = (.passed given, s.live)) (haccepted : op.Accepted host s.spill)
    (hafter : Standing host key maximum ⟨spill, s.live⟩) (hpass : PassOf host given pass) :
    Standing host key maximum ((SpillRun.machine host).step s op).1 ∧ s.Follows host op := by
  refine ⟨?_, ?_, fun hnone => ?_⟩
  · show Standing host key maximum ⟨(op.perform host s.spill).2,
      if (op.perform host s.spill).1.isFailed then s.live else (op.onList s.live).2⟩
    rw [hop, hlist, ite_self]
    exact hafter
  · rw [hop, hlist]
    rcases hpass with rfl | ⟨-, hstart, e, he⟩
    · exact .same _
    · obtain ⟨handed, outcome⟩ := pass
      obtain ⟨all, outcome'⟩ := given
      cases he
      exact .stopped e outcome' hstart
  · rw [hop, hlist]
    rcases hpass with rfl | ⟨hfailing, -⟩
    · exact Or.inl ⟨haccepted, rfl⟩
    · exact absurd hfailing hnone

/-- Both kinds of push. -/
theorem push_standing (hquiet : host.Quiet) {s : SpillRun} (h : Standing host key maximum s)
    {op : SpillOp} {payload : List UInt8} {growReservation : Bool}
    (haccepted : op.Accepted host s.spill ↔ Accepts host s.spill payload growReservation)
    (hop : op.perform host s.spill =
      SpillAnswer.ofResult (fun _ => .pushed) (append host payload growReservation s.spill))
    (hlist : op.onList s.live = (.pushed, s.live ++ [payload])) :
    Standing host key maximum ((SpillRun.machine host).step s op).1 ∧ s.Follows host op := by
  have happend := append_standing hquiet h payload growReservation
  -- a torn file is left by a call that failed
  have hdecided (hnone : ¬host.Failing) :
      Triple (fun spill => spill = s.spill) (append host payload growReservation)
        (fun _ _ => Accepts host s.spill payload growReservation)
        fun _ _ => ¬Accepts host s.spill payload growReservation := by
    rcases h with h | ⟨-, hfailing⟩
    · exact append_decided hquiet hnone h payload growReservation
    · exact absurd hfailing hnone
  have hstep : ((SpillRun.machine host).step s op).1 = ⟨(op.perform host s.spill).2,
      if (op.perform host s.spill).1.isFailed then s.live else (op.onList s.live).2⟩ := rfl
  rw [hstep, SpillRun.Follows, hop, hlist]
  cases hc : append host payload growReservation s.spill with
  | ok _ spill =>
    rw [hc] at happend
    refine ⟨happend, .same _, fun hnone => Or.inl ⟨haccepted.mpr ?_, rfl⟩⟩
    exact (hdecided hnone).ok rfl hc
  | error e spill =>
    rw [hc] at happend
    refine ⟨happend, .failed e _, fun hnone => Or.inr ⟨fun hop => ?_, e, rfl⟩⟩
    exact (hdecided hnone).error rfl hc (haccepted.mp hop)

theorem pop_standing (hquiet : host.Quiet) {s : SpillRun} (h : Standing host key maximum s) :
    Standing host key maximum ((SpillRun.machine host).step s .pop).1 ∧ s.Follows host .pop := by
  have hstep : ((SpillRun.machine host).step s .pop).1 =
      ⟨(SpillOp.pop.perform host s.spill).2,
        if (SpillOp.pop.perform host s.spill).1.isFailed then s.live else s.live.dropLast⟩ := rfl
  have hop : SpillOp.pop.perform host s.spill = SpillAnswer.ofResult .popped (pop host s.spill) := rfl
  rw [hstep, SpillRun.Follows, hop]
  cases hc : pop host s.spill with
  | ok r spill =>
    rcases h with h | ⟨⟨h, -⟩, -⟩
    · obtain ⟨rfl, hfiled⟩ := (pop_live hquiet).ok h hc
      exact ⟨Or.inl hfiled, .same _, fun _ => Or.inl ⟨trivial, rfl⟩⟩
    · exact ((pop_torn hquiet).ok h hc).elim
  | error e spill =>
    have hrecords := ((pop_spec host s.spill).error (.refl s.spill) hc).records
    rcases h with h | ⟨⟨h, hcount⟩, hfailing⟩
    · obtain ⟨hfiled, hfailing⟩ := (pop_live hquiet).error h hc
      exact ⟨Or.inl hfiled, .failed e _, fun hnone => absurd hfailing hnone⟩
    · exact ⟨Or.inr ⟨⟨(pop_torn hquiet).error h hc, hrecords.trans hcount⟩, hfailing⟩, .failed e _,
        fun hnone => absurd hfailing hnone⟩

theorem standing_step (hquiet : host.Quiet) {s : SpillRun} (h : Standing host key maximum s)
    (op : SpillOp) :
    Standing host key maximum ((SpillRun.machine host).step s op).1 ∧ s.Follows host op := by
  cases op with
  | push payload => exact push_standing hquiet h Iff.rfl rfl rfl
  | pushReserved payload => exact push_standing hquiet h Iff.rfl rfl rfl
  | pop => exact pop_standing hquiet h
  | visit accept =>
    rcases h with h | ⟨⟨h, hcount⟩, hfailing⟩
    · obtain ⟨hfiled, hpass⟩ := visit_live hquiet accept h
      exact pass_standing rfl rfl trivial (Or.inl hfiled) hpass
    · obtain ⟨htorn, e, he⟩ := visit_torn hquiet accept h
      have hrecords := (visit_spec host accept s.spill).kept.records
      refine pass_standing rfl rfl trivial (Or.inr ⟨⟨htorn, hrecords.trans hcount⟩, hfailing⟩)
        (Or.inr ⟨hfailing, ?_, e, ?_⟩) <;> rw [he]
      exact List.nil_prefix
  | iterate count =>
    rcases h with h | ⟨⟨h, hcount⟩, hfailing⟩
    · obtain ⟨hfiled, hpass⟩ := iterate_live hquiet count h
      exact pass_standing rfl rfl trivial (Or.inl hfiled) hpass
    · obtain ⟨htorn, hpass⟩ := iterate_torn hquiet count h
      have hrecords := (iterate_spec host count s.spill).kept.records
      refine pass_standing rfl rfl trivial (Or.inr ⟨⟨htorn, hrecords.trans hcount⟩, hfailing⟩) ?_
      rcases hpass with ⟨hnothing, hzero⟩ | ⟨e, he⟩
      · refine Or.inl ?_
        rw [hcount] at hzero
        have htake : s.live.take count = [] := by
          rw [← List.length_eq_zero_iff, List.length_take]
          exact hzero
        rw [hnothing, htake]
      · refine Or.inr ⟨hfailing, ?_, e, ?_⟩ <;> rw [he]
        exact List.nil_prefix

end RecordSpill

/-! ## With interference -/

/-- What the checks accepted is what is handed out. -/
theorem SpillRun.as_pushed {host : SpillHost} (s : SpillRun) (op : SpillOp)
    (h : SpillRun.Unforged (op.perform host s.spill).2) :
    (op.perform host s.spill).1.AsPushed (op.perform host s.spill).2 := by
  cases op with
  | push payload =>
    show SpillAnswer.AsPushed _ (SpillAnswer.ofResult _ (RecordSpill.push host payload s.spill)).1
    cases RecordSpill.push host payload s.spill <;> trivial
  | pushReserved payload =>
    show SpillAnswer.AsPushed _
      (SpillAnswer.ofResult _ (RecordSpill.pushReserved host payload s.spill)).1
    cases RecordSpill.pushReserved host payload s.spill <;> trivial
  | pop =>
    unfold SpillOp.perform at h ⊢
    cases hc : RecordSpill.pop host s.spill with
    | error e spill => trivial
    | ok r spill =>
      rw [hc] at h
      rcases (RecordSpill.pop_spec host s.spill).ok (.refl s.spill) hc with
        ⟨rfl, -⟩ | ⟨payload, rfl, hpopped⟩
      · trivial
      · exact h hpopped.accepted
  | visit accept => exact fun _ hx => h ((RecordSpill.visit_spec host accept s.spill).accepted hx)
  | iterate count => exact fun _ hx => h ((RecordSpill.iterate_spec host count s.spill).accepted hx)

/-! ## Places written once -/

theorem recordSize_pos (p : List UInt8) : 0 < recordSize p := by
  unfold recordSize
  omega

theorem totalSize_lt {ps qs : List (List UInt8)} (h : ps <+: qs) (hne : ps ≠ qs) :
    totalSize ps < totalSize qs := by
  obtain ⟨rest, rfl⟩ := h
  cases rest with
  | nil => exact absurd (List.append_nil ps).symm hne
  | cons p rest =>
    rw [totalSize_append, totalSize_cons]
    have := recordSize_pos p
    omega

theorem prefix_of_totalSize_le {ps qs all : List (List UInt8)} (hp : ps <+: all) (hq : qs <+: all)
    (h : totalSize ps ≤ totalSize qs) : ps <+: qs := by
  rcases List.prefix_or_prefix_of_prefix hp hq with hpq | hqp
  · exact hpq
  · by_cases heq : qs = ps
    · exact heq ▸ List.prefix_refl _
    · exact absurd (totalSize_lt hqp heq) (Nat.not_lt.mpr h)

theorem mem_placed {offset start : Nat} {p : List UInt8} {ps : List (List UInt8)} :
    (offset, p) ∈ placed start ps ↔
      ∃ before after, ps = before ++ p :: after ∧ offset = start + totalSize before := by
  induction ps generalizing start with
  | nil => simp [placed]
  | cons q ps ih =>
    rw [placed, List.mem_cons, ih]
    constructor
    · rintro (heq | ⟨before, after, rfl, rfl⟩)
      · cases heq
        exact ⟨[], ps, rfl, rfl⟩
      · exact ⟨q :: before, after, rfl, by rw [totalSize_cons, Nat.add_assoc]⟩
    · rintro ⟨before, after, hps, rfl⟩
      cases before with
      | nil =>
        obtain ⟨rfl, rfl⟩ := List.cons.inj hps
        exact Or.inl rfl
      | cons b before =>
        obtain ⟨rfl, rfl⟩ := List.cons.inj hps
        exact Or.inr ⟨before, after, rfl, by rw [totalSize_cons, Nat.add_assoc]⟩

/-- What is placed where the records of `all` are is the beginning of `all`. -/
theorem prefix_of_placed {ps all : List (List UInt8)} (h : placed 0 ps ⊆ placed 0 all) :
    ps <+: all := by
  induction ps using List.reverseRecOn with
  | nil => exact List.nil_prefix
  | append_singleton ps p ih =>
    rw [placed_append] at h
    have hps := ih fun x hx => h (List.mem_append_left _ hx)
    have hlast := h (List.mem_append_right _ List.mem_cons_self)
    obtain ⟨before, after, rfl, hsize⟩ := mem_placed.mp hlast
    have hbefore : before <+: before ++ p :: after := List.prefix_append _ _
    simp only [Nat.zero_add] at hsize
    have heq : ps = before := (prefix_of_totalSize_le hps hbefore (Nat.le_of_eq hsize)).eq_of_length_le
      (prefix_of_totalSize_le hbefore hps (Nat.le_of_eq hsize.symm)).length_le
    rw [heq]
    exact ⟨after, by rw [List.append_assoc, List.singleton_append]⟩

/-- The records are the beginning of all that was ever written, each place once. -/
structure Chained (s : SpillRun) (written : List (List UInt8)) : Prop where
  tagged : s.spill.tagged = placed 0 written
  live : s.live <+: written
  length : s.spill.length = totalSize s.live
  records : s.spill.records = s.live.length

namespace Chained
variable {s : SpillRun} {written : List (List UInt8)} {host : SpillHost}

theorem start (key : SpillAuthenticationKey) (maximum : Nat) : Chained (.start key maximum) [] :=
  ⟨rfl, List.prefix_refl _, rfl, rfl⟩

theorem kept (h : Chained s written) {spill : RecordSpill} (hk : RecordSpill.Kept s.spill spill) :
    Chained ⟨spill, s.live⟩ written :=
  ⟨hk.tagged.trans h.tagged, h.live, hk.length.trans h.length, hk.records.trans h.records⟩

/-- A new place is the end of all that was written. -/
theorem whole (h : Chained s written) {payload : List UInt8} {spill : RecordSpill}
    (htagged : spill.tagged = s.spill.tagged ++ [(s.spill.length, payload)])
    (hd : SpillRun.Distinct spill) :
    s.live = written ∧ spill.tagged = placed 0 (written ++ [payload]) := by
  have hlive : s.live = written := by
    obtain ⟨rest, hrest⟩ := h.live
    cases rest with
    | nil => rw [← hrest, List.append_nil]
    | cons q rest =>
      have hmem : (s.spill.length, q) ∈ s.spill.tagged := by
        rw [h.tagged, mem_placed]
        exact ⟨s.live, rest, hrest.symm, by rw [h.length, Nat.zero_add]⟩
      rw [SpillRun.Distinct, htagged, List.map_append, List.nodup_append] at hd
      exact absurd rfl (hd.2.2 _ (List.mem_map_of_mem hmem) s.spill.length List.mem_cons_self)
  refine ⟨hlive, ?_⟩
  rw [htagged, h.tagged, placed_append, h.length, hlive, Nat.zero_add]
  rfl

theorem push (h : Chained s written) {payload : List UInt8} {growReservation : Bool}
    (hd : SpillRun.Distinct
      (SpillAnswer.ofResult (fun _ => .pushed)
        (RecordSpill.append host payload growReservation s.spill)).2) :
    match RecordSpill.append host payload growReservation s.spill with
    | .ok _ spill => ∃ written', Chained ⟨spill, s.live ++ [payload]⟩ written'
    | .error _ spill => ∃ written', Chained ⟨spill, s.live⟩ written' := by
  cases hc : RecordSpill.append host payload growReservation s.spill with
  | ok _ spill =>
    rw [hc] at hd
    have happended := (RecordSpill.append_spec host payload growReservation s.spill).ok (.refl _) hc
    obtain ⟨hlive, htagged⟩ := h.whole happended.tagged hd
    refine ⟨written ++ [payload], htagged, hlive ▸ List.prefix_refl _, ?_, ?_⟩
    · show spill.length = totalSize (s.live ++ [payload])
      rw [happended.length, h.length, totalSize_append, totalSize_cons, totalSize_nil, Nat.add_zero]
    · show spill.records = (s.live ++ [payload]).length
      rw [happended.records, h.records, List.length_append, List.length_singleton]
  | error e spill =>
    rw [hc] at hd
    rcases (RecordSpill.append_spec host payload growReservation s.spill).error (.refl _) hc with
      hk | hk
    · exact ⟨written, h.kept hk⟩
    · obtain ⟨hlive, htagged⟩ := h.whole hk.tagged hd
      exact ⟨written ++ [payload], htagged, hlive ▸ List.prefix_append _ _,
        hk.length.trans h.length, hk.records.trans h.records⟩

/-- What was popped is the last record. -/
theorem popped (h : Chained s written) {payload : List UInt8} {spill : RecordSpill}
    (hpopped : RecordSpill.Popped s.spill payload spill) (hu : SpillRun.Unforged spill) :
    s.live = s.live.dropLast ++ [payload] ∧ Chained ⟨spill, s.live.dropLast⟩ written := by
  have hmem := hu hpopped.accepted
  rw [hpopped.tagged, h.tagged] at hmem
  obtain ⟨before, after, hall, hwhere⟩ := mem_placed.mp hmem
  rw [Nat.zero_add] at hwhere
  have hbefore : before ++ [payload] <+: written :=
    ⟨after, by rw [hall, List.append_assoc, List.singleton_append]⟩
  have hend : totalSize (before ++ [payload]) = totalSize s.live := by
    rw [totalSize_append, totalSize_cons, totalSize_nil, Nat.add_zero, ← hwhere, hpopped.length,
      h.length]
  have hlive : s.live = before ++ [payload] :=
    (prefix_of_totalSize_le h.live hbefore (Nat.le_of_eq hend.symm)).eq_of_length_le
      (prefix_of_totalSize_le hbefore h.live (Nat.le_of_eq hend)).length_le
  have hrecords := hpopped.records
  rw [h.records, hlive, List.length_append, List.length_singleton] at hrecords
  rw [hlive, List.dropLast_concat]
  refine ⟨rfl, hpopped.tagged.trans h.tagged, (List.prefix_append _ _).trans hbefore, hwhere, ?_⟩
  exact Nat.succ.inj hrecords

/-- What a pass has handed over is the beginning of the list. -/
theorem passed (h : Chained s written) {accept : List (List UInt8) → Bool} {most : Nat}
    {out : (List (List UInt8) × Except SpillVisitError Unit) × RecordSpill}
    (hpass : RecordSpill.PassedOver accept most s.spill out)
    (hu : SpillRun.Unforged out.2) : out.1.1 <+: s.live := by
  have hplaced : placed 0 out.1.1 ⊆ placed 0 written := by
    rw [← h.tagged, ← hpass.kept.tagged]
    exact fun _ hx => hu (hpass.accepted hx)
  refine prefix_of_totalSize_le (prefix_of_placed hplaced) h.live ?_
  rw [← h.length]
  exact hpass.within

end Chained

/-- A pass over the beginning of a list agrees with the pass over the list. -/
theorem agrees_of_passed {accept : List (List UInt8) → Bool} {given : List (List UInt8)}
    {pass : List (List UInt8) × Except SpillVisitError Unit} (hstart : pass.1 <+: given)
    (hover : handOver accept [] pass.1 = (pass.1, RecordSpill.visitorOutcome pass.2))
    (hall : pass.2 = .ok () → pass.1 = given) :
    SpillAnswer.Agrees (.passed pass) (.passed (handOver accept [] given)) := by
  obtain ⟨handed, outcome⟩ := pass
  obtain ⟨rest, rfl⟩ := hstart
  match outcome with
  | .ok () =>
    rw [← hall rfl, hover]
    exact .same _
  | .error .Visitor =>
    rw [handOver_append_refused (by rw [hover]; exact fun h => by cases h), hover]
    exact .same _
  | .error (.Io e) =>
    refine .stopped e _ ?_
    rw [handOver_append (by rw [hover]; rfl), List.nil_append]
    exact RecordSpill.handOver_starts accept handed rest

theorem Chained.step {s : SpillRun} {written : List (List UInt8)} {host : SpillHost}
    (h : Chained s written) (op : SpillOp)
    (hu : SpillRun.Unforged ((SpillRun.machine host).step s op).1.spill)
    (hd : SpillRun.Distinct ((SpillRun.machine host).step s op).1.spill) :
    (∃ written', Chained ((SpillRun.machine host).step s op).1 written') ∧
      (op.perform host s.spill).1.Agrees (op.onList s.live).1 := by
  have hstep : ((SpillRun.machine host).step s op).1 = ⟨(op.perform host s.spill).2,
      if (op.perform host s.spill).1.isFailed then s.live else (op.onList s.live).2⟩ := rfl
  have hpush {payload : List UInt8} {growReservation : Bool}
      (hop : op.perform host s.spill = SpillAnswer.ofResult (fun _ => .pushed)
        (RecordSpill.append host payload growReservation s.spill))
      (hlist : op.onList s.live = (.pushed, s.live ++ [payload])) :
      (∃ written', Chained ((SpillRun.machine host).step s op).1 written') ∧
        (op.perform host s.spill).1.Agrees (op.onList s.live).1 := by
    rw [hstep] at hd ⊢
    rw [hop] at hd ⊢
    rw [hlist]
    have hnext := h.push hd
    cases hc : RecordSpill.append host payload growReservation s.spill with
    | ok _ spill =>
      rw [hc] at hnext
      exact ⟨hnext, .same _⟩
    | error e spill =>
      rw [hc] at hnext
      exact ⟨hnext, .failed e _⟩
  cases op with
  | push payload => exact hpush rfl rfl
  | pushReserved payload => exact hpush rfl rfl
  | pop =>
    have hop : SpillOp.pop.perform host s.spill =
      SpillAnswer.ofResult .popped (RecordSpill.pop host s.spill) := rfl
    rw [hstep, hop] at hu
    rw [hstep, hop]
    cases hc : RecordSpill.pop host s.spill with
    | error e spill =>
      have hk := (RecordSpill.pop_spec host s.spill).error (.refl s.spill) hc
      exact ⟨⟨written, h.kept hk⟩, .failed e _⟩
    | ok r spill =>
      rw [hc] at hu
      rcases (RecordSpill.pop_spec host s.spill).ok (.refl s.spill) hc with
        ⟨rfl, hnone, -, hk⟩ | ⟨payload, rfl, hpopped⟩
      · have hnil : s.live = [] := by
          rw [← List.length_eq_zero_iff, ← h.records]
          exact hnone
        have hkept := h.kept hk
        rw [hnil] at hkept
        refine ⟨⟨written, ?_⟩, ?_⟩
        · show Chained ⟨spill, s.live.dropLast⟩ written
          rw [hnil]
          exact hkept
        · show SpillAnswer.Agrees _ (.popped s.live.getLast?)
          rw [hnil]
          exact .same _
      · obtain ⟨hlive, hchained⟩ := h.popped hpopped hu
        refine ⟨⟨written, hchained⟩, ?_⟩
        show SpillAnswer.Agrees _ (.popped s.live.getLast?)
        rw [hlive, List.getLast?_concat]
        exact .same _
  | visit accept =>
    have hpass := RecordSpill.visit_spec host accept s.spill
    have hstart := h.passed hpass hu
    have hagrees := agrees_of_passed hstart hpass.shown fun hok => hstart.eq_of_length (by
      rw [hpass.all hok, h.records])
    refine ⟨⟨written, ?_⟩, hagrees⟩
    rw [hstep]
    show Chained ⟨_, if _ then s.live else s.live⟩ written
    rw [ite_self]
    exact h.kept hpass.kept
  | iterate count =>
    have hpass := RecordSpill.iterate_spec host count s.spill
    have hstart := h.passed hpass hu
    have hfew := hpass.few
    have htake : (RecordSpill.iterate host count s.spill).1.1 <+: s.live.take count :=
      List.prefix_take_iff.mpr ⟨hstart, Nat.le_trans hfew (Nat.min_le_left _ _)⟩
    have hagrees := agrees_of_passed htake hpass.shown fun hok => htake.eq_of_length (by
      rw [hpass.all hok, h.records, List.length_take])
    rw [RecordSpill.handOver_true, List.nil_append] at hagrees
    refine ⟨⟨written, ?_⟩, hagrees⟩
    rw [hstep]
    show Chained ⟨_, if _ then s.live else s.live⟩ written
    rw [ite_self]
    exact h.kept hpass.kept

/-! ## The runs -/

namespace SpillRun
variable (host : SpillHost)

/-- The step forges no tag. -/
def Unforgeable (s : SpillRun) (op : SpillOp) : Prop := Unforged (op.perform host s.spill).2

/-- The step forges no tag, and writes no place again. -/
def Fresh (s : SpillRun) (op : SpillOp) : Prop :=
  Unforgeable host s op ∧ Distinct (op.perform host s.spill).2

instance (s : SpillRun) (op : SpillOp) : Decidable (Unforgeable host s op) :=
  inferInstanceAs (Decidable (Unforged _))

instance (s : SpillRun) (op : SpillOp) : Decidable (Fresh host s op) :=
  inferInstanceAs (Decidable (_ ∧ _))

end SpillRun

/-- Without interference a spill answers as a list does. With it, and as long as no tag is forged,
what it hands out was pushed where it was read from; and as long as no place is written twice, it
is what the list hands out. -/
theorem spill_refines_list (host : SpillHost) (key : SpillAuthenticationKey) (maximum : Nat)
    (ops : List SpillOp) :
    (host.Quiet → (SpillRun.machine host).Along (SpillRun.Follows host) (.start key maximum) ops) ∧
      ((SpillRun.machine host).Along (SpillRun.Unforgeable host) (.start key maximum) ops →
        (SpillRun.machine host).Along
          (fun s op => (op.perform host s.spill).1.AsPushed (op.perform host s.spill).2)
          (.start key maximum) ops) ∧
      ((SpillRun.machine host).Along (SpillRun.Fresh host) (.start key maximum) ops →
        (SpillRun.machine host).Along
          (fun s op => (op.perform host s.spill).1.Agrees (op.onList s.live).1)
          (.start key maximum) ops) := by
  refine ⟨fun hquiet => ?_, fun h => ?_, fun h => ?_⟩
  · have hstart : RecordSpill.Standing host key maximum (.start key maximum) :=
      Or.inl ⟨rfl, rfl, rfl, rfl, rfl, fun p hp => (by cases hp), Nat.two_pow_pos 64⟩
    refine (SpillRun.machine host).along_of_invariant (C := fun _ _ => True) ?_ hstart
      ((SpillRun.machine host).along_of_forall (A := fun _ => True) (fun _ _ => trivial) _)
    exact fun s op hs _ => RecordSpill.standing_step hquiet hs op
  · refine (SpillRun.machine host).along_of_invariant (I := fun _ => True) ?_ trivial h
    exact fun s op _ hu => ⟨trivial, s.as_pushed op hu⟩
  · refine (SpillRun.machine host).along_of_invariant (I := fun s => ∃ written, Chained s written)
      ?_ ⟨[], .start key maximum⟩ h
    rintro s op ⟨written, hs⟩ ⟨hu, hd⟩
    exact hs.step op hu hd

/-! ## A record that was popped -/

/-- What SHA-256 gives on the inputs of the records below, under a key of zero bytes. -/
def digest (n : Nat) : Vector UInt8 32 := ⟨(beBytes 32 n).toArray, by simp⟩

def tagInput (offset : Nat) (payload : List UInt8) : List UInt8 :=
  List.replicate 64 0x36 ++ SpillAuthenticationKey.domain ++ leBytes 8 offset ++
    leBytes 8 payload.length ++ payload

def knownDigests : List (List UInt8 × Nat) :=
  [(tagInput 0 [65],
      0xd5885c97203c93e3809aa12ddf40ef7bd89e678acd1bc4e2a930745fd283ddbf),
    (List.replicate 64 0x5c ++ beBytes 32
      0xd5885c97203c93e3809aa12ddf40ef7bd89e678acd1bc4e2a930745fd283ddbf,
      0x19323ee8d0e31f150ba148441795321be9ba5bb32a6af1dc26021ffa2d5ed6f1),
    (tagInput 0 [66],
      0x8f95b58cc2d6d5b3f07b0acf8dbc26d461547edfc526f161ea965300624b4dce),
    (List.replicate 64 0x5c ++ beBytes 32
      0x8f95b58cc2d6d5b3f07b0acf8dbc26d461547edfc526f161ea965300624b4dce,
      0xf4a174fad40e4ba3b9ef77ef5ac8f302e82461f26443b3e545f3a349d199f13c),
    (tagInput 49 [66],
      0xdd952f6d3e0397bd2ba5b471b99c27c757a98672cbc84c6062615a8c9fea1475),
    (List.replicate 64 0x5c ++ beBytes 32
      0xdd952f6d3e0397bd2ba5b471b99c27c757a98672cbc84c6062615a8c9fea1475,
      0x4cc85052b659de3f8ed64457f421ba782e078c1e736d433fb5d1be09a5ac4317),
    (tagInput 49 [65],
      0xe57449fcf2b7b5d47f246db20b23db263fc33d8b81e59fec96e0234be1f78155),
    (List.replicate 64 0x5c ++ beBytes 32
      0xe57449fcf2b7b5d47f246db20b23db263fc33d8b81e59fec96e0234be1f78155,
      0x36861f3860884c6f02d19dfa756236fcbaadecf17308b57953fa9fc9e77b1f68)]

def knownSha256 (input : List UInt8) : Vector UInt8 32 :=
  digest (((knownDigests.find? fun known => known.1 == input).map Prod.snd).getD 0)

/-- A budget of a thousand bytes, no failing call, and the file replaced before one call. -/
def replacing (call : Nat) (file : List UInt8) : SpillHost where
  sha256 := knownSha256
  events i :=
    { modify := fun old => if i = call then file else old
      failure := none
      storage := .withLimitBytesNamed 1000 "storage" "limit"
      stopSeen := false }

def zeroKey : SpillAuthenticationKey := ⟨Vector.replicate 32 0⟩

/-- The files of two records, in their places and swapped. -/
def spillHost : SpillHost := replacing 0 []

def swapped : List UInt8 :=
  RecordSpill.frame spillHost zeroKey 49 [66] ++ RecordSpill.frame spillHost zeroKey 0 [65]

/-- Two records are pushed and their frames swapped before the pop. -/
theorem spill_refines_list_swapped :
    (SpillRun.machine (replacing 14 swapped)).Along
      (fun s op => (op.perform (replacing 14 swapped) s.spill).1.Agrees (op.onList s.live).1)
      (.start zeroKey 8) [.push [65], .push [66], .pop, .visit fun _ => true] :=
  (spill_refines_list (replacing 14 swapped) zeroKey 8
    [.push [65], .push [66], .pop, .visit fun _ => true]).2.2 (by decide +kernel)

/-- The file is put back to what it was after the first push. -/
def replayHost : SpillHost := replacing 23 (RecordSpill.frame spillHost zeroKey 0 [65])

def replayed : SpillRun :=
  (SpillRun.machine replayHost).run (.start zeroKey 8) [.push [65], .pop, .push [66]]

/-- A record is pushed and popped, another is pushed in its place, and then the file is put back
as it was: the pop returns the first record. -/
theorem restored_record_is_popped :
    ¬∀ (host : SpillHost) (key : SpillAuthenticationKey) (maximum : Nat) (ops : List SpillOp),
      (SpillRun.machine host).Along (SpillRun.Unforgeable host) (.start key maximum) ops →
        (SpillRun.machine host).Along
          (fun s op => (op.perform host s.spill).1.Agrees (op.onList s.live).1)
          (.start key maximum) ops := by
  intro h
  have hagrees := h replayHost zeroKey 8 [.push [65], .pop, .push [66], .pop] (by decide +kernel)
  have hpop : (SpillOp.pop.perform replayHost replayed.spill).1 = .popped (some [65]) := by
    decide +kernel
  have hlist : (SpillOp.pop.onList replayed.live).1 = .popped (some [66]) := by decide +kernel
  have hlast := ((SpillRun.machine replayHost).along_append.mp
    (show (SpillRun.machine replayHost).Along _ _ ([.push [65], .pop, .push [66]] ++ [.pop]) from
      hagrees)).2.1
  change SpillAnswer.Agrees (SpillOp.pop.perform replayHost replayed.spill).1
    (SpillOp.pop.onList replayed.live).1 at hlast
  rw [hpop, hlist] at hlast
  cases hlast

end Excise
