import Excise.Deletion.PlanWalk
import Excise.Deletion.ResultRecords
import Excise.Deletion.SpillFrames
import Excise.Lib.Folds
import Excise.Lib.Sums

/-!
# The reserved place suffices

Planning keeps a place for the result of every entry, in the memory the plan is charged or in the
reservation of the result spill. While results are collected the room that is left covers the
results that are still to come.
-/

namespace Excise
open Executor (withLinkCount)
set_option autoImplicit false

/-! ## A record within the reservation -/

namespace RecordSpill

/-- What a spill file is charged. -/
structure Charged (length records reserved maximum : Nat) (s : RecordSpill) : Prop where
  length : s.length = length
  records : s.records = records
  reserved : s.reserved = reserved
  maximumPayload : s.maximumPayload = maximum

def changedOutside : StorageError :=
  ⟨.InvalidData, "deletion spill file changed outside its accounting boundary"⟩

/-- The last call failed, or somebody else changed the file. -/
inductive FileFailed (host : SpillHost) : StorageError → RecordSpill → Prop where
  | call {s : RecordSpill} {i : Nat} {failure : CallFailure} (hlast : s.calls = i + 1)
      (hfail : (host.events i).failure = some failure) : FileFailed host failure.error s
  | changed {s : RecordSpill} (h : ¬host.Quiet) : FileFailed host changedOutside s

variable {host : SpillHost} {length records reserved maximum : Nat} {α : Type}
  {Q : α → RecordSpill → Prop}

/-- A call that does not fail leaves the counts as they were, and the file too when nobody else
writes it. -/
theorem charged_call {P : RecordSpill → Prop} {f : SpillM α}
    (hP : ∀ s e, P s → P { s with calls := s.calls + 1, file := (host.events e).modify s.file })
    (hf : Triple P f Q (FileFailed host)) :
    Triple P (do failIfFails (← systemCall host); f) Q (FileFailed host) := by
  intro s hs
  have hcall : (do failIfFails (← systemCall host); f) s =
      (host.events s.calls).failure.elim
        (f { s with calls := s.calls + 1, file := (host.events s.calls).modify s.file })
        fun failure => .error failure.error
          { s with calls := s.calls + 1, file := (host.events s.calls).modify s.file } := by
    show EStateM.bind (systemCall host) _ s = _
    unfold EStateM.bind systemCall
    show EStateM.bind (failIfFails _) _ _ = _
    unfold EStateM.bind failIfFails
    cases hfail : (host.events s.calls).failure with
    | none => rfl
    | some failure => rfl
  rw [hcall]
  cases hfail : (host.events s.calls).failure with
  | none => exact hf _ (hP s s.calls hs)
  | some failure => exact .call rfl hfail

theorem Charged.modified (s : RecordSpill) (e : Nat)
    (h : Charged length records reserved maximum s) : Charged length records reserved maximum
      { s with calls := s.calls + 1, file := (host.events e).modify s.file } :=
  ⟨h.length, h.records, h.reserved, h.maximumPayload⟩

theorem writeAll_charged (bytes : List UInt8) :
    Triple (Charged length records reserved maximum) (writeAll host bytes)
      (fun _ => Charged length records reserved maximum) (FileFailed host) := by
  refine Triple.bind (Q := fun e s => Charged length records reserved maximum s ∧
    ∃ i, s.calls = i + 1 ∧ e = host.events i) ?_ fun e s hs => ?_
  · exact fun s hs => ⟨hs.modified s s.calls, s.calls, rfl, rfl⟩
  · obtain ⟨hs, i, hlast, rfl⟩ := hs
    cases hfail : (host.events i).failure with
    | none => exact ⟨hs.length, hs.records, hs.reserved, hs.maximumPayload⟩
    | some failure => exact .call hlast hfail

theorem seek_charged (offset : Nat) :
    Triple (Charged length records reserved maximum) (seek host offset)
      (fun _ => Charged length records reserved maximum) (FileFailed host) :=
  charged_call Charged.modified fun _ hs =>
    ⟨hs.length, hs.records, hs.reserved, hs.maximumPayload⟩

/-- The file is as long as was accounted unless somebody else wrote it. -/
def Whole (host : SpillHost) (s : RecordSpill) : Prop :=
  host.Quiet → s.file.length = s.length

theorem verifyLength_charged :
    Triple (fun s => Charged length records reserved maximum s ∧ Whole host s) (verifyLength host)
      (fun _ => Charged length records reserved maximum) (FileFailed host) := by
  unfold verifyLength
  refine Triple.bind (Q := fun n s => Charged length records reserved maximum s ∧
    (host.Quiet → n = s.length)) ?_ fun n s hs => ?_
  · refine charged_call (fun s e hs => ⟨hs.1.modified s e, fun hquiet => ?_⟩) fun s hs => ?_
    · show ((host.events e).modify s.file).length = s.length
      rw [hquiet]
      exact hs.2 hquiet
    · exact ⟨hs.1, hs.2⟩
  · by_cases hn : n = s.length
    · rw [if_pos hn]
      exact hs.1
    · rw [if_neg hn]
      exact .changed fun hquiet => hn (hs.2 hquiet)

theorem payloadLen_charged {payload : List UInt8} {f : Nat → SpillM α} {P : RecordSpill → Prop}
    {E : StorageError → RecordSpill → Prop} (hsmall : payload.length < 2 ^ 64)
    (hmaximum : ∀ s, P s → payload.length ≤ s.maximumPayload)
    (hf : Triple P (f payload.length) Q E) : Triple P (payloadLen payload >>= f) Q E := by
  refine Triple.bind (Q := fun n s => n = payload.length ∧ P s) ?_ fun n =>
    Triple.of_fact (fun _ h => h.1) fun hn => ?_
  · intro s hs
    have hlen : payloadLen payload s = .ok payload.length s := by
      unfold payloadLen
      rw [if_neg (by omega), if_neg (Nat.not_lt.mpr (hmaximum s hs))]
    rw [hlen]
    exact ⟨rfl, hs⟩
  · subst hn
    exact hf.weaken (fun _ h => h.2) (fun _ _ h => h) fun _ _ h => h

/-- Within the reservation only the file can fail. -/
theorem pushReserved_room {payload : List UInt8} (hmaximum : payload.length ≤ maximum)
    (hroom : length + recordSize payload ≤ reserved) (hreserved : reserved < 2 ^ 64)
    (hrecords : records ≤ length) :
    Triple (fun s => Charged length records reserved maximum s ∧ Whole host s)
      (pushReserved host payload)
      (fun _ => Charged (length + recordSize payload) (records + 1) reserved maximum)
      (FileFailed host) := by
  have hsize : recordSize payload = 48 + payload.length := rfl
  refine payloadLen_charged (by omega) (fun s hs => hs.1.maximumPayload ▸ hmaximum) ?_
  refine ofExcept_then (spillRecordLen_of_lt (by omega)) ?_
  refine get_then fun s₁ hs₁ => ?_
  obtain ⟨⟨hlength, hcount, hbytes, hmax⟩, -⟩ := hs₁
  refine ensure_then (decide_eq_true (by omega)) ?_
  refine ensure_then (decide_eq_true (by omega)) ?_
  refine Triple.bind verifyLength_charged fun _ => ?_
  have hkeep : Triple (Charged length records reserved maximum)
      (reserve host false (s₁.length + recordSize payload))
      (fun _ => Charged length records reserved maximum) (FileFailed host) := by
    intro s hs
    have hcovered : reserve host false (s₁.length + recordSize payload) s = .ok () s :=
      if_neg (by rw [hs.reserved]; omega)
    rw [hcovered]
    exact hs
  refine Triple.bind hkeep fun _ => ?_
  refine Triple.bind (Q := fun _ => Charged length records reserved maximum)
    (fun s hs => ⟨hs.length, hs.records, hs.reserved, hs.maximumPayload⟩) fun tag => ?_
  refine Triple.bind (seek_charged _) fun _ => ?_
  refine Triple.bind (Triple.bind (writeAll_charged _) fun _ =>
    Triple.bind (writeAll_charged _) fun _ =>
    Triple.bind (writeAll_charged _) fun _ => writeAll_charged _) fun _ s hs => ?_
  refine ⟨?_, ?_, hs.reserved, hs.maximumPayload⟩
  · show s₁.length + recordSize payload = _
    rw [hlength]
  · show s₁.records + 1 = _
    rw [hcount]

end RecordSpill

/-! ## Collecting -/

variable (host : PlanHost)

/-- The result as it is kept. -/
def boundedResult (result : DeletionEntryResult) : DeletionEntryResult :=
  { result with outcome := result.outcome.bound }

def residentBytes (result : DeletionEntryResult) : Nat :=
  resultEntryResidentBytes host.toHost (boundedResult result)

def resultRecordBytes (result : DeletionEntryResult) : Nat :=
  recordSize (encodeSpilledResult host (boundedResult result))

/-- The file of results holds the records of these, unless somebody else writes it. -/
structure ResultsFiled (results : List DeletionEntryResult) (spill : RecordSpill) : Prop where
  records : spill.records = results.length
  file : host.resultsSpill.host.Quiet → ∃ key, RecordSpill.Filed host.resultsSpill.host key
    spill.maximumPayload (results.map fun r => encodeSpilledResult host (boundedResult r)) [] spill

/-- What a collector keeps of the results that were pushed. -/
inductive KeepsResults (pushed : List DeletionEntryResult) : CollectedResults → Prop where
  | InMemory (estimatedBytes maximumBytes : Nat) :
      KeepsResults pushed (.InMemory (pushed.map boundedResult) estimatedBytes maximumBytes)
  | Spilled {spill : RecordSpill} (filed : ResultsFiled host pushed spill) :
      KeepsResults pushed (.Spilled spill)

/-- What is left covers these results. -/
inductive Room (rest : List DeletionEntryResult) : CollectedResults → Prop where
  | InMemory {entries : List DeletionEntryResult} {estimatedBytes maximumBytes : Nat}
      (h : satAdd 64 estimatedBytes (rest.map (residentBytes host)).sum ≤ maximumBytes) :
      Room rest (.InMemory entries estimatedBytes maximumBytes)
  | Spilled {spill : RecordSpill}
      (room : spill.length + (rest.map (resultRecordBytes host)).sum ≤ spill.reserved)
      (small : spill.reserved < 2 ^ 64) (counted : spill.records ≤ spill.length)
      (fit : ∀ r ∈ rest, (encodeSpilledResult host (boundedResult r)).length ≤ spill.maximumPayload) :
      Room rest (.Spilled spill)

/-- The allocator refused, a call on the file failed, or somebody else wrote the file. -/
inductive FailedOutside : StorageError → CollectedResults → Prop where
  | allocation {entries : List DeletionEntryResult} {estimatedBytes maximumBytes : Nat}
      {text : String} (h : host.reserveResults (entries.length + 1) = .error text) :
      FailedOutside ⟨.Other, text⟩ (.InMemory entries estimatedBytes maximumBytes)
  | file {e : StorageError} {spill : RecordSpill}
      (h : RecordSpill.FileFailed host.resultsSpill.host e spill) : FailedOutside e (.Spilled spill)

theorem satAdd_assoc_le {a b c maximum : Nat} (h : satAdd 64 a (b + c) ≤ maximum) :
    satAdd 64 a b ≤ maximum ∧ satAdd 64 (satAdd 64 a b) c ≤ maximum := by
  unfold satAdd at *
  omega

namespace StoredCollector

theorem push_room {c : StoredCollector} {result : DeletionEntryResult}
    {pushed rest : List DeletionEntryResult} (h : Room host (result :: rest) c.results)
    (hheld : KeepsResults host pushed c.results) :
    (∃ c', c.push host result = (.ok (), c') ∧ Room host rest c'.results ∧
      KeepsResults host (pushed ++ [result]) c'.results) ∨
      ∃ e c', c.push host result = (.error e, c') ∧ FailedOutside host e c'.results := by
  obtain ⟨results, target, targetRemoved, summary⟩ := c
  show (∃ c', (noted _ (boundedResult result)).store host (boundedResult result) = _ ∧ _ ∧ _) ∨
    ∃ e c', (noted _ (boundedResult result)).store host (boundedResult result) = _ ∧ _
  unfold store noted
  cases h with
  | @InMemory entries estimatedBytes maximumBytes h =>
    cases hheld
    rw [List.map_cons, List.sum_cons] at h
    obtain ⟨hnext, hrest⟩ := satAdd_assoc_le h
    have hstore : ¬maximumBytes < satAdd 64 estimatedBytes
        (resultEntryResidentBytes host.toHost (boundedResult result)) := Nat.not_lt.mpr hnext
    dsimp only
    rw [if_neg hstore]
    cases hroom : host.reserveResults ((pushed.map boundedResult).length + 1) with
    | error text => exact Or.inr ⟨_, _, rfl, .allocation hroom⟩
    | ok =>
      have hkept : pushed.map boundedResult ++ [boundedResult result] =
          (pushed ++ [result]).map boundedResult := by rw [List.map_append, List.map_singleton]
      refine Or.inl ⟨_, rfl, .InMemory hrest, ?_⟩
      dsimp only
      rw [hkept]
      exact .InMemory _ _
  | @Spilled spill room small counted fit =>
    have filed : ResultsFiled host pushed spill := by
      cases hheld with
      | Spilled filed => exact filed
    rw [List.map_cons, List.sum_cons] at room
    have hfit := fit result List.mem_cons_self
    have hwhole : RecordSpill.Whole host.resultsSpill.host spill := by
      intro hquiet
      obtain ⟨key, hfiled⟩ := filed.file hquiet
      rw [hfiled.file_length, List.length_nil, Nat.add_zero]
    have hpush := @RecordSpill.pushReserved_room host.resultsSpill.host _ _ _ _ _ hfit
      (show spill.length + resultRecordBytes host result ≤ spill.reserved by omega) small counted
    dsimp only
    cases hresult : RecordSpill.pushReserved host.resultsSpill.host
        (encodeSpilledResult host (boundedResult result)) spill with
    | error e spill' =>
      have hfailed := hpush.error ⟨⟨rfl, rfl, rfl, rfl⟩, hwhole⟩ hresult
      exact Or.inr ⟨e, _, rfl, .file hfailed⟩
    | ok _ spill' =>
      obtain ⟨hlength, hrecords, hreserved, hmaximum⟩ :=
        hpush.ok ⟨⟨rfl, rfl, rfl, rfl⟩, hwhole⟩ hresult
      refine Or.inl ⟨_, rfl, .Spilled ?_ ?_ ?_ ?_, .Spilled ⟨?_, ?_⟩⟩
      · rw [hlength, hreserved]
        unfold resultRecordBytes at room ⊢
        omega
      · rw [hreserved]
        exact small
      · have : 0 < recordSize (encodeSpilledResult host (boundedResult result)) := by
          unfold recordSize
          omega
        omega
      · rw [hmaximum]
        exact fun r hr => fit r (List.mem_cons_of_mem _ hr)
      · rw [hrecords, filed.records, List.length_append]
        rfl
      · intro hquiet
        obtain ⟨key, hfiled⟩ := filed.file hquiet
        rw [hmaximum, List.map_append, List.map_singleton]
        exact ⟨key, (RecordSpill.append_live hquiet _ false).ok hfiled hresult⟩

/-- As long as the room that is left covers the results, they are all kept, or what is outside
fails. -/
theorem pushAll_room {c : StoredCollector} {pushed results : List DeletionEntryResult}
    (h : Room host results c.results) (hheld : KeepsResults host pushed c.results) :
    (∃ c', c.pushAll host results = (.ok (), c') ∧ KeepsResults host (pushed ++ results) c'.results) ∨
      ∃ e c', c.pushAll host results = (.error e, c') ∧ FailedOutside host e c'.results := by
  induction results generalizing c pushed with
  | nil => exact Or.inl ⟨c, rfl, (List.append_nil pushed).symm ▸ hheld⟩
  | cons result rest ih =>
    unfold pushAll
    obtain ⟨next, hpush, hroom, hnext⟩ | ⟨error, next, hpush, hout⟩ := push_room host h hheld
    · rw [hpush]
      rw [← List.singleton_append, ← List.append_assoc]
      exact ih hroom hnext
    · rw [hpush]
      exact Or.inr ⟨error, next, rfl, hout⟩

end StoredCollector

/-! ## Planning -/

/-- An empty spill of results with a reservation of at least so many bytes. -/
structure Promised (bytes : Nat) (spill : RecordSpill) : Prop where
  length : spill.length = 0
  records : spill.records = 0
  maximumPayload : spill.maximumPayload = maxResultSpillRecordBytes
  reserved : bytes ≤ spill.reserved
  small : spill.reserved < 2 ^ 64
  filed : ResultsFiled host [] spill

theorem promised_new (key : SpillAuthenticationKey) :
    Promised host 0 (RecordSpill.new key maxResultSpillRecordBytes) where
  length := rfl
  records := rfl
  maximumPayload := rfl
  reserved := Nat.le_refl 0
  small := show 0 < 2 ^ 64 by decide
  filed := ⟨rfl, fun _ => ⟨key, rfl, rfl, rfl, rfl, rfl, fun _ h => (by cases h),
    show 0 < 2 ^ 64 by decide⟩⟩

theorem reserveTo_promised {bytes next : Nat} {spill spill' : RecordSpill}
    (h : Promised host bytes spill) (hnext : next < 2 ^ 64)
    (hrun : PlannedResultStorage.reserveTo host spill next = .ok spill') :
    Promised host next spill' := by
  obtain ⟨r, hran, hlast⟩ := map_eq_ok hrun
  unfold runSpill at hran
  have hgrow : Triple (fun s => s = spill)
      (RecordSpill.growTo host.resultsSpill.host next) (fun _ s => Promised host next s)
      fun _ _ => True := by
    refine Triple.bind (Q := fun _ s => ∃ file calls, s = { spill with file := file, calls := calls } ∧
      (host.resultsSpill.host.Quiet → file = spill.file)) ?_ fun e s hs => ?_
    · rintro s rfl
      exact ⟨_, _, rfl, fun hquiet => hquiet _ _⟩
    · obtain ⟨file, calls, rfl, hfile⟩ := hs
      dsimp only
      split
      · rename_i hc
        split at hc <;> cases hc
        rename_i storage reserved hgrown
        have hreserved := TemporaryStorageState.growTo_eq_ok hgrown
        have hsmall := h.small
        refine ⟨h.length, h.records, h.maximumPayload, ?_, ?_, h.filed.records, fun hquiet => ?_⟩
        · show next ≤ reserved
          omega
        · show reserved < 2 ^ 64
          omega
        · obtain ⟨key, hfiled⟩ := h.filed.file hquiet
          rw [hfile hquiet]
          exact ⟨key, hfiled.file, hfiled.length, hfiled.records, hfiled.authentication,
            hfiled.maximumPayload, hfiled.fits, hfiled.small⟩
      · exact trivial
  cases hresult : RecordSpill.growTo host.resultsSpill.host next spill with
  | error e s =>
    rw [hresult] at hran
    cases hran
  | ok _ s =>
    rw [hresult] at hran
    cases hran
    exact hlast ▸ hgrow.ok rfl hresult

theorem nextReservation_eq_ok {reserved resultRecordBytes next : Nat}
    (h : PlannedResultStorage.nextReservation reserved resultRecordBytes = .ok next) :
    next = reserved + resultRecordBytes ∧ next < 2 ^ 64 := by
  unfold PlannedResultStorage.nextReservation at h
  split at h <;> cases h
  exact ⟨rfl, by omega⟩

/-- The place computed for the result of an entry. -/
def capacityOf (entry : PlannedEntry) : Nat :=
  match resultSpillRecordCapacity host entry with
  | .ok capacity => capacity
  | .error _ => 0

def HasCapacity (entry : PlannedEntry) : Prop :=
  resultSpillRecordCapacity host entry = .ok (capacityOf host entry)

theorem hasCapacity_of_ok {entry : PlannedEntry} {capacity : Nat}
    (h : resultSpillRecordCapacity host entry = .ok capacity) :
    HasCapacity host entry ∧ capacityOf host entry = capacity := by
  unfold HasCapacity capacityOf
  rw [h]
  exact ⟨rfl, rfl⟩

def capacities (planned : List PlannedEntry) : Nat := (planned.map (capacityOf host)).sum

theorem capacities_append (planned : List PlannedEntry) (entry : PlannedEntry) :
    capacities host (planned ++ [entry]) = capacities host planned + capacityOf host entry := by
  rw [capacities, List.map_append, List.sum_append, List.map_singleton, List.sum_singleton,
    capacities]

/-- What an entry is charged while nothing is spilled. -/
def requiredBytes (entry : PlannedEntry) : Nat :=
  satAdd 64 (plannedEntryResidentBytes host entry) (resultEntryBound host entry)

/-- What planning keeps for the results of the entries planned so far. -/
inductive Kept (maximumBytes : Nat) (planned : List PlannedEntry) (estimatedBytes : Nat) :
    PlanEntries → PlannedResultStorage → Prop where
  | InMemory {entries : List PlannedEntry} {potential : Nat}
      (estimated : estimatedBytes = satAdd 64 0 (planned.map (requiredBytes host)).sum)
      (within : estimatedBytes ≤ maximumBytes) (hpotential : potential = capacities host planned) :
      Kept maximumBytes planned estimatedBytes (.InMemory entries) (.InMemory maximumBytes potential)
  | Spilled {spilled resultSpill : RecordSpill}
      (promised : Promised host (capacities host planned) resultSpill) :
      Kept maximumBytes planned estimatedBytes (.Spilled spilled) (.Spilled resultSpill)

structure PlanningStorage.Covered (maximumBytes : Nat) (s : PlanningStorage) : Prop where
  kept : Kept host maximumBytes s.planned s.estimatedBytes s.entries s.resultStorage
  capacity : ∀ e ∈ s.planned, HasCapacity host e

theorem satAdd_sum (a b c : Nat) : satAdd 64 (satAdd 64 a b) c = satAdd 64 a (b + c) := by
  unfold satAdd
  omega

theorem mapError_eq_ok {α ε ε' : Type} {f : ε → ε'} {x : Except ε α} {a : α}
    (h : x.mapError f = .ok a) : x = .ok a := by
  cases x with
  | error e => cases h
  | ok a => exact congrArg Except.ok (Except.ok.inj h)

theorem reserveFor_inMemory {maximumBytes potential : Nat} {entry : PlannedEntry}
    {spill : Bool} {storage : PlannedResultStorage}
    (h : (PlannedResultStorage.InMemory maximumBytes potential).reserveFor host entry spill =
      .ok storage) : HasCapacity host entry ∧
      if spill then ∃ resultSpill, storage = .Spilled resultSpill ∧
        Promised host (potential + capacityOf host entry) resultSpill
      else storage = .InMemory maximumBytes (potential + capacityOf host entry) := by
  unfold PlannedResultStorage.reserveFor at h
  obtain ⟨capacity, hcapacity, h⟩ := bind_eq_ok h
  obtain ⟨hhas, rfl⟩ := hasCapacity_of_ok host hcapacity
  obtain ⟨next, hnext, h⟩ := bind_eq_ok h
  obtain ⟨hsum, hsmall⟩ := nextReservation_eq_ok hnext
  rw [← hsum]
  refine ⟨hhas, ?_⟩
  cases spill with
  | false => exact (Except.ok.inj h).symm
  | true =>
    obtain ⟨opened, hopened, hrest⟩ := bind_eq_ok h
    obtain ⟨key, -, rfl⟩ := map_eq_ok hopened
    obtain ⟨resultSpill, hreserve, hlast⟩ := bind_eq_ok hrest
    exact ⟨resultSpill, (Except.ok.inj hlast).symm,
      reserveTo_promised host (promised_new host key) hsmall hreserve⟩

theorem reserveFor_spilled {bytes : Nat} {resultSpill : RecordSpill} {entry : PlannedEntry}
    {spill : Bool} {storage : PlannedResultStorage} (hpromised : Promised host bytes resultSpill)
    (h : (PlannedResultStorage.Spilled resultSpill).reserveFor host entry spill = .ok storage) :
    HasCapacity host entry ∧ ∃ resultSpill', storage = .Spilled resultSpill' ∧
      Promised host (bytes + capacityOf host entry) resultSpill' := by
  unfold PlannedResultStorage.reserveFor at h
  obtain ⟨capacity, hcapacity, h⟩ := bind_eq_ok h
  obtain ⟨hhas, rfl⟩ := hasCapacity_of_ok host hcapacity
  obtain ⟨next, hnext, h⟩ := bind_eq_ok h
  obtain ⟨hsum, hsmall⟩ := nextReservation_eq_ok hnext
  obtain ⟨resultSpill', hreserve, h⟩ := bind_eq_ok h
  have hafter := reserveTo_promised host hpromised hsmall hreserve
  have hbytes := hpromised.reserved
  refine ⟨hhas, resultSpill', (Except.ok.inj h).symm, hafter.length, hafter.records,
    hafter.maximumPayload, ?_, hafter.small, hafter.filed⟩
  have hnext' := hafter.reserved
  rw [hsum] at hnext'
  exact Nat.le_trans (Nat.add_le_add_right hbytes _) hnext'

/-- What is spilled stays spilled, and what spills becomes so. -/
theorem PlanEntries.push_isSpilled {entries entries' : PlanEntries} {entry : PlannedEntry}
    {spill : Bool} (h : entries.push host entry spill = .ok entries') :
    entries'.isSpilled = (entries.isSpilled || spill) := by
  cases entries with
  | InMemory retained =>
    cases spill with
    | true =>
      obtain ⟨_, -, h⟩ := bind_eq_ok h
      obtain ⟨_, -, h⟩ := bind_eq_ok h
      obtain ⟨_, -, h⟩ := bind_eq_ok h
      rw [← Except.ok.inj h]
      rfl
    | false =>
      unfold PlanEntries.push at h
      dsimp only at h
      rw [if_neg Bool.false_ne_true] at h
      split at h <;> cases h
      rfl
  | Spilled spilled =>
    obtain ⟨_, -, rfl⟩ := map_eq_ok h
    rfl

theorem PlanEntries.inMemory_of {entries : PlanEntries} (h : entries.isSpilled = false) :
    ∃ resident, entries = .InMemory resident := by
  cases entries with
  | InMemory resident => exact ⟨resident, rfl⟩
  | Spilled _ => cases h

theorem PlanEntries.spilled_of {entries : PlanEntries} (h : entries.isSpilled = true) :
    ∃ spill, entries = .Spilled spill := by
  cases entries with
  | InMemory _ => cases h
  | Spilled spill => exact ⟨spill, rfl⟩

/-- Planning one more entry keeps a place for its result too. -/
theorem PlanningStorage.Covered.push {maximumBytes : Nat} {s s' : PlanningStorage}
    {entry : PlannedEntry} {allowSpill : Bool} {context : RelativePath}
    (hs : s.Covered host maximumBytes)
    (h : s.push host entry maximumBytes allowSpill context = .ok s') :
    s'.Covered host maximumBytes := by
  unfold PlanningStorage.push at h
  dsimp only at h
  obtain ⟨next, hnext⟩ : ∃ next, satAdd 64 s.estimatedBytes
      (satAdd 64 (plannedEntryResidentBytes host entry) (resultEntryBound host entry)) = next :=
    ⟨_, rfl⟩
  rw [hnext] at h
  split at h
  · cases h
  rename_i hlimit
  obtain ⟨storage, hstorage, h⟩ := bind_eq_ok h
  obtain ⟨entries, hentries, h⟩ := bind_eq_ok h
  cases h
  replace hstorage := mapError_eq_ok hstorage
  have hspilled := PlanEntries.push_isSpilled host (mapError_eq_ok hentries)
  have hall {hhas : HasCapacity host entry} : ∀ e ∈ s.planned ++ [entry], HasCapacity host e := by
    intro e he
    rcases List.mem_append.mp he with he | he
    · exact hs.capacity e he
    · exact List.mem_singleton.mp he ▸ hhas
  obtain ⟨oldEntries, oldStorage, estimated, planned⟩ := s
  obtain ⟨hkept, hcapacity⟩ := hs
  dsimp only at *
  cases hkept with
  | @InMemory resident potential hestimated hwithin hpotential =>
    obtain ⟨hhas, hplace⟩ := reserveFor_inMemory host hstorage
    refine ⟨?_, @hall hhas⟩
    have hrequired : next = satAdd 64 0 ((planned ++ [entry]).map (requiredBytes host)).sum := by
      rw [← hnext, hestimated, satAdd_sum, List.map_append, List.sum_append, List.map_singleton,
        List.sum_singleton, requiredBytes]
    rw [hpotential, ← capacities_append] at hplace
    cases hspill : (allowSpill && decide (maximumBytes < next)) with
    | false =>
      rw [hspill] at hplace hspilled
      obtain ⟨resident', rfl⟩ := PlanEntries.inMemory_of hspilled
      rw [if_neg Bool.false_ne_true] at hplace
      subst hplace
      refine .InMemory hrequired ?_ rfl
      show next ≤ maximumBytes
      by_contra hover
      rw [decide_eq_true (Nat.not_le.mp hover)] at hspill hlimit
      cases allowSpill with
      | true => cases hspill
      | false => exact hlimit rfl
    | true =>
      rw [hspill] at hplace hspilled
      obtain ⟨spilled', rfl⟩ := PlanEntries.spilled_of hspilled
      rw [if_pos rfl] at hplace
      obtain ⟨resultSpill, rfl, hpromised⟩ := hplace
      exact .Spilled hpromised
  | @Spilled spilled resultSpill hpromised =>
    obtain ⟨hhas, resultSpill', rfl, hafter⟩ := reserveFor_spilled host hpromised hstorage
    refine ⟨?_, @hall hhas⟩
    obtain ⟨spilled', rfl⟩ := PlanEntries.spilled_of hspilled
    rw [← capacities_append] at hafter
    exact .Spilled hafter

/-! ## Building the plan -/

namespace PlanWalk
variable {host} {world : PlanWorld} {request : PlanRequest} {α β : Type}

/-- What survives planning an entry and a pass through the plan. -/
structure Lasting (request : PlanRequest) (R : PlanningStorage → Prop) : Prop where
  push : ∀ {s s' : PlanningStorage} {entry : PlannedEntry}, R s →
    s.push host entry request.maximumBytes request.directoryTarget request.relative = .ok s' → R s'
  pass : ∀ {s : PlanningStorage} {entries : PlanEntries}
    {visit : Nat → PlannedEntry → Except PlanningError Unit}, R s →
    s.entries.tryForEach host request.relative visit = .ok entries → R { s with entries := entries }

variable {R : PlanningStorage → Prop}

/-- The storage is as required, whatever the outcome of the walk. -/
def Retains (R : PlanningStorage → Prop) (c : WalkM α) : Prop :=
  Triple (fun s => R s.storage) c (fun _ s => R s.storage) fun _ _ => True

theorem Retains.bind {c : WalkM α} {f : α → WalkM β} (hc : Retains R c)
    (hf : ∀ a, Retains R (f a)) : Retains R (c >>= f) := Triple.bind hc hf

theorem Retains.pure (a : α) : Retains R (Pure.pure a : WalkM α) := fun _ hs => hs

theorem retains_systemCall : Retains R systemCall := fun _ hs => hs

theorem retains_ofExcept (x : Except PlanningError α) : Retains R (ofExcept x) := by
  intro s hs
  unfold ofExcept
  cases x with
  | ok a => exact hs
  | error e => exact trivial

theorem retains_refuse (e : PlanningError) : Retains R (refuse e : WalkM α) := fun _ _ => trivial

theorem retains_addApparent (bytes : Nat) : Retains R (addApparent bytes) := fun _ hs => hs

theorem retains_pushEntry (hR : @Lasting host request R) (entry : PlannedEntry) :
    Retains R (pushEntry host request entry) := by
  intro s hs
  unfold pushEntry
  cases hpush : s.storage.push host entry request.maximumBytes request.directoryTarget
      request.relative with
  | ok storage => exact hR.push hs hpush
  | error e => exact trivial

theorem retains_pushPending (entry : PlannedEntry) : Retains R (pushPending host request entry) := by
  intro s hs
  unfold pushPending
  cases s.pending.push host entry with
  | ok pending => exact hs
  | error e => exact trivial

theorem retains_popPending : Retains R (popPending host request) := by
  intro s hs
  unfold popPending
  cases s.pending.pop host request.relative with
  | ok r => exact hs
  | error e => exact trivial

theorem retains_visitPlan (hR : @Lasting host request R)
    (visit : Nat → PlannedEntry → Except PlanningError Unit) :
    Retains R (visitPlan host request visit) := by
  intro s hs
  unfold visitPlan
  cases hpass : s.storage.entries.tryForEach host request.relative visit with
  | ok entries => exact hR.pass hs hpass
  | error e => exact trivial

theorem retains_ensureNotCancelled : Retains R (ensureNotCancelled world) :=
  Retains.bind retains_systemCall fun _ => retains_ofExcept _

theorem retains_openRoot : Retains R (openRoot world) :=
  Retains.bind retains_systemCall fun _ => retains_ofExcept _

theorem retains_openParent (path : RelativePath) : Retains R (openParent host world path) :=
  Retains.bind retains_systemCall fun _ => retains_ofExcept _

theorem retains_mountRoot (path : RelativePath) : Retains R (mountRoot world path) :=
  Retains.bind retains_systemCall fun _ => .pure _

theorem retains_inspectChild (path : RelativePath) : Retains R (inspectChild host world path) :=
  Retains.bind retains_systemCall fun _ => .pure _

theorem retains_inspectEntry (path : RelativePath) : Retains R (inspectEntry host world path) :=
  Retains.bind (retains_inspectChild path) fun _ => .pure _

theorem retains_planChild (hR : @Lasting host request R) (folder : RelativePath)
    (child : Except IoError OsString) :
    Retains R (planChild host world request folder child) := by
  refine Retains.bind retains_ensureNotCancelled fun _ => ?_
  refine Retains.bind (retains_ofExcept _) fun name => ?_
  refine Retains.bind (retains_ofExcept _) fun childRelative => ?_
  refine Retains.bind (retains_inspectChild _) fun answer => ?_
  refine Retains.bind (retains_ofExcept _) fun snapshot => ?_
  refine Retains.bind (retains_addApparent snapshot.apparentBytes) fun _ => ?_
  refine Retains.bind (retains_pushEntry hR _) fun _ => ?_
  split
  · exact retains_pushPending _
  · exact .pure ()

theorem retains_planChildren (hR : @Lasting host request R) (folder : RelativePath)
    (children : List (Except IoError OsString)) :
    Retains R (planChildren host world request folder children) := by
  induction children with
  | nil => exact .pure ()
  | cons child rest ih => exact Retains.bind (retains_planChild hR folder child) fun _ => ih

theorem retains_refuseMounted (path : RelativePath) :
    Retains R (refuseMounted host world request path) := by
  unfold refuseMounted
  split
  · exact .pure ()
  · refine Retains.bind (retains_mountRoot path) fun _ => ?_
    exact Retains.bind (retains_ofExcept _) fun _ => retains_ofExcept _

theorem retains_planDirectory (hR : @Lasting host request R) (directory : PlannedEntry) :
    Retains R (planDirectory host world request directory) := by
  refine Retains.bind retains_ensureNotCancelled fun _ => ?_
  refine Retains.bind (retains_openParent _) fun _ => ?_
  refine Retains.bind (retains_refuseMounted _) fun _ => ?_
  refine Retains.bind (retains_inspectEntry _) fun answer => ?_
  refine Retains.bind (retains_ofExcept _) fun actual => ?_
  refine Retains.bind (retains_ofExcept _) fun _ => ?_
  refine Retains.bind (retains_ofExcept _) fun _ => ?_
  refine Retains.bind retains_systemCall fun _ => ?_
  exact Retains.bind (retains_ofExcept _) fun children => retains_planChildren hR _ children

theorem retains_walk (hR : @Lasting host request R) (fuel : Nat) :
    Retains R (walk host world request fuel) := by
  induction fuel with
  | zero => exact .pure false
  | succ fuel ih =>
    refine Retains.bind retains_popPending fun next => ?_
    cases next with
    | none => exact .pure true
    | some directory => exact Retains.bind (retains_planDirectory hR directory) fun _ => ih

theorem retains_checkMountedTarget (target : PlanTarget) (path : RelativePath) :
    Retains R (checkMountedTarget host world target path) := by
  refine Retains.bind (retains_mountRoot path) fun mounted => ?_
  cases mounted with
  | error e =>
    dsimp only
    split
    · exact .pure ()
    · exact retains_refuse _
  | ok mounted =>
    cases mounted with
    | false => exact .pure ()
    | true =>
      dsimp only
      split
      · exact retains_refuse _
      · refine Retains.bind (retains_inspectEntry path) fun answer => ?_
        cases answer with
        | error e => exact retains_refuse _
        | ok actual => exact retains_refuse _

theorem retains_inspectTarget (target : PlanTarget) :
    Retains R (inspectTarget host world target request) := by
  refine Retains.bind retains_openRoot fun _ => ?_
  refine Retains.bind (retains_openParent _) fun _ => ?_
  refine Retains.bind ?_ fun _ => ?_
  · unfold refuseMountedTarget
    split
    · exact retains_checkMountedTarget target _
    · exact .pure ()
  · refine Retains.bind (retains_inspectEntry _) fun answer => ?_
    refine Retains.bind (retains_ofExcept _) fun snapshot => ?_
    exact Retains.bind (retains_ofExcept _) fun _ => .pure _

theorem retains_planTree (hR : @Lasting host request R) (snapshot : PlannedSnapshot) (fuel : Nat) :
    Retains R (planTree host world request snapshot fuel) := by
  refine Retains.bind (retains_addApparent snapshot.apparentBytes) fun _ => ?_
  refine Retains.bind (retains_pushEntry hR _) fun _ => ?_
  split
  · exact Retains.bind (retains_pushPending _) fun _ => retains_walk hR fuel
  · exact .pure true

theorem retains_get_bind {f : WalkState → WalkM α} (hf : ∀ s, Retains R (f s)) :
    Retains R (get >>= f) := fun s hs => hf s s hs

theorem retains_compareReview (hR : @Lasting host request R) (target : PlanTarget) :
    Retains R (compareReview host target request) := by
  unfold compareReview
  dsimp only
  split
  · exact .pure ()
  · refine retains_get_bind fun s => ?_
    exact Retains.bind (retains_ofExcept _) fun _ => retains_visitPlan hR _

theorem retains_revalidatePlan (hR : @Lasting host request R) :
    Retains R (revalidatePlan host world request) :=
  Retains.bind retains_openRoot fun _ => retains_get_bind fun _ => retains_visitPlan hR _

/-- A plan has what is true at the start and survives every step. -/
theorem planTarget_retains (hR : @Lasting host request R) (target : PlanTarget) (reduced : Bool)
    (fuel : Nat) : Triple (fun s => R s.storage)
      (planTarget host world target request reduced fuel)
      (fun plan _ => ∀ p, plan = some p → R ⟨p.entries, p.resultStorage, p.estimatedBytes, p.planned⟩)
      fun _ _ => True := by
  refine Triple.bind (retains_inspectTarget target) fun snapshot => ?_
  refine Triple.bind (retains_planTree hR snapshot fuel) fun complete => ?_
  cases complete with
  | false =>
    intro s _ p hp
    cases hp
  | true =>
    refine Triple.bind (retains_compareReview hR target) fun _ => ?_
    refine Triple.bind (retains_revalidatePlan hR) fun _ => ?_
    intro s hs p hp
    cases hp
    exact hs

end PlanWalk

/-! ## Plans and their results -/

variable {host}

theorem PlanEntries.tryForEach_kept {entries entries' : PlanEntries} {target : RelativePath}
    {visit : Nat → PlannedEntry → Except PlanningError Unit} {maximumBytes estimatedBytes : Nat}
    {planned : List PlannedEntry} {storage : PlannedResultStorage}
    (hkept : Kept host maximumBytes planned estimatedBytes entries storage)
    (h : entries.tryForEach host target visit = .ok entries') :
    Kept host maximumBytes planned estimatedBytes entries' storage := by
  cases hkept with
  | InMemory estimated within hpotential =>
    obtain ⟨_, -, rfl⟩ := map_eq_ok h
    exact .InMemory estimated within hpotential
  | Spilled promised =>
    unfold PlanEntries.tryForEach at h
    dsimp only at h
    split at h
    · cases h
      exact .Spilled promised
    · cases h
    · obtain ⟨_, -, rfl⟩ := map_eq_ok h
      exact .Spilled promised

theorem lasting_covered (request : PlanRequest) :
    @PlanWalk.Lasting host request (PlanningStorage.Covered host request.maximumBytes) where
  push := fun hs h => hs.push host h
  pass := fun hs h => ⟨PlanEntries.tryForEach_kept hs.kept h, hs.capacity⟩

theorem buildPlan_runs {world : PlanWorld} {target : PlanTarget} {reduced : Bool}
    {maximumBytes fuel : Nat} {plan : Option BuiltPlan}
    (h : buildPlan host world target reduced maximumBytes fuel = .ok plan) :
    ∃ s, PlanWalk.planTarget host world target ⟨⟨target.pathToFile⟩, maximumBytes,
      decide (target.expectedSnapshot.kind = .Directory)⟩ reduced fuel
        (PlanWalk.start maximumBytes) = .ok plan s := by
  unfold buildPlan at h
  dsimp only at h
  split at h
  · cases h
  split at h
  · cases h
  split at h <;> cases h
  exact ⟨_, ‹_›⟩

theorem buildPlan_covered {world : PlanWorld} {target : PlanTarget} {reduced : Bool}
    {maximumBytes fuel : Nat} {plan : BuiltPlan}
    (h : buildPlan host world target reduced maximumBytes fuel = .ok (some plan)) :
    PlanningStorage.Covered host maximumBytes
      ⟨plan.entries, plan.resultStorage, plan.estimatedBytes, plan.planned⟩ := by
  obtain ⟨s, hrun⟩ := buildPlan_runs h
  refine (PlanWalk.planTarget_retains (lasting_covered _) target reduced fuel).ok ?_ hrun plan rfl
  exact ⟨.InMemory (show 0 = satAdd 64 0 0 by decide) (Nat.zero_le _) rfl, fun _ h => by cases h⟩

/-- The results are those of planned entries, each at most once; only link counts may differ. -/
def ResultsOf (planned : List PlannedEntry) (results : List DeletionEntryResult) : Prop :=
  (results.map fun r => withLinkCount r.entry none).Subperm
    (planned.map fun e => withLinkCount e none)

theorem PlanningStorage.Covered.room {maximumBytes : Nat} {s : PlanningStorage}
    (hs : s.Covered host maximumBytes) {results : List DeletionEntryResult}
    (hresults : ResultsOf s.planned results) (hlinks : ∀ r ∈ results, r.entry.CountsLinks)
    (target : RelativePath) :
    Room host results (s.resultStorage.intoCollector target).results ∧
      KeepsResults host [] (s.resultStorage.intoCollector target).results := by
  obtain ⟨entries, storage, estimated, planned⟩ := s
  obtain ⟨hkept, hcapacity⟩ := hs
  cases hkept with
  | @InMemory resident potential hestimated hwithin hpotential =>
    have hsum : (results.map (residentBytes host)).sum ≤ (planned.map (requiredBytes host)).sum :=
      sum_le_of_subperm hresults fun r _ e _ hsame => resultEntryResidentBytes_le host hsame
    refine ⟨.InMemory (Nat.le_trans (satAdd_mono (Nat.le_refl 0) hsum) ?_), .InMemory 0 _⟩
    exact hestimated ▸ hwithin
  | @Spilled spilled resultSpill hpromised =>
    have hsum : (results.map (resultRecordBytes host)).sum ≤ capacities host planned :=
      sum_le_of_subperm hresults fun r hr e he hsame =>
        (resultSpillRecordCapacity_eq_ok host (hcapacity e he) hsame (hlinks r hr)).1
    have hreserved : capacities host planned ≤ resultSpill.reserved := hpromised.reserved
    refine ⟨.Spilled ?_ hpromised.small ?_ (fun r hr => ?_), .Spilled hpromised.filed⟩
    · rw [hpromised.length]
      omega
    · rw [hpromised.records]
      exact Nat.zero_le _
    · obtain ⟨e, he, hsame⟩ := List.mem_map.mp (hresults.subset (List.mem_map.mpr ⟨r, hr, rfl⟩))
      rw [hpromised.maximumPayload]
      exact (resultSpillRecordCapacity_eq_ok host (hcapacity e he) hsame.symm (hlinks r hr)).2

/-- Whatever becomes of the entries of a plan, their results are all stored and the collector then
holds them in the order of their push, unless the allocator refuses, a call on the result file fails
or somebody else writes it. -/
theorem reserved_results_suffice (host : PlanHost) (world : PlanWorld) (target : PlanTarget)
    (reduced : Bool) (maximumBytes fuel : Nat) {plan : BuiltPlan}
    (hplan : buildPlan host world target reduced maximumBytes fuel = .ok (some plan))
    {results : List DeletionEntryResult} (hresults : ResultsOf plan.planned results)
    (hlinks : ∀ r ∈ results, r.entry.CountsLinks) :
    (∃ c, (plan.resultStorage.intoCollector plan.rootRelativePath).pushAll host results =
      (.ok (), c) ∧ KeepsResults host results c.results) ∨
    ∃ e c, (plan.resultStorage.intoCollector plan.rootRelativePath).pushAll host results =
      (.error e, c) ∧ FailedOutside host e c.results := by
  obtain ⟨hroom, hheld⟩ := (buildPlan_covered hplan).room hresults hlinks plan.rootRelativePath
  exact StoredCollector.pushAll_room host hroom hheld

/-! ### A folder whose plan is spilled -/

def calmSpill : SpillSource where
  host := ⟨fun _ => Vector.replicate 32 0, fun _ => ⟨id, none, ⟨2 ^ 32, "", "", 0, false⟩, false⟩⟩
  key := .ok ⟨Vector.replicate 32 0⟩

def calmHost : PlanHost where
  safeDisplayText := id
  safeDisplayPathText := fun _ => ""
  resultEntryBytes := 1
  plannedEntryBytes := 1
  safeDisplayOsStr := fun _ => ("", false)
  base64 := id
  fileIdText := fun _ => [0x30]
  decodeSpilledEntry := fun _ => .error ⟨.InvalidData, "no entry of the plan"⟩
  reserveEntries := fun n => if n < 2 ^ 63 then .ok () else .error "capacity overflow"
  reserveResults := fun _ => .ok ()
  reserveEntries_small := fun n h => by
    split at h
    · assumption
    · cases h
  entriesSpill := calmSpill
  pendingSpill := calmSpill
  resultsSpill := calmSpill

/-- A host that reads the records of these entries. -/
def readingHost (known : List PlannedEntry) : PlanHost :=
  { calmHost with
    decodeSpilledEntry := fun payload =>
      match known.find? fun e => encodeSpilledEntry calmHost e == payload with
      | some e => .ok e
      | none => .error ⟨.InvalidData, "no entry of the plan"⟩ }

/-- A file system that holds these objects and does not change. -/
def stillWorld (objects : List PlannedEntry) : PlanWorld where
  openRoot := fun _ => none
  openParent := fun _ _ => none
  mountRoot := fun _ _ => .ok false
  inspect := fun _ path =>
    match objects.find? fun e => decide (e.relativePath = path) with
    | some e => .ok e.snapshot
    | none => .error (.Io ⟨.NotFound, "not found"⟩)
  readDir := fun _ path => .ok (objects.filterMap fun e =>
    if e.relativePath.isDirectChildOf path then
      e.relativePath.components.getLast?.map fun c => .ok c.bytes
    else none)
  cancelled := fun _ => false

/-- The component of one letter. -/
def letter (b : UInt8) (h : ValidComponent [b] := by decide) : Component := ⟨[b], h⟩

def smallTree : List PlannedEntry :=
  [⟨⟨[letter 97 valid_a]⟩, ⟨⟨.Inode 1 1, some 2, false⟩, .Directory, 0, none, none⟩⟩,
    ⟨⟨[letter 97 valid_a, letter 98 valid_b]⟩, ⟨⟨.Inode 1 2, some 1, false⟩, .File, 7, some 512, none⟩⟩]

def smallTarget : PlanTarget where
  pathInFilesystem := []
  pathToFile := [letter 97 valid_a]
  synthetic := false
  expectedSnapshot := ⟨some ⟨.Inode 1 1, some 2, false⟩, .Directory, 0, none, none⟩
  reviewedEntries := []

/-- Every entry is said to have failed, with no link count. -/
def lostResults (planned : List PlannedEntry) : List DeletionEntryResult :=
  planned.map fun e => ⟨withLinkCount e none, .Failed "refused"⟩

theorem lostResults_of (planned : List PlannedEntry) :
    ResultsOf planned (lostResults planned) ∧ ∀ r ∈ lostResults planned, r.entry.CountsLinks := by
  constructor
  · rw [ResultsOf, lostResults, List.map_map]
    exact List.Subperm.refl _
  · intro r hr count hcount
    obtain ⟨e, -, rfl⟩ := List.mem_map.mp hr
    cases hcount

/-- The outcome is a spilled plan. -/
def plansSpilled : Except PlanningError (Option BuiltPlan) → Bool
  | .ok (some plan) => plan.entries.isSpilled
  | _ => false

theorem eq_ok_of_plansSpilled {outcome : Except PlanningError (Option BuiltPlan)}
    (h : plansSpilled outcome = true) :
    ∃ plan, outcome = .ok (some plan) ∧ plan.entries.isSpilled = true := by
  cases outcome with
  | error e => cases h
  | ok plan =>
    cases plan with
    | none => cases h
    | some plan => exact ⟨plan, rfl, h⟩

theorem reserved_results_suffice_spilled :
    ∃ plan, buildPlan (readingHost smallTree) (stillWorld smallTree) smallTarget false 0 9 =
        .ok (some plan) ∧ plan.entries.isSpilled = true ∧
      ((∃ c, (plan.resultStorage.intoCollector plan.rootRelativePath).pushAll
          (readingHost smallTree) (lostResults plan.planned) = (.ok (), c) ∧
            KeepsResults (readingHost smallTree) (lostResults plan.planned) c.results) ∨
        ∃ e c, (plan.resultStorage.intoCollector plan.rootRelativePath).pushAll
          (readingHost smallTree) (lostResults plan.planned) = (.error e, c) ∧
            FailedOutside (readingHost smallTree) e c.results) := by
  obtain ⟨plan, hplan, hspilled⟩ := @eq_ok_of_plansSpilled (buildPlan
    (readingHost smallTree) (stillWorld smallTree) smallTarget false 0 9) (by decide +kernel)
  obtain ⟨hresults, hlinks⟩ := lostResults_of plan.planned
  exact ⟨plan, hplan, hspilled, reserved_results_suffice _ _ _ _ _ _ hplan hresults hlinks⟩

end Excise
