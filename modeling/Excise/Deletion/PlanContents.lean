import Excise.Deletion.ReservedResults
import Excise.Deletion.SpillFrames

/-!
# What the storage of a plan holds

While nobody else writes its spill files, the entries of a plan are read back in the order they
were planned in, and the directories that wait are neither lost nor repeated when some of them are
moved to disk.
-/

namespace Excise
set_option autoImplicit false

variable {host : PlanHost}

theorem runSpill_eq_ok {α : Type} {c : SpillM α} {spill spill' : RecordSpill} {a : α}
    (h : runSpill c spill = .ok (a, spill')) : c spill = .ok a spill' := by
  unfold runSpill at h
  split at h
  · rename_i hc
    cases h
    exact hc
  · cases h

/-- The records of a spill file are these entries. -/
def FiledEntries (host : PlanHost) (source : SpillSource) (entries : List PlannedEntry)
    (spill : RecordSpill) : Prop :=
  ∃ key, RecordSpill.Filed source.host key maxPlanSpillRecordBytes
    (entries.map (encodeSpilledEntry host)) [] spill

variable {source : SpillSource} {listed : List PlannedEntry} {spill spill' : RecordSpill}

theorem filedEntries_open (h : source.open maxPlanSpillRecordBytes = .ok spill) :
    FiledEntries host source [] spill := by
  obtain ⟨key, -, rfl⟩ := map_eq_ok h
  exact ⟨key, rfl, rfl, rfl, rfl, rfl, (fun p hp => nomatch hp),
    Nat.two_pow_pos 64⟩

theorem FiledEntries.push {entry : PlannedEntry} (hquiet : source.host.Quiet)
    (h : FiledEntries host source listed spill)
    (hpush : Excise.pushEntry host source spill entry = .ok spill') :
    FiledEntries host source (listed ++ [entry]) spill' := by
  obtain ⟨key, hfiled⟩ := h
  obtain ⟨⟨_, after⟩, hrun, rfl⟩ := map_eq_ok hpush
  have happend := (RecordSpill.append_live hquiet (encodeSpilledEntry host entry) true).ok hfiled
    (runSpill_eq_ok hrun)
  refine ⟨key, ?_⟩
  rw [List.map_append]
  exact happend

theorem FiledEntries.pushAll (hquiet : source.host.Quiet) {entries : List PlannedEntry} :
    ∀ {listed : List PlannedEntry} {spill : RecordSpill}, FiledEntries host source listed spill →
      entries.foldlM (Excise.pushEntry host source) spill = .ok spill' →
      FiledEntries host source (listed ++ entries) spill' := by
  induction entries with
  | nil =>
    intro listed spill h hfold
    cases hfold
    rw [List.append_nil]
    exact h
  | cons entry rest ih =>
    intro listed spill h hfold
    obtain ⟨next, hpush, hrest⟩ := foldlM_cons_ok hfold
    have hafter := ih (h.push hquiet hpush) hrest
    rwa [List.append_assoc, List.singleton_append] at hafter

theorem FiledEntries.pop {payload : Option (List UInt8)} (hquiet : source.host.Quiet)
    (h : FiledEntries host source listed spill)
    (hpop : runSpill (RecordSpill.pop source.host) spill = .ok (payload, spill')) :
    payload = listed.getLast?.map (encodeSpilledEntry host) ∧
      FiledEntries host source listed.dropLast spill' := by
  obtain ⟨key, hfiled⟩ := h
  obtain ⟨hlast, hafter⟩ := (RecordSpill.pop_live hquiet).ok hfiled (runSpill_eq_ok hpop)
  refine ⟨by rw [hlast, List.getLast?_map], key, ?_⟩
  rw [List.map_dropLast]
  exact hafter

/-! ## The entries of a plan -/

namespace PlanEntries

inductive Holds (host : PlanHost) (listed : List PlannedEntry) : PlanEntries → Prop where
  | InMemory : Holds host listed (.InMemory listed)
  | Spilled {spill : RecordSpill} (filed : FiledEntries host host.entriesSpill listed spill) :
      Holds host listed (.Spilled spill)

variable {entries entries' : PlanEntries} {target : RelativePath}
  {visit : Nat → PlannedEntry → Except PlanningError Unit}

theorem Holds.len (h : Holds host listed entries) : entries.len = listed.length := by
  cases h with
  | InMemory => rfl
  | Spilled filed =>
    obtain ⟨key, hfiled⟩ := filed
    show RecordSpill.records _ = _
    rw [hfiled.records, List.length_map]

theorem Holds.push {entry : PlannedEntry} {moves : Bool} (hquiet : host.entriesSpill.host.Quiet)
    (h : Holds host listed entries) (hpush : entries.push host entry moves = .ok entries') :
    Holds host (listed ++ [entry]) entries' := by
  cases h with
  | InMemory =>
    unfold PlanEntries.push at hpush
    dsimp only at hpush
    split at hpush
    · obtain ⟨opened, hopen, hpush⟩ := bind_eq_ok hpush
      obtain ⟨moved, hmove, hpush⟩ := bind_eq_ok hpush
      obtain ⟨pushed, hlast, hpush⟩ := bind_eq_ok hpush
      cases hpush
      exact .Spilled (((filedEntries_open hopen).pushAll hquiet hmove).push hquiet hlast)
    · split at hpush
      · cases hpush
      · cases hpush
        exact .InMemory
  | Spilled filed =>
    obtain ⟨pushed, hlast, rfl⟩ := map_eq_ok hpush
    exact .Spilled (filed.push hquiet hlast)

/-- A pass leaves the entries as they are. -/
theorem Holds.pass (hquiet : host.entriesSpill.host.Quiet) (h : Holds host listed entries)
    (hpass : entries.tryForEach host target visit = .ok entries') :
    Holds host listed entries' := by
  cases h with
  | InMemory =>
    obtain ⟨_, -, rfl⟩ := map_eq_ok hpass
    exact .InMemory
  | @Spilled spill filed =>
    obtain ⟨key, hfiled⟩ := filed
    have hafter := (RecordSpill.visit_live hquiet
      (fun handed => (verdict host target visit handed).isOk) hfiled).1
    unfold PlanEntries.tryForEach at hpass
    dsimp only at hpass
    split at hpass
    · rename_i hvisit
      rw [hvisit] at hafter
      cases hpass
      exact .Spilled ⟨key, hafter⟩
    · cases hpass
    · rename_i hvisit
      rw [hvisit] at hafter
      obtain ⟨_, -, rfl⟩ := map_eq_ok hpass
      exact .Spilled ⟨key, hafter⟩

/-! ### Reading them back -/

theorem verdict_append (hcoding : ∀ e ∈ listed, host.decodeSpilledEntry (encodeSpilledEntry host e) =
      .ok e) {entry : PlannedEntry} (hentry : entry ∈ listed) (before : List PlannedEntry) :
    verdict host target visit ((before ++ [entry]).map (encodeSpilledEntry host)) =
      visitEntry target visit before.length entry := by
  unfold verdict
  rw [List.map_append, List.map_singleton, List.getLast?_concat, List.length_append,
    List.length_map, List.length_singleton, Nat.add_sub_cancel]
  show visitPayload host target visit before.length _ = _
  unfold visitPayload decodeFor
  rw [hcoding entry hentry]
  rfl

/-- A visitor of records refuses what it would refuse in a list. -/
theorem handOver_visit (hcoding : ∀ e ∈ listed,
      host.decodeSpilledEntry (encodeSpilledEntry host e) = .ok e)
    {before after : List PlannedEntry} (hsplit : listed = before ++ after) :
    (visitResident target visit before.length after = .ok () ∧ ∃ handed,
        handOver (fun handed => (verdict host target visit handed).isOk)
          (before.map (encodeSpilledEntry host)) (after.map (encodeSpilledEntry host)) =
        (handed, .ok ())) ∨
      ∃ handed e, handOver (fun handed => (verdict host target visit handed).isOk)
          (before.map (encodeSpilledEntry host)) (after.map (encodeSpilledEntry host)) =
        (handed, .error .Visitor) ∧ verdict host target visit handed = .error e ∧
        visitResident target visit before.length after = .error e := by
  induction after generalizing before with
  | nil => exact Or.inl ⟨rfl, _, rfl⟩
  | cons entry rest ih =>
    have hentry : entry ∈ listed := hsplit ▸ List.mem_append_right _ List.mem_cons_self
    have hverdict : verdict host target visit ((before ++ [entry]).map (encodeSpilledEntry host)) =
        visitEntry target visit before.length entry := verdict_append hcoding hentry before
    have hrest := ih (show listed = before ++ [entry] ++ rest by
      rw [hsplit, List.append_assoc, List.singleton_append])
    rw [List.length_append, List.length_singleton] at hrest
    rw [List.map_append, List.map_singleton] at hrest hverdict
    rw [List.map_cons, handOver, visitResident, hverdict]
    cases hvisit : visitEntry target visit before.length entry with
    | ok _ => exact hrest
    | error e => exact Or.inr ⟨_, e, rfl, hverdict.trans hvisit, rfl⟩

/-- A pass shows the entries as a list would, or a call on the spill file fails. -/
theorem Holds.shows (hquiet : host.entriesSpill.host.Quiet) (h : Holds host listed entries)
    (hcoding : ∀ e ∈ listed, host.decodeSpilledEntry (encodeSpilledEntry host e) = .ok e)
    (target : RelativePath) (visit : Nat → PlannedEntry → Except PlanningError Unit) :
    (∃ entries', entries.tryForEach host target visit =
        (visitResident target visit 0 listed).map fun _ => entries') ∨
      host.entriesSpill.host.Failing ∧
        ∃ e, entries.tryForEach host target visit = .error (planStorageIo host target e) := by
  cases h with
  | InMemory => exact Or.inl ⟨_, rfl⟩
  | @Spilled spill filed =>
    obtain ⟨key, hfiled⟩ := filed
    obtain ⟨-, hpass⟩ := RecordSpill.visit_live hquiet
      (fun handed => (verdict host target visit handed).isOk) hfiled
    have hgiven := @handOver_visit host listed target visit hcoding [] listed rfl
    rw [List.map_nil, List.length_nil] at hgiven
    unfold PlanEntries.tryForEach
    dsimp only
    generalize RecordSpill.visit _ _ spill = out at *
    obtain ⟨⟨handed, outcome⟩, after⟩ := out
    rcases hpass with hpass | ⟨hfailing, -, e, he⟩
    · rcases hgiven with ⟨hvisit, given, hhand⟩ | ⟨given, e, hhand, hverdict, hvisit⟩
      · cases hpass.trans hhand
        exact Or.inl ⟨.Spilled after, by rw [hvisit]; rfl⟩
      · cases hpass.trans hhand
        refine Or.inl ⟨.Spilled after, ?_⟩
        dsimp only
        rw [hvisit, hverdict]
    · dsimp only at he
      subst he
      exact Or.inr ⟨hfailing, e, rfl⟩

end PlanEntries

/-! ## The directories that wait -/

theorem perm_dropLast {l : List PlannedEntry} {entry : PlannedEntry}
    (h : l.getLast? = some entry) : l.Perm (entry :: l.dropLast) := by
  rw [List.getLast?_eq_some_iff] at h
  obtain ⟨before, rfl⟩ := h
  rw [List.dropLast_concat]
  exact List.perm_append_comm

/-- The directories in memory, and those that were moved to disk. -/
structure Waiting where
  resident : List PlannedEntry
  moved : List PlannedEntry

namespace Waiting

def all (w : Waiting) : List PlannedEntry := w.resident ++ w.moved

def push (w : Waiting) (entry : PlannedEntry) : Waiting :=
  if w.resident.length < maxResidentDirectoryTasks then
    { w with resident := w.resident ++ [entry] }
  else { w with moved := w.moved ++ [entry] }

/-- The last one in memory, or else the last one on disk. -/
def pop (w : Waiting) : Option PlannedEntry × Waiting :=
  match w.resident.getLast? with
  | some entry => (some entry, { w with resident := w.resident.dropLast })
  | none => (w.moved.getLast?, { w with moved := w.moved.dropLast })

theorem push_all (w : Waiting) (entry : PlannedEntry) :
    (w.push entry).all.Perm (w.all ++ [entry]) := by
  unfold push all
  split
  · rw [List.append_assoc, List.append_assoc]
    exact List.perm_append_comm.append_left w.resident
  · rw [List.append_assoc]

theorem pop_resident {w : Waiting} {entry : PlannedEntry} (h : w.resident.getLast? = some entry) :
    w.pop = (some entry, { w with resident := w.resident.dropLast }) := by
  unfold pop
  rw [h]

theorem pop_moved {w : Waiting} (h : w.resident.getLast? = none) :
    w.pop = (w.moved.getLast?, { w with moved := w.moved.dropLast }) := by
  unfold pop
  rw [h]

theorem pop_all (w : Waiting) : w.all.Perm (w.pop.1.toList ++ w.pop.2.all) := by
  cases hresident : w.resident.getLast? with
  | some entry =>
    rw [pop_resident hresident]
    exact (perm_dropLast hresident).append_right w.moved
  | none =>
    rw [pop_moved hresident]
    unfold all
    dsimp only
    rw [List.getLast?_eq_none_iff.mp hresident, List.nil_append, List.nil_append]
    cases hmoved : w.moved.getLast? with
    | some entry => exact perm_dropLast hmoved
    | none =>
      rw [List.getLast?_eq_none_iff.mp hmoved]
      exact List.Perm.refl _

theorem all_of_pop_eq_none {w : Waiting} (h : w.pop.1 = none) : w.all = [] := by
  cases hresident : w.resident.getLast? with
  | some entry =>
    rw [pop_resident hresident] at h
    cases h
  | none =>
    rw [pop_moved hresident] at h
    unfold all
    rw [List.getLast?_eq_none_iff.mp hresident, List.getLast?_eq_none_iff.mp h]
    rfl

end Waiting

namespace PendingDirectories

/-- The stack of the directories and its file are those of `w`. -/
inductive Refines (host : PlanHost) : Waiting → PendingDirectories → Prop where
  | Resident {resident : List PlannedEntry} : Refines host ⟨resident, []⟩ ⟨resident, none⟩
  | Spilled {resident moved : List PlannedEntry} {spill : RecordSpill}
      (filed : FiledEntries host host.pendingSpill moved spill) :
      Refines host ⟨resident, moved⟩ ⟨resident, some spill⟩

variable {pending pending' : PendingDirectories} {waiting : List PlannedEntry} {w : Waiting}

theorem Refines.push {entry : PlannedEntry} (hquiet : host.pendingSpill.host.Quiet)
    (h : Refines host w pending) (hpush : pending.push host entry = .ok pending') :
    Refines host (w.push entry) pending' := by
  unfold PendingDirectories.push at hpush
  unfold Waiting.push
  cases h with
  | @Resident resident =>
    dsimp only at hpush ⊢
    split at hpush
    · cases hpush
      rw [if_pos ‹_›]
      exact .Resident
    · obtain ⟨opened, hopen, hpush⟩ := bind_eq_ok hpush
      obtain ⟨pushed, hlast, hpush⟩ := bind_eq_ok hpush
      cases hpush
      rw [if_neg ‹_›]
      exact .Spilled ((filedEntries_open hopen).push hquiet hlast)
  | @Spilled resident moved spill filed =>
    dsimp only at hpush ⊢
    split at hpush
    · cases hpush
      rw [if_pos ‹_›]
      exact .Spilled filed
    · obtain ⟨_, hopen, hpush⟩ := bind_eq_ok hpush
      cases hopen
      obtain ⟨pushed, hlast, hpush⟩ := bind_eq_ok hpush
      cases hpush
      rw [if_neg ‹_›]
      exact .Spilled (filed.push hquiet hlast)

theorem Refines.take {target : RelativePath} {entry : Option PlannedEntry}
    (hquiet : host.pendingSpill.host.Quiet) (h : Refines host w pending)
    (hcoding : ∀ e ∈ w.all, host.decodeSpilledEntry (encodeSpilledEntry host e) = .ok e)
    (htake : pending.take host target = .ok (entry, pending')) :
    entry = w.pop.1 ∧ Refines host w.pop.2 pending' := by
  unfold PendingDirectories.take at htake
  cases h with
  | @Resident resident =>
    cases hlast : resident.getLast? with
    | some directory =>
      rw [Waiting.pop_resident hlast]
      rw [hlast] at htake
      cases htake
      exact ⟨rfl, .Resident⟩
    | none =>
      rw [Waiting.pop_moved hlast]
      rw [hlast] at htake
      cases htake
      exact ⟨rfl, .Resident⟩
  | @Spilled resident moved spill filed =>
    cases hlast : resident.getLast? with
    | some directory =>
      rw [Waiting.pop_resident hlast]
      rw [hlast] at htake
      cases htake
      exact ⟨rfl, .Spilled filed⟩
    | none =>
      rw [Waiting.pop_moved hlast]
      rw [hlast] at htake
      dsimp only at htake
      split at htake
      · cases htake
      · rename_i after hpop
        cases htake
        obtain ⟨hpayload, hafter⟩ := filed.pop hquiet hpop
        rw [eq_comm, Option.map_eq_none_iff] at hpayload
        exact ⟨hpayload.symm, .Spilled hafter⟩
      · rename_i payload after hpop
        obtain ⟨hpayload, hafter⟩ := filed.pop hquiet hpop
        obtain ⟨directory, hdirectory, rfl⟩ := Option.map_eq_some_iff.mp hpayload.symm
        obtain ⟨decoded, hdecode, hresult⟩ := map_eq_ok htake
        cases hresult
        have hmem : directory ∈ resident ++ moved :=
          List.mem_append_right resident (List.mem_of_getLast? hdirectory)
        unfold decodeFor at hdecode
        rw [hcoding directory hmem] at hdecode
        cases hdecode
        exact ⟨hdirectory.symm, .Spilled hafter⟩

theorem Refines.pop {target : RelativePath} {entry : Option PlannedEntry}
    (hquiet : host.pendingSpill.host.Quiet) (h : Refines host w pending)
    (hcoding : ∀ e ∈ w.all, host.decodeSpilledEntry (encodeSpilledEntry host e) = .ok e)
    (hpop : pending.pop host target = .ok (entry, pending')) :
    entry = w.pop.1 ∧ Refines host w.pop.2 pending' := by
  obtain ⟨⟨taken, after⟩, htake, hpop⟩ := bind_eq_ok hpop
  have hspec := h.take hquiet hcoding htake
  cases taken with
  | none =>
    cases hpop
    exact hspec
  | some directory =>
    obtain ⟨_, -, hpop⟩ := bind_eq_ok hpop
    cases hpop
    exact hspec

/-- These directories wait, in memory or on disk. -/
def Holds (host : PlanHost) (waiting : List PlannedEntry) (pending : PendingDirectories) : Prop :=
  ∃ w, Refines host w pending ∧ waiting.Perm w.all

theorem Holds.push {entry : PlannedEntry} (hquiet : host.pendingSpill.host.Quiet)
    (h : Holds host waiting pending) (hpush : pending.push host entry = .ok pending') :
    Holds host (waiting ++ [entry]) pending' := by
  obtain ⟨w, hrefines, hperm⟩ := h
  exact ⟨_, hrefines.push hquiet hpush,
    (hperm.append_right [entry]).trans (w.push_all entry).symm⟩

/-- `pop` gives one of the directories, or none is left. -/
theorem Holds.pop {target : RelativePath} {entry : Option PlannedEntry}
    (hquiet : host.pendingSpill.host.Quiet) (h : Holds host waiting pending)
    (hcoding : ∀ e ∈ waiting, host.decodeSpilledEntry (encodeSpilledEntry host e) = .ok e)
    (hpop : pending.pop host target = .ok (entry, pending')) :
    match entry with
    | none => waiting = [] ∧ Holds host waiting pending'
    | some directory => ∃ rest, waiting.Perm (directory :: rest) ∧ Holds host rest pending' := by
  obtain ⟨w, hrefines, hperm⟩ := h
  obtain ⟨hentry, hafter⟩ := hrefines.pop hquiet
    (fun e he => hcoding e (hperm.symm.subset he)) hpop
  have hall := hperm.trans w.pop_all
  rw [← hentry] at hall
  cases entry with
  | none =>
    have hnil : waiting = [] := (Waiting.all_of_pop_eq_none hentry.symm ▸ hperm).eq_nil
    exact ⟨hnil, _, hafter, hall⟩
  | some directory => exact ⟨w.pop.2.all, hall, _, hafter, List.Perm.refl _⟩

end PendingDirectories

end Excise
