import Excise.Deletion.Plan
import Excise.Rail.Tracked

/-!
# The deletion history

What `app.rs` keeps of finished deletions, with the rail they ran on and the export of the history
that may be under way. A deletion is let in only while the history has room for its report.
-/

namespace Excise
set_option autoImplicit false

def mib : Nat := 1024 * 1024

def minimumPlanBytes : Nat := 4 * 1024

def maxRetainedDeletionReports : Nat := 32

/-- The sum of the budgets the plans on the rail were granted. -/
def DeletionWork.historyBytesInFlight (w : DeletionWork) : Nat :=
  w.items.foldl (fun sum item => satAdd 64 sum item.historyBytes) 0

/-- The export under way has the reports the history held when it started. -/
structure DeletionHistory where
  rail : Rail
  deletionHistory : List DeletionReport
  deletionHistoryBytes : Nat
  deletionHistoryLimit : Nat
  historyExport : Option (List DeletionReport)

/-- A call of the rail that neither lets a deletion in nor carries a report. An item is discarded
only when its confirmation cannot be shown. -/
def isPlainRailCall : Rail.Call → Bool
  | .enqueueConfirmation .. | .discard _ => false
  | .result _ (.executed completion) => decide (completion = .Cancelled)
  | _ => true

structure PlainRailCall where
  call : Rail.Call
  plain : isPlainRailCall call = true

namespace DeletionHistory

def new (session : ScanSessionId) (generation : ScanGeneration) (processMemoryMib : Nat) :
    DeletionHistory where
  rail := .new session generation
  deletionHistory := []
  deletionHistoryBytes := 0
  deletionHistoryLimit := min (processMemoryMib * mib) (satMax 64) / 8
  historyExport := none

def deletionHistoryRoomBytes (s : DeletionHistory) : Nat :=
  s.deletionHistoryLimit - s.deletionHistoryBytes

def remainingDeletionHistoryBytes (s : DeletionHistory) : Nat :=
  s.deletionHistoryRoomBytes - s.rail.work.historyBytesInFlight

def maximumDeletionPlanBytes (s : DeletionHistory) : Nat := s.remainingDeletionHistoryBytes / 2

def historyIsFull (s : DeletionHistory) : Bool :=
  decide (satAdd 64 s.deletionHistory.length s.rail.work.items.length ≥
      maxRetainedDeletionReports) ||
    decide (s.remainingDeletionHistoryBytes < minimumPlanBytes)

/-- The part of `complete_deletion` that keeps the report. -/
def completeDeletion (report : DeletionReport) (s : DeletionHistory) : DeletionHistory :=
  if s.deletionHistory.length < maxRetainedDeletionReports ∧
      report.estimatedBytes ≤ s.deletionHistoryRoomBytes then
    { s with
      deletionHistoryBytes := satAdd 64 s.deletionHistoryBytes report.estimatedBytes
      deletionHistory := s.deletionHistory ++ [report] }
  else s

def dropExportedDeletionHistory (exported : Nat) (s : DeletionHistory) : DeletionHistory :=
  let exported := min exported s.deletionHistory.length
  let freed := (s.deletionHistory.take exported).foldl
    (fun sum report => satAdd 64 sum report.estimatedBytes) 0
  { s with
    deletionHistory := s.deletionHistory.drop exported
    deletionHistoryBytes := s.deletionHistoryBytes - freed }

/-- The reader's keys, the worker's answers, and an export that starts, is refused a thread, or
ends. -/
inductive Call where
  | requestDeletion (target : FileToDelete) (reducedGuardrails : Bool) (now : Nat)
  | rail (call : PlainRailCall)
  | refuseNextConfirmation
  | deletionFinished (workId : DeletionWorkId) (report : DeletionReport)
  | startHistoryExport (spawns : Bool)
  | processHistoryExport (succeeded : Bool)

inductive Answer where
  | full
  | rail (answered : List (Rail.Call × Rail.Answer))
  | exported (reports : List DeletionReport)
  | nothing

def onRail (s : DeletionHistory) (call : Rail.Call) : DeletionHistory × Rail.Answer :=
  let answered := s.rail.answer call
  ({ s with rail := answered.1 }, answered.2)

/-- `request_deletion` and, for the target it answers, `queue_deletion_confirmation`. -/
def requestDeletion (s : DeletionHistory) (target : FileToDelete) (reducedGuardrails : Bool)
    (now : Nat) : DeletionHistory × Answer :=
  if s.historyIsFull then (s, .full)
  else
    let call := Rail.Call.enqueueConfirmation target reducedGuardrails s.maximumDeletionPlanBytes now
    let answered := s.onRail call
    (answered.1, .rail [(call, answered.2)])

/-- A report that no executing item awaits is dropped. -/
def deletionFinished (s : DeletionHistory) (workId : DeletionWorkId) (report : DeletionReport) :
    DeletionHistory × Answer :=
  let call := Rail.Call.result workId
    (.executed (if report.softCancelled then .Cancelled else .Succeeded))
  let answered := s.onRail call
  (match answered.2 with
    | .done true => answered.1.completeDeletion report
    | _ => answered.1, .rail [(call, answered.2)])

/-- `show_next_deletion_confirmation` of a target for which no challenge can be posed. -/
def refuseNextConfirmation (s : DeletionHistory) : DeletionHistory × Answer :=
  let taken := s.onRail .takeNextConfirmation
  match taken.2 with
  | .confirmation (some (workId, _)) =>
    let discarded := taken.1.onRail (.discard workId)
    (discarded.1, .rail [(.takeNextConfirmation, taken.2), (.discard workId, discarded.2)])
  | _ => (taken.1, .rail [(.takeNextConfirmation, taken.2)])

def answer (s : DeletionHistory) : Call → DeletionHistory × Answer
  | .requestDeletion target reducedGuardrails now => s.requestDeletion target reducedGuardrails now
  | .rail call =>
    let answered := s.onRail call.call
    (answered.1, .rail [(call.call, answered.2)])
  | .refuseNextConfirmation => s.refuseNextConfirmation
  | .deletionFinished workId report => s.deletionFinished workId report
  | .startHistoryExport spawns =>
    if s.historyExport.isNone && spawns then
      ({ s with historyExport := some s.deletionHistory }, .nothing)
    else (s, .nothing)
  | .processHistoryExport succeeded =>
    match s.historyExport with
    | none => (s, .nothing)
    | some reports =>
      let s := { s with historyExport := none }
      if succeeded then (s.dropExportedDeletionHistory reports.length, .exported reports)
      else (s, .nothing)

def machine : Machine DeletionHistory Call Answer := ⟨answer⟩

/-! ## What a run is about -/

/-- The calls the rail answered. -/
def railTrace (h : List (Call × Answer)) : List (Rail.Call × Rail.Answer) :=
  h.flatMap fun e => match e.2 with
    | .rail answered => answered
    | _ => []

/-- The report of a result whose command the worker had, whether or not the rail let it in. -/
def endedReport (call : Call) (answered : List (Rail.Call × Rail.Answer)) :
    Option DeletionReport :=
  match call, answered with
  | .deletionFinished _ report, [(_, .done _)] => some report
  | _, _ => none

/-- The reports of the deletions that ended, in the order they arrived. -/
def finishedReports (h : List (Call × Answer)) : List DeletionReport :=
  h.filterMap fun e => endedReport e.1 (railTrace [e])

/-- The reports written by exports that succeeded. -/
def exportedReports (h : List (Call × Answer)) : List DeletionReport :=
  h.flatMap fun e => match e.2 with
    | .exported reports => reports
    | _ => []

/-- A report takes no more than the budget its plan was granted. -/
def WithinBudget (s : DeletionHistory) : Call → Prop
  | .deletionFinished workId report =>
    ∀ item, s.rail.work.findItem workId = some item → report.estimatedBytes ≤ item.historyBytes
  | _ => True

structure Budgeted (s : DeletionHistory) : Prop where
  bytes : s.deletionHistoryBytes = (s.deletionHistory.map DeletionReport.estimatedBytes).sum
  within : (s.deletionHistory.map DeletionReport.estimatedBytes).sum +
    s.rail.work.historyBytesInFlight ≤ s.deletionHistoryLimit
  count : s.deletionHistory.length + s.rail.work.items.length ≤ maxRetainedDeletionReports

/-! ## Budgets on the rail -/

def grantedBytes (w : DeletionWork) : Nat := (w.items.map DeletionWorkItem.historyBytes).sum

theorem historyBytesInFlight_eq (w : DeletionWork) :
    w.historyBytesInFlight = min (grantedBytes w) (satMax 64) := by
  unfold DeletionWork.historyBytesInFlight
  rw [foldl_satAdd DeletionWorkItem.historyBytes w.items (Nat.zero_le _), Nat.zero_add, grantedBytes]

theorem length_of_thins {w w' : DeletionWork} (h : DeletionWork.Thins w w') :
    w'.items.length ≤ w.items.length := by
  have hlength := List.Sublist.length_le h
  rwa [List.length_map, List.length_map] at hlength

theorem grantedBytes_of_thins {w w' : DeletionWork} (h : DeletionWork.Thins w w') :
    grantedBytes w' ≤ grantedBytes w := by
  have hsub := List.Sublist.map (fun terms : DeletionWorkId × NativePath × RelativePath × Nat =>
    terms.2.2.2) h
  rw [List.map_map, List.map_map] at hsub
  exact hsub.sum_le_sum fun n _ => Nat.zero_le n

/-- What an accepted confirmation puts on the rail, or nothing. -/
theorem enqueueConfirmation_grants (w : DeletionWork) (target : FileToDelete) (reduced : Bool)
    (bytes now : Nat) :
    grantedBytes (w.enqueueConfirmation target reduced bytes now).1 ≤ grantedBytes w + bytes ∧
      (w.enqueueConfirmation target reduced bytes now).1.items.length ≤ w.items.length + 1 := by
  unfold DeletionWork.enqueueConfirmation DeletionWork.enqueue
  dsimp only
  split
  · exact ⟨Nat.le_add_right _ _, Nat.le_succ _⟩
  split
  · exact ⟨Nat.le_add_right _ _, Nat.le_succ _⟩
  · unfold grantedBytes
    rw [List.map_append, List.sum_append, List.length_append]
    exact ⟨Nat.le_refl _, Nat.le_refl _⟩

/-- The item of an accepted execution leaves the rail with its budget. -/
theorem executionFinished_grants {w : DeletionWork} {id : DeletionWorkId}
    {completion : WorkCompletion} (h : (w.executionFinished id completion).2 = true) :
    ∃ item, w.findItem id = some item ∧
      grantedBytes (w.executionFinished id completion).1 + item.historyBytes = grantedBytes w ∧
      (w.executionFinished id completion).1.items.length + 1 = w.items.length := by
  have hitems := DeletionWork.finishLease_items w id completion
  unfold DeletionWork.executionFinished DeletionWork.finishExecution DeletionWork.finishStage at h ⊢
  cases hfind : w.findItem id with
  | none =>
    rw [hfind] at h
    cases h
  | some item =>
    rw [hfind] at h
    dsimp only at h ⊢
    split at h
    · rename_i hstage
      rw [if_pos hstage]
      split at h
      · rename_i w' heq
        rw [heq] at hitems
        refine ⟨item, rfl, ?_⟩
        dsimp only at hitems ⊢
        unfold DeletionWork.removeItem grantedBytes
        dsimp only
        rw [hitems]
        refine ⟨Keyed.sum_eraseP hfind, ?_⟩
        have hmem := List.mem_of_find?_eq_some hfind
        have hpositive := List.length_pos_of_mem hmem
        rw [List.length_eraseP_of_mem hmem (List.find?_some hfind)]
        omega
      · cases h
    · cases h

/-! ## One call -/

variable {s : DeletionHistory}

/-- `Budgeted` with the budgets added up, and the reports of an export under way in their place. -/
structure Kept (s : DeletionHistory) : Prop where
  bytes : s.deletionHistoryBytes = (s.deletionHistory.map DeletionReport.estimatedBytes).sum
  within : (s.deletionHistory.map DeletionReport.estimatedBytes).sum + grantedBytes s.rail.work ≤
    s.deletionHistoryLimit
  count : s.deletionHistory.length + s.rail.work.items.length ≤ maxRetainedDeletionReports
  limit : s.deletionHistoryLimit ≤ satMax 64
  exporting : ∀ reports, s.historyExport = some reports → reports <+: s.deletionHistory

theorem kept_new (session : ScanSessionId) (generation : ScanGeneration) (processMemoryMib : Nat) :
    Kept (new session generation processMemoryMib) where
  bytes := rfl
  within := Nat.zero_le _
  count := Nat.zero_le _
  limit := (Nat.div_le_self _ 8).trans (Nat.min_le_right _ _)
  exporting := by
    intro reports h
    cases h

theorem Kept.budgeted (h : Kept s) : Budgeted s where
  bytes := h.bytes
  within := by
    have hwithin := h.within
    rw [historyBytesInFlight_eq]
    omega
  count := h.count

theorem Kept.moveRail (h : Kept s) {r : Rail} (ht : DeletionWork.Thins s.rail.work r.work) :
    Kept { s with rail := r } where
  bytes := h.bytes
  within := (Nat.add_le_add_left (grantedBytes_of_thins ht) _).trans h.within
  count := (Nat.add_le_add_left (length_of_thins ht) _).trans h.count
  limit := h.limit
  exporting := h.exporting

theorem Kept.requestDeletion (h : Kept s) (target : FileToDelete) (reduced : Bool) (now : Nat) :
    Kept (s.requestDeletion target reduced now).1 := by
  unfold DeletionHistory.requestDeletion
  split
  · exact h
  rename_i hroom
  unfold historyIsFull at hroom
  rw [Bool.or_eq_true, decide_eq_true_iff, decide_eq_true_iff] at hroom
  obtain ⟨hbytes, hlength⟩ := enqueueConfirmation_grants s.rail.work target reduced
    s.maximumDeletionPlanBytes now
  have hwithin := h.within
  have hcount := h.count
  have hmaximum : s.maximumDeletionPlanBytes ≤ s.deletionHistoryLimit -
      (s.deletionHistory.map DeletionReport.estimatedBytes).sum - grantedBytes s.rail.work := by
    have hlimit := h.limit
    unfold maximumDeletionPlanBytes remainingDeletionHistoryBytes deletionHistoryRoomBytes
    rw [h.bytes, historyBytesInFlight_eq]
    omega
  refine ⟨h.bytes, ?_, ?_, h.limit, h.exporting⟩
  · show (s.deletionHistory.map DeletionReport.estimatedBytes).sum +
      grantedBytes (s.rail.work.enqueueConfirmation target reduced s.maximumDeletionPlanBytes now).1
      ≤ s.deletionHistoryLimit
    omega
  · show s.deletionHistory.length + (s.rail.work.enqueueConfirmation target reduced
      s.maximumDeletionPlanBytes now).1.items.length ≤ maxRetainedDeletionReports
    have hfew : s.deletionHistory.length + s.rail.work.items.length ≤ satMax 64 :=
      hcount.trans (by decide)
    rw [satAdd_of_le hfew] at hroom
    omega

/-- The report takes the place its item had on the rail. -/
theorem Kept.finish (h : Kept s) {r : Rail} {report : DeletionReport} {budget : Nat}
    (hbytes : grantedBytes r.work + budget = grantedBytes s.rail.work)
    (hlength : r.work.items.length + 1 = s.rail.work.items.length)
    (hbudget : report.estimatedBytes ≤ budget) :
    Kept (completeDeletion report { s with rail := r }) ∧
      (completeDeletion report { s with rail := r }).deletionHistory =
        s.deletionHistory ++ [report] := by
  have hwithin := h.within
  have hcount := h.count
  have hlimit := h.limit
  have hroom : s.deletionHistory.length < maxRetainedDeletionReports ∧
      report.estimatedBytes ≤ deletionHistoryRoomBytes { s with rail := r } := by
    refine ⟨by omega, ?_⟩
    show report.estimatedBytes ≤ s.deletionHistoryLimit - s.deletionHistoryBytes
    rw [h.bytes]
    omega
  unfold completeDeletion
  rw [if_pos hroom]
  refine ⟨⟨?_, ?_, ?_, hlimit, ?_⟩, rfl⟩
  · show satAdd 64 s.deletionHistoryBytes report.estimatedBytes = _
    rw [satAdd_of_le (by rw [h.bytes]; omega), h.bytes, List.map_append, List.sum_append]
    rfl
  · dsimp only
    rw [List.map_append, List.sum_append, List.map_singleton, List.sum_singleton]
    omega
  · dsimp only
    rw [List.length_append, List.length_singleton]
    omega
  · intro reports hexport
    exact (h.exporting reports hexport).trans (List.prefix_append _ _)

theorem Kept.drop (h : Kept s) (exported : Nat) :
    Kept (dropExportedDeletionHistory exported { s with historyExport := none }) := by
  have hwithin := h.within
  have hlimit := h.limit
  have hcount := h.count
  have hsplit : (s.deletionHistory.map DeletionReport.estimatedBytes).sum =
      ((s.deletionHistory.take (min exported s.deletionHistory.length)).map
        DeletionReport.estimatedBytes).sum +
      ((s.deletionHistory.drop (min exported s.deletionHistory.length)).map
        DeletionReport.estimatedBytes).sum := by
    rw [← List.sum_append, ← List.map_append, List.take_append_drop]
  unfold dropExportedDeletionHistory
  refine ⟨?_, ?_, ?_, hlimit, ?_⟩
  · dsimp only
    rw [foldl_satAdd DeletionReport.estimatedBytes _ (Nat.zero_le _), h.bytes]
    omega
  · dsimp only
    omega
  · dsimp only
    rw [List.length_drop]
    omega
  · intro reports hexport
    cases hexport

theorem plain_not_enqueue {call : Rail.Call} (h : isPlainRailCall call = true)
    (target : FileToDelete) (reduced : Bool) (bytes now : Nat) :
    call ≠ .enqueueConfirmation target reduced bytes now := by
  rintro rfl
  cases h

theorem Kept.onRail (h : Kept s) {call : Rail.Call}
    (hcall : ∀ target reduced bytes now, call ≠ .enqueueConfirmation target reduced bytes now) :
    Kept (s.onRail call).1 := h.moveRail (Rail.thins_answer s.rail hcall)

theorem Kept.refuseNextConfirmation (h : Kept s) : Kept s.refuseNextConfirmation.1 := by
  have htaken : Kept (s.onRail .takeNextConfirmation).1 := by
    refine h.onRail ?_
    intro _ _ _ _ heq
    cases heq
  unfold DeletionHistory.refuseNextConfirmation
  dsimp only
  split
  · refine htaken.onRail ?_
    intro _ _ _ _ heq
    cases heq
  · exact htaken

/-- An accepted result is the rail's own, with its item gone. -/
theorem receive_accepted {r : Rail} {workId : DeletionWorkId} {completion : WorkCompletion}
    (h : (r.receive workId (.executed completion)).2 = .done true) :
    (r.work.executionFinished workId completion).2 = true ∧
      (r.receive workId (.executed completion)).1.work =
        (r.work.executionFinished workId completion).1 := by
  unfold Rail.receive at h ⊢
  split at h
  · cases h
  · rename_i command hcommand
    dsimp only [Rail.handle] at h ⊢
    split at h
    · rename_i w heq
      rw [heq]
      exact ⟨rfl, rfl⟩
    · cases h

/-- A report within its budget stays; a result that is no report leaves the history alone. -/
theorem Kept.deletionFinished (h : Kept s) (workId : DeletionWorkId) (report : DeletionReport)
    (hbudget : WithinBudget s (.deletionFinished workId report)) :
    Kept (s.deletionFinished workId report).1 ∧
      ((s.onRail (.result workId (.executed
          (if report.softCancelled then .Cancelled else .Succeeded)))).2 = .done true →
        (s.deletionFinished workId report).1.deletionHistory = s.deletionHistory ++ [report]) := by
  have hthin : Kept (s.onRail (.result workId
      (.executed (if report.softCancelled then .Cancelled else .Succeeded)))).1 := by
    refine h.onRail ?_
    intro _ _ _ _ heq
    cases heq
  unfold DeletionHistory.deletionFinished
  dsimp only
  split
  · rename_i haccepted
    obtain ⟨hok, hwork⟩ := receive_accepted haccepted
    obtain ⟨item, hfind, hbytes, hlength⟩ := executionFinished_grants hok
    rw [← hwork] at hbytes hlength
    obtain ⟨hkept, hhistory⟩ := h.finish hbytes hlength (hbudget item hfind)
    exact ⟨hkept, fun _ => hhistory⟩
  · rename_i hrefused
    exact ⟨hthin, fun haccepted => absurd haccepted hrefused⟩

theorem Kept.answer (h : Kept s) (call : Call) (hbudget : WithinBudget s call) :
    Kept (s.answer call).1 := by
  cases call with
  | requestDeletion target reduced now => exact h.requestDeletion target reduced now
  | rail call => exact h.onRail (plain_not_enqueue call.plain)
  | refuseNextConfirmation => exact h.refuseNextConfirmation
  | deletionFinished workId report => exact (h.deletionFinished workId report hbudget).1
  | startHistoryExport spawns =>
    dsimp only [DeletionHistory.answer]
    split
    · refine ⟨h.bytes, h.within, h.count, h.limit, ?_⟩
      intro reports hexport
      obtain rfl := Option.some.inj hexport
      exact List.prefix_refl _
    · exact h
  | processHistoryExport succeeded =>
    dsimp only [DeletionHistory.answer]
    split
    · exact h
    · rename_i reports hexport
      split
      · exact h.drop reports.length
      · refine ⟨h.bytes, h.within, h.count, h.limit, ?_⟩
        intro reports hexport
        cases hexport

/-! ## Reports over a run -/

theorem railTrace_append (h h' : List (Call × Answer)) :
    railTrace (h ++ h') = railTrace h ++ railTrace h' := List.flatMap_append

theorem finishedReports_append (h h' : List (Call × Answer)) :
    finishedReports (h ++ h') = finishedReports h ++ finishedReports h' := List.filterMap_append

theorem exportedReports_append (h h' : List (Call × Answer)) :
    exportedReports (h ++ h') = exportedReports h ++ exportedReports h' := List.flatMap_append

/-- The item whose confirmation was just taken holds no lease. -/
theorem taken_idle {r : Rail} (hsound : r.Sound) {workId : DeletionWorkId} {target : FileToDelete}
    (h : r.work.takeNextConfirmation.2 = some (workId, target)) :
    ∀ item ∈ r.work.takeNextConfirmation.1.items, item.id = workId → item.stage.lane = none := by
  unfold DeletionWork.takeNextConfirmation at h ⊢
  split at h
  · cases h
  · rename_i item hfind
    have hitem := List.mem_of_find?_eq_some hfind
    split at h
    · cases h
      intro b hb hid
      unfold DeletionWork.updateItem at hb
      rw [Keyed.mem_updateFirst hsound.ids_nodup (Keyed.find?_key hsound.ids_nodup hitem)] at hb
      rcases hb with rfl | ⟨-, hne⟩
      · rfl
      · exact absurd hid hne
    · cases h

theorem refuseNextConfirmation_none (h : s.rail.work.takeNextConfirmation.2 = none) :
    s.refuseNextConfirmation = ((s.onRail .takeNextConfirmation).1,
      .rail [(.takeNextConfirmation, .confirmation none)]) := by
  have htaken : (s.onRail .takeNextConfirmation).2 = .confirmation none :=
    congrArg Rail.Answer.confirmation h
  unfold refuseNextConfirmation
  dsimp only
  rw [htaken]

theorem refuseNextConfirmation_some {workId : DeletionWorkId} {target : FileToDelete}
    (h : s.rail.work.takeNextConfirmation.2 = some (workId, target)) :
    s.refuseNextConfirmation = (((s.onRail .takeNextConfirmation).1.onRail (.discard workId)).1,
      .rail [(.takeNextConfirmation, .confirmation (some (workId, target))),
        (.discard workId, ((s.onRail .takeNextConfirmation).1.onRail (.discard workId)).2)]) := by
  have htaken : (s.onRail .takeNextConfirmation).2 = .confirmation (some (workId, target)) :=
    congrArg Rail.Answer.confirmation h
  unfold refuseNextConfirmation
  dsimp only
  rw [htaken]

theorem tracks_refuseNextConfirmation {h : List (Rail.Call × Rail.Answer)}
    (ht : Rail.Tracks h s.rail)
    (hids : Rail.issued (h ++ railTrace [(.refuseNextConfirmation, s.refuseNextConfirmation.2)]) <
      2 ^ 64)
    (hleases : Rail.granted (h ++ railTrace
      [(.refuseNextConfirmation, s.refuseNextConfirmation.2)]) < 2 ^ 64) :
    Rail.Tracks (h ++ railTrace [(.refuseNextConfirmation, s.refuseNextConfirmation.2)])
      s.refuseNextConfirmation.1.rail := by
  cases hnext : s.rail.work.takeNextConfirmation.2 with
  | none =>
    rw [refuseNextConfirmation_none hnext] at hids hleases ⊢
    have hstep := ht.step .takeNextConfirmation (fun _ heq => by cases heq)
    rw [show (s.rail.answer .takeNextConfirmation).2 = .confirmation none from
      congrArg Rail.Answer.confirmation hnext] at hstep
    exact hstep hids hleases
  | some next =>
    obtain ⟨workId, target⟩ := next
    rw [refuseNextConfirmation_some hnext] at hids hleases ⊢
    have hstep := ht.step .takeNextConfirmation (fun _ heq => by cases heq)
    rw [show (s.rail.answer .takeNextConfirmation).2 = .confirmation (some (workId, target)) from
      congrArg Rail.Answer.confirmation hnext] at hstep
    -- the two calls, one after the other
    have htwo : ∀ answer : Rail.Answer, h ++ [(Rail.Call.takeNextConfirmation,
        Rail.Answer.confirmation (some (workId, target))), (.discard workId, answer)] =
        (h ++ [(.takeNextConfirmation, .confirmation (some (workId, target)))]) ++
          [(.discard workId, answer)] := fun answer => List.append_cons _ _ _
    change Rail.issued (h ++ [_, _]) < 2 ^ 64 at hids
    change Rail.granted (h ++ [_, _]) < 2 ^ 64 at hleases
    show Rail.Tracks (h ++ [_, _]) _
    rw [htwo] at hids hleases ⊢
    rw [Rail.issued_append] at hids
    rw [Rail.granted_append] at hleases
    have htaken := hstep (by omega) (by omega)
    rw [← Rail.issued_append] at hids
    rw [← Rail.granted_append] at hleases
    refine htaken.step (.discard workId) ?_ hids hleases
    rintro id heq
    obtain rfl := Rail.Call.discard.inj heq
    exact taken_idle ht.sound hnext

theorem completeDeletion_rail (report : DeletionReport) (s : DeletionHistory) :
    (completeDeletion report s).rail = s.rail := by
  unfold completeDeletion
  split <;> rfl

/-- However a result is taken up, the rail has answered it. -/
theorem deletionFinished_rail (s : DeletionHistory) (workId : DeletionWorkId)
    (report : DeletionReport) :
    (s.deletionFinished workId report).1.rail = (s.rail.answer (.result workId
      (.executed (if report.softCancelled then .Cancelled else .Succeeded)))).1 := by
  unfold deletionFinished
  dsimp only
  split
  · exact completeDeletion_rail report _
  · rfl

theorem deletionFinished_answered (s : DeletionHistory) (workId : DeletionWorkId)
    (report : DeletionReport) (answer : Rail.Answer) :
    (s.onRail (.result workId (.executed
        (if report.softCancelled then .Cancelled else .Succeeded)))).2 = answer →
      s.deletionFinished workId report =
        (match answer with
          | .done true => (s.onRail (.result workId (.executed
              (if report.softCancelled then .Cancelled else .Succeeded)))).1.completeDeletion report
          | _ => (s.onRail (.result workId (.executed
              (if report.softCancelled then .Cancelled else .Succeeded)))).1,
          .rail [(.result workId (.executed
            (if report.softCancelled then .Cancelled else .Succeeded)), answer)]) := by
  rintro rfl
  rfl

/-- The rail of the history runs as a rail. -/
theorem tracks_answer {h : List (Rail.Call × Rail.Answer)} (ht : Rail.Tracks h s.rail) (call : Call)
    (hids : Rail.issued (h ++ railTrace [(call, (s.answer call).2)]) < 2 ^ 64)
    (hleases : Rail.granted (h ++ railTrace [(call, (s.answer call).2)]) < 2 ^ 64) :
    Rail.Tracks (h ++ railTrace [(call, (s.answer call).2)]) (s.answer call).1.rail := by
  have hquiet : Rail.Tracks (h ++ []) s.rail := by rwa [List.append_nil]
  cases call with
  | requestDeletion target reduced now =>
    dsimp only [answer, requestDeletion] at hids hleases ⊢
    split
    · exact hquiet
    · rename_i hroom
      rw [if_neg hroom] at hids hleases
      exact ht.step _ (fun _ heq => by cases heq) hids hleases
  | rail call =>
    refine ht.step call.call ?_ hids hleases
    intro workId heq
    have hplain := call.plain
    rw [heq] at hplain
    cases hplain
  | refuseNextConfirmation => exact tracks_refuseNextConfirmation ht hids hleases
  | deletionFinished workId report =>
    dsimp only [answer]
    rw [deletionFinished_rail]
    exact ht.step _ (fun _ heq => by cases heq) hids hleases
  | startHistoryExport spawns =>
    dsimp only [answer]
    split
    · exact hquiet
    · exact hquiet
  | processHistoryExport succeeded =>
    dsimp only [answer]
    split
    · exact hquiet
    · split
      · exact hquiet
      · exact hquiet

/-- One call moves reports only from the worker to the history and from the history to an export
that succeeded. -/
theorem reports_answer (h : Kept s) (hsound : s.rail.Sound) (htracked : s.rail.Tracked)
    (call : Call) (hbudget : WithinBudget s call) :
    s.deletionHistory ++ finishedReports [(call, (s.answer call).2)] =
      exportedReports [(call, (s.answer call).2)] ++ (s.answer call).1.deletionHistory := by
  have hquiet : s.deletionHistory ++ [] = [] ++ s.deletionHistory := by
    rw [List.append_nil, List.nil_append]
  cases call with
  | requestDeletion target reduced now =>
    dsimp only [answer, requestDeletion]
    split
    · exact hquiet
    · exact hquiet
  | rail call => exact hquiet
  | refuseNextConfirmation =>
    dsimp only [answer]
    cases hnext : s.rail.work.takeNextConfirmation.2 with
    | none =>
      rw [refuseNextConfirmation_none hnext]
      exact hquiet
    | some next =>
      rw [refuseNextConfirmation_some hnext]
      exact hquiet
  | deletionFinished workId report =>
    have hkept := (h.deletionFinished workId report hbudget).2
    dsimp only [answer]
    rcases Rail.received_executed htracked hsound workId
      (if report.softCancelled then .Cancelled else .Succeeded) with hanswer | hanswer
    · -- the worker had no such command
      rw [deletionFinished_answered s workId report _ hanswer]
      exact hquiet
    · have hhistory := hkept hanswer
      rw [deletionFinished_answered s workId report _ hanswer] at hhistory ⊢
      exact hhistory.symm
  | startHistoryExport spawns =>
    dsimp only [answer]
    split
    · exact hquiet
    · exact hquiet
  | processHistoryExport succeeded =>
    dsimp only [answer]
    split
    · exact hquiet
    · rename_i reports hexport
      split
      · -- the reports of the export are the first of the history
        obtain ⟨rest, hrest⟩ := h.exporting reports hexport
        have hlength : min reports.length s.deletionHistory.length = reports.length := by
          rw [← hrest, List.length_append]
          omega
        have hdrop : s.deletionHistory.drop (min reports.length s.deletionHistory.length) = rest := by
          rw [hlength, ← hrest, List.drop_left]
        show s.deletionHistory ++ [] = (reports ++ []) ++
          s.deletionHistory.drop (min reports.length s.deletionHistory.length)
        rw [hdrop, List.append_nil, List.append_nil, hrest]
      · exact hquiet

/-! ## Every run -/

/-- Over every run whose reports take no more than their plans were granted, the history with the
deletions still on the rail stays within its budget and its count; and before ids run out, the
reports of all deletions that ended are those of the exports that succeeded, then those still kept. -/
theorem history_within_budget (session : ScanSessionId) (generation : ScanGeneration)
    (processMemoryMib : Nat) (calls : List Call)
    (hbudget : machine.Along WithinBudget (new session generation processMemoryMib) calls) :
    Budgeted (machine.run (new session generation processMemoryMib) calls) ∧
      (Rail.issued (railTrace (machine.trace (new session generation processMemoryMib) calls)) <
          2 ^ 64 →
        Rail.granted (railTrace (machine.trace (new session generation processMemoryMib) calls)) <
          2 ^ 64 →
        finishedReports (machine.trace (new session generation processMemoryMib) calls) =
          exportedReports (machine.trace (new session generation processMemoryMib) calls) ++
            (machine.run (new session generation processMemoryMib) calls).deletionHistory) := by
  have hrun := machine.run_induction_along (C := WithinBudget) (P := fun h s => Kept s ∧
    (Rail.issued (railTrace h) < 2 ^ 64 → Rail.granted (railTrace h) < 2 ^ 64 →
      Rail.Tracks (railTrace h) s.rail ∧
        finishedReports h = exportedReports h ++ s.deletionHistory)) ?_ ?_ hbudget
  · exact ⟨hrun.1.budgeted, fun hids hleases => (hrun.2 hids hleases).2⟩
  · exact ⟨kept_new session generation processMemoryMib,
      fun _ _ => ⟨Rail.tracks_new session generation, rfl⟩⟩
  · rintro h s call ⟨hkept, hreports⟩ hcall
    refine ⟨hkept.answer call hcall, ?_⟩
    intro hids hleases
    change Rail.issued (railTrace (h ++ [(call, (s.answer call).2)])) < 2 ^ 64 at hids
    change Rail.granted (railTrace (h ++ [(call, (s.answer call).2)])) < 2 ^ 64 at hleases
    show Rail.Tracks (railTrace (h ++ [(call, (s.answer call).2)])) (s.answer call).1.rail ∧
      finishedReports (h ++ [(call, (s.answer call).2)]) =
        exportedReports (h ++ [(call, (s.answer call).2)]) ++ (s.answer call).1.deletionHistory
    rw [railTrace_append] at hids hleases ⊢
    have hissued := Rail.issued_append (railTrace h) (railTrace [(call, (s.answer call).2)])
    have hgranted := Rail.granted_append (railTrace h) (railTrace [(call, (s.answer call).2)])
    obtain ⟨htracks, hbefore⟩ := hreports (by omega) (by omega)
    refine ⟨tracks_answer htracks call hids hleases, ?_⟩
    have hmoved := reports_answer hkept htracks.sound htracks.tracked call hcall
    rw [finishedReports_append, exportedReports_append, hbefore, List.append_assoc, hmoved,
      List.append_assoc]

def smallReport (estimatedBytes : Nat) : DeletionReport where
  rootRelativePath := .root
  scanRoot := [47]
  entries := ⟨[], {}, false, true, none⟩
  softCancelled := false
  precise := true
  estimatedBytes := estimatedBytes

/-- A second deletion ends while the report of the first is being exported. -/
def exportMeanwhile : List Call :=
  [.requestDeletion ⟨[[47]], [⟨[97], valid_a⟩]⟩ true 0,
    .rail ⟨.nextPlanningCommand true, rfl⟩,
    .rail ⟨.result ⟨1⟩ (.planned ⟨⟨[[47]], [⟨[97], valid_a⟩]⟩, 1⟩), rfl⟩,
    .rail ⟨.nextExecutionCommand true, rfl⟩,
    .deletionFinished ⟨1⟩ (smallReport 100),
    .startHistoryExport true,
    .requestDeletion ⟨[[47]], [⟨[98], valid_b⟩]⟩ true 1,
    .rail ⟨.nextPlanningCommand true, rfl⟩,
    .rail ⟨.result ⟨2⟩ (.planned ⟨⟨[[47]], [⟨[98], valid_b⟩]⟩, 1⟩), rfl⟩,
    .rail ⟨.nextExecutionCommand true, rfl⟩,
    .deletionFinished ⟨2⟩ (smallReport 200),
    .processHistoryExport true]

theorem history_within_budget_exportMeanwhile :
    Budgeted (machine.run (new ⟨7⟩ ⟨0⟩ 1) exportMeanwhile) ∧
      finishedReports (machine.trace (new ⟨7⟩ ⟨0⟩ 1) exportMeanwhile) =
        exportedReports (machine.trace (new ⟨7⟩ ⟨0⟩ 1) exportMeanwhile) ++
          (machine.run (new ⟨7⟩ ⟨0⟩ 1) exportMeanwhile).deletionHistory := by
  have hrun := history_within_budget ⟨7⟩ ⟨0⟩ 1 exportMeanwhile ⟨trivial, trivial, trivial, trivial,
    ?_, trivial, trivial, trivial, trivial, trivial, ?_, trivial, trivial⟩
  · exact ⟨hrun.1, hrun.2 (by decide) (by decide)⟩
  · intro item hitem
    obtain rfl := Option.some.inj hitem
    decide
  · intro item hitem
    obtain rfl := Option.some.inj hitem
    decide

example : (machine.run (new ⟨7⟩ ⟨0⟩ 1) exportMeanwhile).deletionHistory.map
    DeletionReport.estimatedBytes = [200] := by decide

end DeletionHistory

end Excise
