import Excise.Rail.Steps

/-!
# The rail invariant of every run

The remaining operations, the step lemma over all calls, and the invariant in the words of
the rail: few items, apart from one another, one per lane, and a lease with a command exactly
while an item is in a lane.
-/

namespace Excise.Rail
set_option autoImplicit false

variable {s : Rail} {a : DeletionWorkItem}

/-! ## Results of the worker -/

theorem Sound.no_lease_of_absent (h : Sound s) {id : DeletionWorkId}
    (habsent : s.work.findItem id = none) : ∀ e ∈ s.work.leases, e.1 ≠ id := by
  intro e he hid
  obtain ⟨item, hitem, hitemid⟩ := h.lease_item e he
  have hnone := List.find?_eq_none.mp habsent item hitem
  simp [hitemid, hid] at hnone

theorem handle_absent (h : Sound s) {id : DeletionWorkId} (habsent : s.work.findItem id = none)
    (result : WorkerResult) : (handle s.work id result).1 = s.work := by
  have hdiscard := discardCancelledEvent_unheld (h.no_lease_of_absent habsent)
  cases result <;>
    simp [handle, DeletionWork.planningSucceeded, DeletionWork.planningCancelled,
      DeletionWork.planningFailed, DeletionWork.planningStale, DeletionWork.finishPlanning,
      DeletionWork.executionFinished, DeletionWork.executionFailed, DeletionWork.executionStale,
      DeletionWork.finishExecution, DeletionWork.finishStage, habsent, hdiscard]

theorem Landed.frame {w : DeletionWork} (hl : Landed s a w) :
    w.nextId = s.work.nextId ∧
      w.coordinator.nextLease = s.work.coordinator.nextLease := by
  cases hl with
  | removed w' hr heq =>
    subst heq
    exact ⟨hr.nextId, hr.nextLease⟩
  | planned w' plan hr hpath heq =>
    subst heq
    exact ⟨hr.nextId, hr.nextLease⟩

theorem answersTo_iff {workId : DeletionWorkId} {result : WorkerResult}
    {command : DeletionWorkCommand} :
    answersTo workId result command = true ↔
      command.workId = workId ∧ command.isPlan = result.isPlan := by
  simp [answersTo]

/-- The item whose command the worker has is in the lane of that command. -/
theorem Sound.lane_of_command (h : Sound s) {command : DeletionWorkCommand}
    (hcommand : command ∈ s.withWorker) (ha : a ∈ s.work.items) (hid : a.id = command.workId) :
    ∃ lane, a.stage.lane = some lane ∧ command.isPlan = lane.isPlan := by
  have hsettled := h.settled a ha
  cases hlane : a.stage.lane with
  | none =>
    rw [settled_of_idle hlane] at hsettled
    exact absurd hid.symm (hsettled.1.2 command hcommand)
  | some lane =>
    rw [settled_of_lane hlane] at hsettled
    obtain ⟨-, other, hother, hoid, hoplan⟩ := hsettled
    have heq : other = command :=
      Keyed.eq_of_key_eq h.commands_nodup hother hcommand (hoid.trans hid)
    exact ⟨lane, rfl, heq ▸ hoplan⟩

theorem sound_receive (h : Sound s) (workId : DeletionWorkId) (result : WorkerResult) :
    Sound (s.receive workId result).1 ∧
      (s.receive workId result).1.work.nextId = s.work.nextId ∧
      (s.receive workId result).1.work.coordinator.nextLease =
        s.work.coordinator.nextLease := by
  unfold receive
  cases hcommand : s.withWorker.find? (answersTo workId result) with
  | none => exact ⟨h, rfl, rfl⟩
  | some command =>
    dsimp only
    have hmem := List.mem_of_find?_eq_some hcommand
    obtain ⟨rfl, hkind⟩ := answersTo_iff.mp (List.find?_some hcommand)
    have hrest : ∀ x, x ∈ s.withWorker.eraseP (answersTo command.workId result) ↔
        x ∈ s.withWorker ∧ x.workId ≠ command.workId := by
      intro x
      exact Keyed.mem_eraseP h.commands_nodup hcommand
    have hsub : (s.withWorker.eraseP (answersTo command.workId result)).Sublist s.withWorker :=
      List.eraseP_sublist
    cases hfind : s.work.findItem command.workId with
    | none =>
      rw [handle_absent h hfind result]
      refine ⟨h.shrink (List.Sublist.refl _) rfl h.consistent (List.Sublist.refl _) h.lease_item hsub
        ?_, rfl, rfl⟩
      intro b hb
      have hne : b.id ≠ command.workId := by
        intro hid
        simpa [hid] using List.find?_eq_none.mp hfind b hb
      refine settled_other (s := s) (a := { b with id := command.workId }) ⟨?_, ?_, ?_⟩ hne
        (h.settled b hb)
      · exact fun _ _ => Iff.rfl
      · intro x hx
        rw [hrest]
        exact ⟨fun hx => hx.1, fun hx' => ⟨hx', hx⟩⟩
      · intro e he _
        obtain ⟨-, -, -, -, -, -, hactive, -⟩ := h.lane_of_lease he
        exact hactive
    | some item =>
      obtain ⟨ha, hid⟩ := find_item hfind
      obtain ⟨lane, hlane, hplan⟩ := h.lane_of_command hmem ha hid
      rw [← hid] at hrest hsub ⊢
      have hlanded := landed_handle h ha hlane (hkind ▸ hplan)
      refine ⟨?_, hlanded.frame⟩
      generalize (handle s.work item.id result).1 = w at hlanded ⊢
      cases hlanded with
      | removed w' hr heq =>
        subst heq
        refine h.land_removed ha hr hsub ?_
        intro x hx
        rw [hrest]
        exact ⟨fun hx => hx.1, fun hx' => ⟨hx', hx⟩⟩
      | planned w' plan hr hpath heq =>
        subst heq
        exact h.land ha hr (fun item => { item with plan := some plan, stage := .QueuedExecution })
          (fun _ => rfl) (fun _ => rfl) rfl (fun _ => ⟨plan, rfl, hpath⟩) hrest
          (h.commands_nodup.sublist (hsub.map _))

/-! ## Confirmations and cancellation -/

/-- Sound again, with no id and no lease handed out. -/
def Quiet (s s' : Rail) : Prop :=
  Sound s' ∧ s'.work.nextId = s.work.nextId ∧
    s'.work.coordinator.nextLease = s.work.coordinator.nextLease

theorem quiet_takeNextConfirmation (h : Sound s) :
    Quiet s ⟨s.work.takeNextConfirmation.1, s.withWorker⟩ := by
  unfold DeletionWork.takeNextConfirmation
  split
  · exact ⟨h, rfl, rfl⟩
  · rename_i item hfind
    have ha := List.mem_of_find?_eq_some hfind
    split
    · rename_i target reduced bytes hstage
      refine ⟨?_, rfl, rfl⟩
      exact h.change_idle ha (by rw [hstage]; rfl)
        (fun item => { item with stage := .Confirming reduced bytes }) (fun _ => rfl)
        (fun _ => rfl) rfl rfl
    · exact ⟨h, rfl, rfl⟩

theorem quiet_returnConfirmation (h : Sound s) (workId : DeletionWorkId) (target : FileToDelete) :
    Quiet s ⟨(s.work.returnConfirmation workId target).1, s.withWorker⟩ := by
  unfold DeletionWork.returnConfirmation
  split
  · exact ⟨h, rfl, rfl⟩
  · rename_i item hfind
    obtain ⟨ha, rfl⟩ := find_item hfind
    split
    · rename_i reduced bytes hstage
      split
      · exact ⟨h, rfl, rfl⟩
      · refine ⟨?_, rfl, rfl⟩
        exact h.change_idle ha (by rw [hstage]; rfl)
          (fun item => { item with
            confirmedAt := none, stage := .AwaitingConfirmation target reduced bytes })
          (fun _ => rfl) (fun _ => rfl) rfl rfl
    · exact ⟨h, rfl, rfl⟩

theorem quiet_queueConfirmation (h : Sound s) (workId : DeletionWorkId) (target : FileToDelete)
    (now : Nat) : Quiet s ⟨(s.work.queueConfirmation workId target now).1, s.withWorker⟩ := by
  unfold DeletionWork.queueConfirmation
  split
  · exact ⟨h, rfl, rfl⟩
  · rename_i item hfind
    obtain ⟨ha, rfl⟩ := find_item hfind
    split
    · rename_i reduced bytes hstage
      split
      · exact ⟨h, rfl, rfl⟩
      · refine ⟨?_, rfl, rfl⟩
        exact h.change_idle ha (by rw [hstage]; rfl)
          (fun item => { item with
            confirmedAt := some now, stage := .QueuedPlanning target reduced bytes })
          (fun _ => rfl) (fun _ => rfl) rfl rfl
    · exact ⟨h, rfl, rfl⟩

theorem quiet_cancelModal (h : Sound s) (workId : DeletionWorkId) :
    Quiet s ⟨(s.work.cancelModal workId).1, s.withWorker⟩ := by
  unfold DeletionWork.cancelModal
  split
  · exact ⟨h, rfl, rfl⟩
  · rename_i item hfind
    obtain ⟨ha, rfl⟩ := find_item hfind
    split
    · rename_i hstage
      exact ⟨h.mark_cancelling ha hstage, rfl, rfl⟩
    all_goals rename_i hstage
    · exact ⟨h.remove_idle ha (by rw [hstage]; rfl), rfl, rfl⟩
    · exact ⟨h.remove_idle ha (by rw [hstage]; rfl), rfl, rfl⟩
    · exact ⟨h.remove_idle ha (by rw [hstage]; rfl), rfl, rfl⟩
    · exact ⟨h.remove_idle ha (by rw [hstage]; rfl), rfl, rfl⟩
    · exact ⟨h, rfl, rfl⟩
    · exact ⟨h, rfl, rfl⟩

/-- Discarding takes the item off the rail, out of its lane first. -/
theorem discard_cases (h : Sound s) (workId : DeletionWorkId) :
    (s.work.discard workId).1 = s.work ∨ ∃ item ∈ s.work.items, item.id = workId ∧
      ((item.stage.lane = none ∧ (s.work.discard workId).1 = s.work.removeItem workId) ∨
        ∃ lane, item.stage.lane = some lane ∧
          Released s (s.work.finishLease workId .Cancelled).1 workId ∧ (s.work.discard workId).1 =
            (s.work.finishLease workId .Cancelled).1.removeItem workId) := by
  unfold DeletionWork.discard
  cases hfind : s.work.findItem workId with
  | none =>
    rw [finishLease_unheld (h.no_lease_of_absent hfind)]
    simp only [hfind]
    exact Or.inl trivial
  | some item =>
    obtain ⟨ha, rfl⟩ := find_item hfind
    refine Or.inr ⟨item, ha, rfl, ?_⟩
    have hsettled := h.settled item ha
    cases hlane : item.stage.lane with
    | none =>
      rw [settled_of_idle hlane] at hsettled
      rw [finishLease_unheld hsettled.1.1]
      simp only [hfind]
      exact Or.inl ⟨trivial, trivial⟩
    | some lane =>
      rw [settled_of_lane hlane] at hsettled
      obtain ⟨⟨l, hl, -, -⟩, -⟩ := hsettled
      obtain ⟨hr, -⟩ := finishLease_held h hl .Cancelled
      have hfind' : (s.work.finishLease item.id .Cancelled).1.findItem item.id = some item := by
        rw [← hfind, DeletionWork.findItem, DeletionWork.findItem, hr.items]
      simp only [hfind']
      exact Or.inr ⟨lane, rfl, hr, trivial⟩

theorem quiet_discard (h : Sound s) (workId : DeletionWorkId) :
    Quiet s ⟨(s.work.discard workId).1, s.withWorker⟩ := by
  rcases discard_cases h workId with heq | ⟨item, ha, rfl, ⟨hlane, heq⟩ | ⟨lane, -, hr, heq⟩⟩
  · rw [heq]
    exact ⟨h, rfl, rfl⟩
  · rw [heq]
    exact ⟨h.remove_idle ha hlane, rfl, rfl⟩
  · rw [heq]
    exact ⟨h.land_removed ha hr (List.Sublist.refl _) fun _ _ => Iff.rfl, hr.nextId, hr.nextLease⟩

theorem stage_of_isPlanning {stage : DeletionWorkStage} (h : stage.isPlanning = true) :
    stage = .Planning := by
  cases stage <;> simp [DeletionWorkStage.isPlanning] at h
  rfl

/-- With no planning item left, what `cancel_pending` drops holds nothing. -/
theorem Sound.keep_lanes (h : Sound s)
    (hnone : ∀ b ∈ s.work.items, b.stage.isPlanning = false) :
    Sound ⟨{ s.work with
      items := s.work.items.filter fun item => item.stage.isExecuting ||
        (item.stage.isPlanningOrCancelling && !item.stage.isPlanning) }, s.withWorker⟩ := by
  refine h.shrink List.filter_sublist rfl h.consistent (List.Sublist.refl _) ?_
    (List.Sublist.refl _) ?_
  · intro e he
    obtain ⟨b, hb, hbid, lane, hlane, -⟩ := h.lane_of_lease he
    refine ⟨b, List.mem_filter.mpr ⟨hb, ?_⟩, hbid⟩
    have hstage := hnone b hb
    cases hs : b.stage <;>
      simp [hs, DeletionWorkStage.lane, DeletionWorkStage.isPlanning] at hlane hstage <;>
      simp [DeletionWorkStage.isExecuting, DeletionWorkStage.isPlanningOrCancelling,
        DeletionWorkStage.isPlanning]
  · intro b hb
    exact h.settled b (List.mem_of_mem_filter hb)

/-- `cancel_pending` marks the planning item, if there is one, and drops the rest. -/
theorem cancelPending_marks (h : Sound s) :
    ∃ w : DeletionWork,
      (w = s.work ∨ ∃ x ∈ s.work.items, x.stage = .Planning ∧
        w = s.work.updateItem x.id fun item => { item with stage := .CancellingPlanning }) ∧
      (∀ b ∈ w.items, b.stage.isPlanning = false) ∧
      s.work.cancelPending.1 = { w with
        items := w.items.filter fun item => item.stage.isExecuting ||
          (item.stage.isPlanningOrCancelling && !item.stage.isPlanning) } := by
  have hone : ∀ x ∈ s.work.items, ∀ y ∈ s.work.items, x.stage.isPlanning = true →
      y.stage.isPlanning = true → x.id = y.id := by
    intro x hx y hy hxp hyp
    refine h.lane_unique x hx y hy .planner ?_ ?_
    · rw [stage_of_isPlanning hxp]
      rfl
    · rw [stage_of_isPlanning hyp]
      rfl
  have hlength := Keyed.length_filter_le_one h.ids_nodup hone
  unfold DeletionWork.cancelPending
  dsimp only
  rcases hp : s.work.items.filter (fun item => item.stage.isPlanning) with _ | ⟨x, _ | ⟨y, rest⟩⟩
  · refine ⟨s.work, Or.inl rfl, ?_, by rw [hp]; rfl⟩
    intro b hb
    rw [List.filter_eq_nil_iff] at hp
    simpa using hp b hb
  · obtain ⟨hx, hxp⟩ := List.mem_filter.mp (hp ▸ List.mem_singleton_self x)
    refine ⟨_, Or.inr ⟨x, hx, stage_of_isPlanning hxp, rfl⟩, ?_, by rw [hp]; rfl⟩
    intro b hb
    simp only [DeletionWork.updateItem] at hb
    rw [Keyed.mem_updateFirst h.ids_nodup (Keyed.find?_key h.ids_nodup hx)] at hb
    rcases hb with rfl | ⟨hb, hne⟩
    · rfl
    · rw [Bool.eq_false_iff]
      exact fun hbp => hne (hone b hb x hx hbp hxp)
  · simp [hp] at hlength

theorem quiet_cancelPending (h : Sound s) :
    Quiet s ⟨s.work.cancelPending.1, s.withWorker⟩ := by
  obtain ⟨w, hw, hnone, heq⟩ := cancelPending_marks h
  rw [heq]
  rcases hw with rfl | ⟨x, hx, hstage, rfl⟩
  · exact ⟨h.keep_lanes hnone, rfl, rfl⟩
  · exact ⟨(h.mark_cancelling hx hstage).keep_lanes hnone, rfl, rfl⟩

/-! ## New items -/

theorem targetsOverlap_any {items : List DeletionWorkItem} {path : NativePath}
    (h : ¬(items.any fun item => targetsOverlap item.path path) = true) :
    ∀ item ∈ items, targetsOverlap item.path path = false := by
  intro item hitem
  rw [Bool.eq_false_iff]
  exact fun hov => h (List.any_eq_true.mpr ⟨item, hitem, hov⟩)

theorem Sound.append (h : Sound s) {item : DeletionWorkItem}
    (hid : item.id.value = s.work.nextId + 1) (hidle : item.stage.lane = none)
    (hnot : item.stage.isQueuedExecution = false)
    (hroom : s.work.items.length < maxDeletionWorkItems)
    (hapart : ∀ b ∈ s.work.items, targetsOverlap b.path item.path = false) :
    Sound ⟨{ s.work with items := s.work.items ++ [item], nextId := s.work.nextId + 1 },
      s.withWorker⟩ := by
  have hfresh : ∀ id : DeletionWorkId, id.value ≤ s.work.nextId → id ≠ item.id := by
    rintro id hle rfl
    omega
  refine ⟨h.consistent, ?_, ?_, ?_, ?_, ?_, h.leases_nodup, ?_, h.commands_nodup, ?_, ?_⟩
  · rw [List.length_append, List.length_singleton]
    exact hroom
  · rw [List.map_append, List.map_singleton]
    refine h.ids_nodup.append (List.nodup_singleton _) ?_
    intro id hmem hsingle
    obtain ⟨b, hb, rfl⟩ := List.mem_map.mp hmem
    exact hfresh b.id (h.ids_issued b hb) (List.mem_singleton.mp hsingle)
  · intro b hb
    rcases List.mem_append.mp hb with hb | hb
    · exact (h.ids_issued b hb).trans (Nat.le_succ _)
    · rw [List.mem_singleton.mp hb, hid]
  · rw [List.map_append, List.map_singleton, List.pairwise_append]
    refine ⟨h.apart, List.pairwise_singleton _ _, ?_⟩
    intro x hx y hy
    obtain ⟨b, hb, rfl⟩ := List.mem_map.mp hx
    rw [List.mem_singleton.mp hy]
    exact hapart b hb
  · intro b hb d hd lane hbl hdl
    rcases List.mem_append.mp hb with hb | hb
    · rcases List.mem_append.mp hd with hd | hd
      · exact h.lane_unique b hb d hd lane hbl hdl
      · rw [List.mem_singleton.mp hd, hidle] at hdl
        simp at hdl
    · rw [List.mem_singleton.mp hb, hidle] at hbl
      simp at hbl
  · intro e he
    obtain ⟨b, hb, hbid⟩ := h.lease_item e he
    exact ⟨b, List.mem_append_left _ hb, hbid⟩
  · intro command hcommand
    exact (h.commands_issued command hcommand).trans (Nat.le_succ _)
  · intro b hb
    rcases List.mem_append.mp hb with hb | hb
    · exact h.settled b hb
    · rw [List.mem_singleton.mp hb, settled_of_idle hidle]
      refine ⟨⟨?_, ?_⟩, by simp [hnot]⟩
      · intro e he
        obtain ⟨d, hd, hdid⟩ := h.lease_item e he
        exact hdid ▸ hfresh d.id (h.ids_issued d hd)
      · intro command hcommand
        exact hfresh command.workId (h.commands_issued command hcommand)

theorem sound_enqueue (h : Sound s) {path : NativePath} {target : Option FileToDelete}
    {stage : DeletionWorkStage} {confirmedAt : Option Nat} {historyBytes : Nat}
    (hidle : stage.lane = none) (hnot : stage.isQueuedExecution = false)
    (hroom : s.work.nextId + 1 < 2 ^ 64) {id : DeletionWorkId}
    (hok : (s.work.enqueue path target stage confirmedAt historyBytes).2 = .ok id) :
    Sound ⟨(s.work.enqueue path target stage confirmedAt historyBytes).1, s.withWorker⟩ ∧
      (s.work.enqueue path target stage confirmedAt historyBytes).1.nextId = s.work.nextId + 1 ∧
      (s.work.enqueue path target stage confirmedAt historyBytes).1.coordinator =
        s.work.coordinator := by
  have hnext : s.work.nextWorkId = ({ s.work with nextId := s.work.nextId + 1 },
      ⟨s.work.nextId + 1⟩) := by
    unfold DeletionWork.nextWorkId
    rw [Nat.mod_eq_of_lt hroom]
    simp
  unfold DeletionWork.enqueue at hok ⊢
  split at hok
  · simp at hok
  rename_i hfull
  split at hok
  · simp at hok
  rename_i hoverlap
  rw [if_neg hfull, if_neg hoverlap, hnext]
  refine ⟨h.append rfl hidle hnot (Nat.lt_of_not_le hfull) ?_, rfl, rfl⟩
  exact targetsOverlap_any hoverlap

theorem enqueue_refused {w : DeletionWork} {path : NativePath} {target : Option FileToDelete}
    {stage : DeletionWorkStage} {confirmedAt : Option Nat} {historyBytes : Nat}
    {error : DeletionWorkError}
    (herror : (w.enqueue path target stage confirmedAt historyBytes).2 = .error error) :
    (w.enqueue path target stage confirmedAt historyBytes).1 = w := by
  unfold DeletionWork.enqueue at herror ⊢
  split at herror
  · rename_i hfull
    rw [if_pos hfull]
  · rename_i hfull
    rw [if_neg hfull]
    split at herror
    · rename_i hoverlap
      rw [if_pos hoverlap]
    · simp at herror

/-! ## The coordinator's other clients -/

theorem scanWork_ne_lane {kind : WorkKind} {lane : Lane} (hscan : kind.isScanWork = true) :
    kind ≠ lane.kind := by
  rintro rfl
  cases lane <;> simp [Lane.kind, WorkKind.isScanWork] at hscan

theorem not_ends_scanCall {call : ScanCoordinator.Call} (hscan : isScanCall call = true)
    {answer : ScanCoordinator.Answer} {l : WorkLease} {lane : Lane} (hl : l.key.kind = lane.kind) :
    ScanCoordinator.ends (call, answer) l = false := by
  have hresult : ∀ lease : WorkLease, lease.key.kind.isScanWork = true → lease ≠ l := by
    rintro lease hlease rfl
    exact scanWork_ne_lane hlease hl
  have henumerate : ScanCoordinator.isEnumerate l.key = false := by
    cases lane <;> simp [ScanCoordinator.isEnumerate, hl, Lane.kind]
  cases call with
  | finish lease completion =>
    cases answer with
    | finished outcome => cases outcome <;> simp [ScanCoordinator.ends, hresult lease hscan]
    | _ => rfl
  | requeue lease =>
    cases answer with
    | requeued outcome => cases outcome <;> simp [ScanCoordinator.ends, hresult lease hscan]
    | _ => rfl
  | cancelScanWork | failScanWork | invalidateScanWork => exact henumerate
  | schedule | focus | leaseNextScan | leaseExact => rfl
  | _ => simp [isScanCall] at hscan

theorem sound_shared (h : Sound s) (call : ScanCall)
    (hroom : (s.work.coordinator.answer call.call).2.granted.isSome →
      s.work.coordinator.nextLease < satMax 64) :
    Sound ⟨{ s.work with coordinator := (s.work.coordinator.answer call.call).1 },
      s.withWorker⟩ := by
  refine h.move_coordinator (ScanCoordinator.consistent_answer h.consistent _ hroom) ?_
  intro e he
  obtain ⟨-, -, -, lane, -, hkind, hactive, -⟩ := h.lane_of_lease he
  exact ScanCoordinator.active_kept h.consistent call.call hactive
    (not_ends_scanCall call.scan hkind)

theorem quiet_advance (h : Sound s) (generation : ScanGeneration) :
    Quiet s ⟨{ s.work with coordinator := (s.work.coordinator.advance generation).1 },
      s.withWorker⟩ := by
  unfold ScanCoordinator.advance
  split
  · exact ⟨h, rfl, rfl⟩
  · refine ⟨h.move_coordinator (ScanCoordinator.consistent_advanceTo h.consistent _) ?_, rfl,
      ScanCoordinator.advanceTo_nextLease _ _⟩
    intro e he
    obtain ⟨-, -, -, lane, -, hkind, hactive, -⟩ := h.lane_of_lease he
    refine ScanCoordinator.active_kept_advanceTo hactive ?_
    have hscan : e.2.key.kind.isScanWork = false := by
      rw [hkind]
      cases lane <;> rfl
    cases (s.work.coordinator.advanceTo generation).2
    · rfl
    · exact hscan

/-! ## Every call -/

/-- Sound again, with the counters moved by what was handed out. -/
def Steps (s : Rail) (call : Call) : Prop :=
  Sound (s.answer call).1 ∧
    (s.answer call).1.work.nextId = s.work.nextId + issued [(call, (s.answer call).2)] ∧
    (s.answer call).1.work.coordinator.nextLease =
      s.work.coordinator.nextLease + granted [(call, (s.answer call).2)]

theorem granted_submit {taken : DeletionWork × Option DeletionWorkCommand} (accepts : Bool)
    (call : Call) (hsome : taken.2.isSome) :
    granted [(call, (s.submit taken accepts).2)] = 1 := by
  obtain ⟨work, command⟩ := taken
  cases command with
  | none => simp at hsome
  | some command => cases accepts <;> rfl

theorem steps_submit {taken : DeletionWork × Option DeletionWorkCommand}
    (htaken : Taken s taken) (accepts : Bool)
    (hroom : taken.2.isSome → s.work.coordinator.nextLease < satMax 64) (call : Call) :
    Sound (s.submit taken accepts).1 ∧
      (s.submit taken accepts).1.work.nextId =
        s.work.nextId + issued [(call, (s.submit taken accepts).2)] ∧
      (s.submit taken accepts).1.work.coordinator.nextLease =
        s.work.coordinator.nextLease + granted [(call, (s.submit taken accepts).2)] := by
  obtain ⟨work, command⟩ := taken
  obtain ⟨hnextId, htaken⟩ := htaken
  cases command with
  | none => exact ⟨htaken.1, hnextId, htaken.2⟩
  | some command =>
    obtain ⟨hsound, hnext, hreturn⟩ := htaken
    rw [satAdd_of_le (hroom rfl)] at hnext
    cases accepts with
    | true => exact ⟨hsound, hnextId, hnext⟩
    | false =>
      obtain ⟨hrestored, hid, hlease⟩ := hsound.restore hreturn
      exact ⟨hrestored, hid.trans hnextId, hlease.trans hnext⟩

theorem steps_enqueue (h : Sound s) (target : FileToDelete) (reduced : Bool) (bytes now : Nat)
    (hroom : issued [(.enqueueConfirmation target reduced bytes now,
      (s.answer (.enqueueConfirmation target reduced bytes now)).2)] = 1 →
        s.work.nextId + 1 < 2 ^ 64) :
    Steps s (.enqueueConfirmation target reduced bytes now) := by
  unfold Steps
  simp only [answer, DeletionWork.enqueueConfirmation] at hroom ⊢
  generalize hstage : (if reduced = true then DeletionWorkStage.QueuedPlanning target reduced bytes
    else .AwaitingConfirmation target reduced bytes) = stage at hroom ⊢
  have hidle : stage.lane = none := by
    rw [← hstage]
    split <;> rfl
  have hnot : stage.isQueuedExecution = false := by
    rw [← hstage]
    split <;> rfl
  cases hresult : (s.work.enqueue target.fullPath (some target) stage
      (if reduced = true then some now else none) bytes).2 with
  | error error =>
    rw [enqueue_refused hresult]
    exact ⟨h, rfl, rfl⟩
  | ok id =>
    rw [hresult] at hroom
    obtain ⟨hsound, hnextId, hcoordinator⟩ := sound_enqueue h hidle hnot (hroom rfl) hresult
    exact ⟨hsound, hnextId, by rw [hcoordinator]; rfl⟩

theorem issued_append (h h' : List (Call × Answer)) : issued (h ++ h') = issued h + issued h' :=
  List.countP_append

theorem granted_append (h h' : List (Call × Answer)) :
    granted (h ++ h') = granted h + granted h' :=
  List.countP_append

theorem steps_answer (h : Sound s) (call : Call)
    (hids : issued [(call, (s.answer call).2)] = 1 → s.work.nextId + 1 < 2 ^ 64)
    (hleases : granted [(call, (s.answer call).2)] = 1 →
      s.work.coordinator.nextLease < satMax 64) : Steps s call := by
  cases call with
  | enqueueConfirmation target reduced bytes now => exact steps_enqueue h target reduced bytes now hids
  | takeNextConfirmation => exact quiet_takeNextConfirmation h
  | returnConfirmation workId target => exact quiet_returnConfirmation h workId target
  | queueConfirmation workId target now => exact quiet_queueConfirmation h workId target now
  | cancelModal workId => exact quiet_cancelModal h workId
  | cancelPending => exact quiet_cancelPending h
  | discard workId => exact quiet_discard h workId
  | nextPlanningCommand accepts =>
    have hroom : s.work.nextPlanningCommand.2.isSome →
        s.work.coordinator.nextLease < satMax 64 :=
      fun hsome => hleases (granted_submit accepts _ hsome)
    exact steps_submit (taken_planning h hroom) accepts hroom _
  | nextExecutionCommand accepts =>
    have hroom : s.work.nextExecutionCommand.2.isSome →
        s.work.coordinator.nextLease < satMax 64 :=
      fun hsome => hleases (granted_submit accepts _ hsome)
    exact steps_submit (taken_execution h hroom) accepts hroom _
  | result workId result =>
    obtain ⟨hsound, hnextId, hnext⟩ := sound_receive h workId result
    have hnothing : issued [(.result workId result, (s.receive workId result).2)] = 0 ∧
        granted [(.result workId result, (s.receive workId result).2)] = 0 := by
      unfold receive
      split <;> exact ⟨rfl, rfl⟩
    refine ⟨hsound, ?_, ?_⟩
    · simpa only [answer, hnothing.1, Nat.add_zero] using hnextId
    · simpa only [answer, hnothing.2, Nat.add_zero] using hnext
  | advanceGeneration generation => exact quiet_advance h generation
  | shared call =>
    have hroom : (s.work.coordinator.answer call.call).2.granted.isSome →
        s.work.coordinator.nextLease < satMax 64 := by
      intro hsome
      exact hleases (by simp [granted, answer, hsome])
    refine ⟨sound_shared h call hroom, rfl, ?_⟩
    have hnext := ScanCoordinator.nextLease_answer s.work.coordinator call.call
    simp only [answer, granted, List.countP_singleton]
    rw [hnext]
    split
    · rename_i hsome
      exact satAdd_of_le (hroom hsome)
    · rfl

theorem sound_new (session : ScanSessionId) (generation : ScanGeneration) :
    Sound (new session generation) where
  consistent := ScanCoordinator.consistent_new session generation
  bounded := by simp [new, DeletionWork.newForCoordinator]
  ids_nodup := List.nodup_nil
  ids_issued := by simp [new, DeletionWork.newForCoordinator]
  apart := List.Pairwise.nil
  lane_unique := by simp [new, DeletionWork.newForCoordinator]
  leases_nodup := List.nodup_nil
  lease_item := by simp [new, DeletionWork.newForCoordinator]
  commands_nodup := List.nodup_nil
  commands_issued := by simp [new]
  settled := by simp [new, DeletionWork.newForCoordinator]

/-- Before ids or leases run out, every state of a run is sound and the counters have moved
by what was handed out. -/
theorem counts_run {session : ScanSessionId} {generation : ScanGeneration} {calls : List Call}
    (hids : issued (machine.trace (new session generation) calls) < 2 ^ 64)
    (hleases : granted (machine.trace (new session generation) calls) < 2 ^ 64) :
    Sound (machine.run (new session generation) calls) ∧
      (machine.run (new session generation) calls).work.nextId =
        issued (machine.trace (new session generation) calls) ∧
      (machine.run (new session generation) calls).work.coordinator.nextLease =
        granted (machine.trace (new session generation) calls) := by
  refine machine.run_induction (P := fun h s => issued h < 2 ^ 64 → granted h < 2 ^ 64 →
    Sound s ∧ s.work.nextId = issued h ∧ s.work.coordinator.nextLease = granted h) ?_ ?_ calls
    hids hleases
  · exact fun _ _ => ⟨sound_new session generation, rfl, rfl⟩
  · intro h s call ih hi hg
    change issued (h ++ [(call, (s.answer call).2)]) < 2 ^ 64 at hi
    change granted (h ++ [(call, (s.answer call).2)]) < 2 ^ 64 at hg
    change Sound (s.answer call).1 ∧
      (s.answer call).1.work.nextId = issued (h ++ [(call, (s.answer call).2)]) ∧
      (s.answer call).1.work.coordinator.nextLease = granted (h ++ [(call, (s.answer call).2)])
    rw [issued_append] at hi ⊢
    rw [granted_append] at hg ⊢
    obtain ⟨hs, hnextId, hnext⟩ := ih (by omega) (by omega)
    obtain ⟨hsound, hid, hlease⟩ := steps_answer hs call
      (by intro hone; omega) (by intro hone; rw [satMax]; omega)
    exact ⟨hsound, by omega, by omega⟩

theorem sound_run {session : ScanSessionId} {generation : ScanGeneration} {calls : List Call}
    (hids : issued (machine.trace (new session generation) calls) < 2 ^ 64)
    (hleases : granted (machine.trace (new session generation) calls) < 2 ^ 64) :
    Sound (machine.run (new session generation) calls) :=
  (counts_run hids hleases).1

/-! ## The invariant -/

structure RailInvariant (s : Rail) : Prop where
  bounded : s.work.items.length ≤ maxDeletionWorkItems
  apart : s.work.items.Pairwise fun x y => targetsOverlap x.path y.path = false
  one_planning : (s.work.items.filter fun item => item.stage.isPlanningOrCancelling).length ≤ 1
  one_executing : (s.work.items.filter fun item => item.stage.isExecuting).length ≤ 1
  held_iff : ∀ item ∈ s.work.items,
    (item.stage.isPlanningOrCancelling = true ∨ item.stage.isExecuting = true) ↔
      (∃ l : WorkLease, s.work.leases.filter (fun e => e.1 = item.id) = [(item.id, l)] ∧
        s.work.coordinator.active[l.id]? = some l) ∧
      ∃ command ∈ s.withWorker, command.workId = item.id
  queued_plan : ∀ item ∈ s.work.items, item.stage = .QueuedExecution → item.plan.isSome = true

theorem railInvariant (h : Sound s) : RailInvariant s where
  bounded := h.bounded
  apart := List.pairwise_map.mp h.apart
  one_planning := by
    refine Keyed.length_filter_le_one h.ids_nodup ?_
    intro x hx y hy hxl hyl
    exact h.lane_unique x hx y hy .planner (lane_of_planningOrCancelling.mpr hxl)
      (lane_of_planningOrCancelling.mpr hyl)
  one_executing := by
    refine Keyed.length_filter_le_one h.ids_nodup ?_
    intro x hx y hy hxl hyl
    exact h.lane_unique x hx y hy .executor (lane_of_executing.mpr hxl) (lane_of_executing.mpr hyl)
  held_iff := by
    intro item hitem
    have hsettled := h.settled item hitem
    rw [← lane_of_planningOrCancelling, ← lane_of_executing]
    cases hlane : item.stage.lane with
    | none =>
      rw [settled_of_idle hlane] at hsettled
      simp only [reduceCtorEq, or_self, false_iff, not_and]
      rintro - ⟨command, hcommand, hid⟩
      exact hsettled.1.2 command hcommand hid
    | some lane =>
      rw [settled_of_lane hlane] at hsettled
      obtain ⟨⟨l, hl, -, hactive⟩, command, hcommand, hid, -⟩ := hsettled
      refine ⟨fun _ => ⟨⟨l, ?_, hactive⟩, command, hcommand, hid⟩, ?_⟩
      · exact @Keyed.filter_key_eq_singleton _ _ Prod.fst _ _ _ h.leases_nodup hl
      · intro _
        cases lane
        · exact Or.inl rfl
        · exact Or.inr rfl
  queued_plan := by
    intro item hitem hstage
    have hsettled := h.settled item hitem
    rw [settled_of_idle (by rw [hstage]; rfl)] at hsettled
    obtain ⟨plan, hplan, -⟩ := hsettled.2 (by rw [hstage]; rfl)
    rw [hplan]
    rfl

/-- Every state of every run of the rail, its coordinator shared with any scan. -/
theorem reachable_railInvariant (session : ScanSessionId) (generation : ScanGeneration)
    (calls : List Call)
    (hids : issued (machine.trace (new session generation) calls) < 2 ^ 64)
    (hleases : granted (machine.trace (new session generation) calls) < 2 ^ 64) :
    RailInvariant (machine.run (new session generation) calls) :=
  railInvariant (sound_run hids hleases)

/-- One deletion is planned, given back when the executor is busy, and started; another is
being planned when everything pending is cancelled. -/
theorem reachable_railInvariant_two :
    RailInvariant (machine.run (new ⟨7⟩ ⟨0⟩)
      [.enqueueConfirmation ⟨[[47]], [⟨[97], by decide⟩]⟩ true 10 0, .nextPlanningCommand true,
        .result ⟨1⟩ (.planned ⟨⟨[[47]], [⟨[97], by decide⟩]⟩, 3⟩),
        .enqueueConfirmation ⟨[[47]], [⟨[98], by decide⟩]⟩ true 10 1,
        .nextExecutionCommand false, .nextExecutionCommand true, .nextPlanningCommand true,
        .advanceGeneration ⟨1⟩, .cancelPending]) :=
  reachable_railInvariant _ _ _ (by decide) (by decide)

end Excise.Rail
