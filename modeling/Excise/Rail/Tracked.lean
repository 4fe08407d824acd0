import Excise.Rail.Frame
import Excise.Rail.Reachable

/-!
# What the worker has is on the rail

As long as only idle items are discarded, every command with the worker has its lease stored, so
its item is still there in the lane of the command and takes the result up.
-/

namespace Excise.Rail
set_option autoImplicit false

variable {s s' : Rail} {a : DeletionWorkItem}

def Tracked (s : Rail) : Prop :=
  ∀ command ∈ s.withWorker, ∃ e ∈ s.work.leases, e.1 = command.workId

theorem Tracked.same (h : Tracked s) (hleases : s'.work.leases = s.work.leases)
    (hcommands : ∀ command ∈ s'.withWorker, command ∈ s.withWorker) : Tracked s' := by
  intro command hcommand
  rw [hleases]
  exact h command (hcommands command hcommand)

theorem Tracked.release (h : Tracked s) (hsound : Sound s) {id : DeletionWorkId}
    (hleases : s'.work.leases = s.work.leases.eraseP fun e => e.1 = id)
    (hcommands : ∀ command ∈ s'.withWorker, command ∈ s.withWorker ∧ command.workId ≠ id) :
    Tracked s' := by
  intro command hcommand
  obtain ⟨hold, hne⟩ := hcommands command hcommand
  obtain ⟨e, he, hid⟩ := h command hold
  refine ⟨e, ?_, hid⟩
  rw [hleases, hsound.mem_erased]
  exact ⟨he, hid ▸ hne⟩

theorem tracked_submit (h : Tracked s) (hsound : Sound s) {lane : Lane}
    {taken : DeletionWork × Option DeletionWorkCommand} (hlaunched : Launched s lane taken)
    (hroom : taken.2.isSome → s.work.coordinator.nextLease < satMax 64) (accepts : Bool) :
    Tracked (s.submit taken accepts).1 := by
  have htaken := hlaunched.sound hsound hroom
  cases hlaunched with
  | nothing => exact h.same rfl fun _ hcommand => hcommand
  | refused b priority hb hwaits hnone => exact h.same rfl fun _ hcommand => hcommand
  | taken b priority l f command hb hwaits hl hid hpath hrel hlane hfree hcommand hplan hreturns
      hplanPath =>
    obtain ⟨-, hafter, -, hreturn⟩ := htaken
    have hnew : Tracked ⟨DeletionWork.updateItem
        ⟨s.work.items, (s.work.coordinator.acquire lane.kind b.relativePath priority).1,
          s.work.leases ++ [(b.id, l)], s.work.nextId⟩ b.id f, s.withWorker ++ [command]⟩ := by
      intro c hc
      rcases List.mem_append.mp hc with hc | hc
      · obtain ⟨e, he, heid⟩ := h c hc
        exact ⟨e, List.mem_append_left _ he, heid⟩
      · rw [List.mem_singleton.mp hc]
        exact ⟨(b.id, l), List.mem_append_right _ (List.mem_singleton_self _), hcommand.symm⟩
    cases accepts with
    | true => exact hnew
    | false =>
      obtain ⟨d, lane', g, hg⟩ := restored hafter hreturn
      have hsettled := hafter.settled d hg.mem
      rw [settled_of_lane hg.in_lane] at hsettled
      obtain ⟨⟨l', hl', -, -⟩, -⟩ := hsettled
      refine @Tracked.release _ _ hnew hafter d.id ?_ ?_
      · simp only [submit, Bool.false_eq_true, if_false]
        rw [hg.eq]
        exact (requeueLease_held hafter hl').1.leases
      · intro c hc
        have hnodup := hafter.commands_nodup
        rw [List.map_append, List.map_singleton] at hnodup
        refine ⟨List.mem_append_left _ hc, ?_⟩
        rw [← hg.command_id]
        exact (List.nodup_append.mp hnodup).2.2 _ (List.mem_map_of_mem hc) _
          (List.mem_singleton_self _)

theorem Tracked.item (h : Tracked s) (hsound : Sound s) {command : DeletionWorkCommand}
    (hcommand : command ∈ s.withWorker) :
    ∃ item ∈ s.work.items, item.id = command.workId ∧
      ∃ lane, item.stage.lane = some lane ∧ command.isPlan = lane.isPlan := by
  obtain ⟨e, he, hid⟩ := h command hcommand
  obtain ⟨item, hitem, hitemid⟩ := hsound.lease_item e he
  exact ⟨item, hitem, hitemid.trans hid, hsound.lane_of_command hcommand hitem (hitemid.trans hid)⟩

theorem tracked_receive (h : Tracked s) (hsound : Sound s) (workId : DeletionWorkId)
    (result : WorkerResult) : Tracked (s.receive workId result).1 := by
  unfold receive
  cases hcommand : s.withWorker.find? (answersTo workId result) with
  | none => exact h
  | some command =>
    have hmem := List.mem_of_find?_eq_some hcommand
    obtain ⟨rfl, hkind⟩ := answersTo_iff.mp (List.find?_some hcommand)
    obtain ⟨item, hitem, hid, lane, hlane, hplan⟩ := h.item hsound hmem
    have hrest : ∀ x ∈ s.withWorker.eraseP (answersTo command.workId result),
        x ∈ s.withWorker ∧ x.workId ≠ item.id := by
      intro x hx
      rw [hid]
      exact (Keyed.mem_eraseP hsound.commands_nodup hcommand).mp hx
    have hlanded := landed_handle hsound hitem hlane (hkind ▸ hplan)
    dsimp only
    rw [hid] at hlanded
    generalize (handle s.work command.workId result).1 = w at hlanded ⊢
    cases hlanded with
    | removed w' hr heq =>
      subst heq
      exact h.release hsound hr.leases hrest
    | planned w' plan hr hpath heq =>
      subst heq
      exact h.release hsound hr.leases hrest

/-- A report on a command the worker has is always taken up. -/
theorem received_executed (h : Tracked s) (hsound : Sound s) (workId : DeletionWorkId)
    (completion : WorkCompletion) :
    (s.receive workId (.executed completion)).2 = .nothing ∨
      (s.receive workId (.executed completion)).2 = .done true := by
  unfold receive
  cases hcommand : s.withWorker.find? (answersTo workId (.executed completion)) with
  | none => exact Or.inl rfl
  | some command =>
    have hmem := List.mem_of_find?_eq_some hcommand
    obtain ⟨rfl, hkind⟩ := answersTo_iff.mp (List.find?_some hcommand)
    obtain ⟨item, hitem, hid, lane, hlane, hplan⟩ := h.item hsound hmem
    refine Or.inr ?_
    have hexecutor : lane = .executor := by
      cases lane with
      | planner => rw [hplan] at hkind; cases hkind
      | executor => rfl
    subst hexecutor
    obtain ⟨hok, -⟩ := landed_finishStage hsound hitem hlane (lane_of_executing.mp hlane) completion
    rw [hid] at hok
    have hdone : s.work.executionFinished command.workId completion =
        ((s.work.executionFinished command.workId completion).1, true) := Prod.ext rfl hok
    dsimp only [handle]
    rw [hdone]

/-! ## Every call -/

theorem discard_idle_leases (hsound : Sound s) {workId : DeletionWorkId}
    (hidle : ∀ item ∈ s.work.items, item.id = workId → item.stage.lane = none) :
    (s.work.discard workId).1.leases = s.work.leases := by
  have hunheld : s.work.finishLease workId .Cancelled = (s.work, false) := by
    cases hfind : s.work.findItem workId with
    | none => exact finishLease_unheld (hsound.no_lease_of_absent hfind) _
    | some item =>
      obtain ⟨hitem, rfl⟩ := find_item hfind
      have hsettled := hsound.settled item hitem
      rw [settled_of_idle (hidle item hitem rfl)] at hsettled
      exact finishLease_unheld hsettled.1.1 _
  unfold DeletionWork.discard
  rw [hunheld]
  dsimp only
  split <;> rfl

theorem tracked_answer (h : Tracked s) (hsound : Sound s) (call : Call)
    (hdiscard : ∀ workId, call = .discard workId →
      ∀ item ∈ s.work.items, item.id = workId → item.stage.lane = none)
    (hleases : granted [(call, (s.answer call).2)] = 1 →
      s.work.coordinator.nextLease < satMax 64) : Tracked (s.answer call).1 := by
  have hsame : ∀ w : DeletionWork, w.leases = s.work.leases → Tracked ⟨w, s.withWorker⟩ :=
    fun w hw => h.same hw fun _ hcommand => hcommand
  cases call with
  | enqueueConfirmation target reduced bytes now =>
    refine hsame _ ?_
    unfold DeletionWork.enqueueConfirmation DeletionWork.enqueue
    dsimp only
    split
    · rfl
    · split <;> rfl
  | takeNextConfirmation =>
    refine hsame _ ?_
    unfold DeletionWork.takeNextConfirmation
    split
    · rfl
    · split <;> rfl
  | returnConfirmation workId target =>
    refine hsame _ ?_
    unfold DeletionWork.returnConfirmation
    split
    · rfl
    · split
      · split <;> rfl
      · rfl
  | queueConfirmation workId target now =>
    refine hsame _ ?_
    unfold DeletionWork.queueConfirmation
    split
    · rfl
    · split
      · split <;> rfl
      · rfl
  | cancelModal workId =>
    refine hsame _ ?_
    unfold DeletionWork.cancelModal
    split
    · rfl
    · split <;> rfl
  | cancelPending =>
    refine hsame _ ?_
    obtain ⟨w, hw, -, heq⟩ := cancelPending_marks hsound
    rw [heq]
    rcases hw with rfl | ⟨x, -, -, rfl⟩
    · rfl
    · rfl
  | discard workId => exact hsame _ (discard_idle_leases hsound (hdiscard workId rfl))
  | nextPlanningCommand accepts =>
    refine tracked_submit h hsound (launched_planning hsound) ?_ accepts
    exact fun hsome => hleases (granted_submit accepts _ hsome)
  | nextExecutionCommand accepts =>
    refine tracked_submit h hsound (launched_execution hsound) ?_ accepts
    exact fun hsome => hleases (granted_submit accepts _ hsome)
  | result workId result => exact tracked_receive h hsound workId result
  | advanceGeneration generation => exact hsame _ rfl
  | shared call => exact hsame _ rfl

/-- A state some run of the rail can be in, with the counters where the trace left them. -/
structure Tracks (h : List (Call × Answer)) (s : Rail) : Prop where
  sound : Sound s
  tracked : Tracked s
  nextId : s.work.nextId = issued h
  nextLease : s.work.coordinator.nextLease = granted h

theorem tracks_new (session : ScanSessionId) (generation : ScanGeneration) :
    Tracks [] (new session generation) where
  sound := sound_new session generation
  tracked := by
    intro command hcommand
    cases hcommand
  nextId := rfl
  nextLease := rfl

theorem Tracks.step {h : List (Call × Answer)} (ht : Tracks h s) (call : Call)
    (hdiscard : ∀ workId, call = .discard workId →
      ∀ item ∈ s.work.items, item.id = workId → item.stage.lane = none)
    (hids : issued (h ++ [(call, (s.answer call).2)]) < 2 ^ 64)
    (hleases : granted (h ++ [(call, (s.answer call).2)]) < 2 ^ 64) :
    Tracks (h ++ [(call, (s.answer call).2)]) (s.answer call).1 := by
  have hissued := issued_append h [(call, (s.answer call).2)]
  have hgranted := granted_append h [(call, (s.answer call).2)]
  have hnextId := ht.nextId
  have hnextLease := ht.nextLease
  have hroom : granted [(call, (s.answer call).2)] = 1 →
      s.work.coordinator.nextLease < satMax 64 := by
    intro hone
    rw [satMax]
    omega
  obtain ⟨hsound, hid, hlease⟩ := steps_answer ht.sound call (by intro hone; omega) hroom
  exact ⟨hsound, tracked_answer ht.tracked ht.sound call hdiscard hroom, by omega, by omega⟩

end Excise.Rail
