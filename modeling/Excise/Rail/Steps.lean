import Excise.Rail.Invariant

/-!
# Every call keeps the rail sound

Launching a command, landing it again, and the operations on idle items. A command given
back at once is a launch followed by a landing.
-/

namespace Excise.Rail
set_option autoImplicit false

variable {s : Rail} {a : DeletionWorkItem}

theorem find_item {id : DeletionWorkId} (h : s.work.findItem id = some a) :
    a ∈ s.work.items ∧ a.id = id := by
  refine ⟨List.mem_of_find?_eq_some h, ?_⟩
  have hid := List.find?_some h
  simpa using hid

theorem Sound.replaces (h : Sound s) (ha : a ∈ s.work.items) {w : DeletionWork}
    (f : DeletionWorkItem → DeletionWorkItem) (hid : ∀ x, (f x).id = x.id)
    (hpath : ∀ x, (f x).path = x.path) (hitems : w.items = s.work.items)
    (hnextId : w.nextId = s.work.nextId) (commands : List DeletionWorkCommand) :
    Replaces s ⟨w.updateItem a.id f, commands⟩ a (f a) where
  mem b := by
    simp only [DeletionWork.updateItem, hitems]
    exact Keyed.mem_updateFirst h.ids_nodup (Keyed.find?_key h.ids_nodup ha)
  ids := by
    simp only [DeletionWork.updateItem, hitems]
    exact Keyed.map_updateFirst hid
  paths := by
    simp only [DeletionWork.updateItem, hitems]
    exact Keyed.map_updateFirst hpath
  id_eq := hid a
  nextId := hnextId

theorem Sound.keeps_released (h : Sound s) {w : DeletionWork} {id : DeletionWorkId}
    (hr : Released s w id) (w' : DeletionWork) (hleases : w'.leases = w.leases)
    (hcoordinator : w'.coordinator = w.coordinator) {commands : List DeletionWorkCommand}
    (hcommands : ∀ command : DeletionWorkCommand, command.workId ≠ id →
      (command ∈ commands ↔ command ∈ s.withWorker)) : KeepsOthers s ⟨w', commands⟩ id where
  leases e hne := by
    simp only [hleases, hr.leases, h.mem_erased]
    exact ⟨fun he => he.1, fun he => ⟨he, hne⟩⟩
  commands := hcommands
  active e he hne := by
    simp only [hcoordinator]
    exact hr.active e he hne

/-! ## Landing -/

/-- The lease and the command of an item are gone and the item waits again. -/
theorem Sound.land (h : Sound s) (ha : a ∈ s.work.items) {w : DeletionWork}
    (hr : Released s w a.id) (f : DeletionWorkItem → DeletionWorkItem)
    (hid : ∀ x, (f x).id = x.id) (hpath : ∀ x, (f x).path = x.path)
    (hidle : (f a).stage.lane = none)
    (hplan : (f a).stage.isQueuedExecution = true →
      ∃ plan, (f a).plan = some plan ∧ plan.target.fullPath = (f a).path)
    {commands : List DeletionWorkCommand}
    (hcommands : ∀ command, command ∈ commands ↔
      command ∈ s.withWorker ∧ command.workId ≠ a.id)
    (hnodup : (commands.map DeletionWorkCommand.workId).Nodup) :
    Sound ⟨w.updateItem a.id f, commands⟩ := by
  have hkeep : KeepsOthers s ⟨w.updateItem a.id f, commands⟩ a.id := by
    refine h.keeps_released hr (w.updateItem a.id f) rfl rfl ?_
    intro command hne
    rw [hcommands]
    exact ⟨fun hc => hc.1, fun hc => ⟨hc, hne⟩⟩
  refine h.replace ha (h.replaces ha f hid hpath hr.items hr.nextId commands) hkeep hr.consistent
    ?_ hnodup ?_ ?_
  · simp only [DeletionWork.updateItem, hr.leases]
    exact Keyed.nodup_eraseP h.leases_nodup
  · rw [settled_of_idle hidle]
    refine ⟨⟨?_, ?_⟩, hplan⟩
    · intro e he
      simp only [DeletionWork.updateItem, hr.leases, h.mem_erased] at he
      rw [hid]
      exact he.2
    · intro command hcommand
      rw [hid]
      exact ((hcommands command).mp hcommand).2
  · intro lane hlane
    rw [hidle] at hlane
    simp at hlane

/-- The item leaves the rail with its lease. -/
theorem Sound.land_removed (h : Sound s) (ha : a ∈ s.work.items) {w : DeletionWork}
    (hr : Released s w a.id) {commands : List DeletionWorkCommand}
    (hsub : commands.Sublist s.withWorker)
    (hcommands : ∀ command : DeletionWorkCommand, command.workId ≠ a.id →
      (command ∈ commands ↔ command ∈ s.withWorker)) :
    Sound ⟨w.removeItem a.id, commands⟩ := by
  have hmem : ∀ b, b ∈ (w.removeItem a.id).items ↔ b ∈ s.work.items ∧ b.id ≠ a.id := by
    intro b
    simp only [DeletionWork.removeItem, hr.items]
    exact Keyed.mem_eraseP h.ids_nodup (Keyed.find?_key h.ids_nodup ha)
  have hkeep : KeepsOthers s ⟨w.removeItem a.id, commands⟩ a.id :=
    h.keeps_released hr (w.removeItem a.id) rfl rfl hcommands
  refine h.shrink ?_ hr.nextId hr.consistent ?_ ?_ hsub ?_
  · simp only [DeletionWork.removeItem, hr.items]
    exact List.eraseP_sublist
  · simp only [DeletionWork.removeItem, hr.leases]
    exact List.eraseP_sublist
  · intro e he
    simp only [DeletionWork.removeItem, hr.leases, h.mem_erased] at he
    obtain ⟨b, hb, hbid⟩ := h.lease_item e he.1
    exact ⟨b, (hmem b).mpr ⟨hb, hbid ▸ he.2⟩, hbid⟩
  · intro b hb
    obtain ⟨hb, hne⟩ := (hmem b).mp hb
    exact settled_other hkeep hne (h.settled b hb)

theorem released_of_unheld (h : Sound s) {id : DeletionWorkId}
    (hnone : ∀ e ∈ s.work.leases, e.1 ≠ id) : Released s s.work id where
  items := rfl
  nextId := rfl
  leases := by
    rw [List.eraseP_of_forall_not]
    intro e he
    simpa using hnone e he
  consistent := h.consistent
  active e he _ := by
    obtain ⟨-, -, -, -, -, -, hactive, -⟩ := h.lane_of_lease he
    exact hactive
  nextLease := rfl

/-! ## Idle items -/

theorem Sound.change_idle (h : Sound s) (ha : a ∈ s.work.items) (hidle : a.stage.lane = none)
    (f : DeletionWorkItem → DeletionWorkItem) (hid : ∀ x, (f x).id = x.id)
    (hpath : ∀ x, (f x).path = x.path) (hidle' : (f a).stage.lane = none)
    (hplan : (f a).stage.isQueuedExecution = false) :
    Sound ⟨s.work.updateItem a.id f, s.withWorker⟩ := by
  have hsettled := h.settled a ha
  rw [settled_of_idle hidle] at hsettled
  refine h.land ha (released_of_unheld h hsettled.1.1) f hid hpath hidle' ?_ ?_ h.commands_nodup
  · intro hq
    rw [hplan] at hq
    exact absurd hq (by simp)
  · intro command
    exact ⟨fun hc => ⟨hc, hsettled.1.2 command hc⟩, fun hc => hc.1⟩

theorem Sound.remove_idle (h : Sound s) (ha : a ∈ s.work.items) (hidle : a.stage.lane = none) :
    Sound ⟨s.work.removeItem a.id, s.withWorker⟩ := by
  have hsettled := h.settled a ha
  rw [settled_of_idle hidle] at hsettled
  exact h.land_removed ha (released_of_unheld h hsettled.1.1) (List.Sublist.refl _)
    fun _ _ => Iff.rfl

/-- A planning item is told to stop; it keeps its lease and its command. -/
theorem Sound.mark_cancelling (h : Sound s) (ha : a ∈ s.work.items)
    (hstage : a.stage = .Planning) :
    Sound ⟨s.work.updateItem a.id fun item => { item with stage := .CancellingPlanning },
      s.withWorker⟩ := by
  have hlane : a.stage.lane = some .planner := by rw [hstage]; rfl
  have hsettled := h.settled a ha
  rw [settled_of_lane hlane] at hsettled
  have hr := h.replaces ha (fun item => { item with stage := .CancellingPlanning })
    (fun _ => rfl) (fun _ => rfl) rfl rfl s.withWorker
  refine h.replace ha hr ?_ h.consistent h.leases_nodup h.commands_nodup hsettled ?_
  · refine ⟨fun _ _ => Iff.rfl, fun _ _ => Iff.rfl, ?_⟩
    intro e he _
    obtain ⟨-, -, -, -, -, -, hactive, -⟩ := h.lane_of_lease he
    exact hactive
  · intro lane hl b hb hne hbl
    obtain rfl : Lane.planner = lane := Option.some.inj hl
    exact hne (h.lane_unique b hb a ha _ hbl hlane)

/-! ## Launching -/

/-- A waiting item takes a free lane with a lease that was just granted. -/
theorem Sound.launch (h : Sound s) (ha : a ∈ s.work.items) (hidle : a.stage.lane = none)
    (lane : Lane) {c : ScanCoordinator} {l : WorkLease} (hconsistent : c.Consistent)
    (hleased : ScanCoordinator.Leased s.work.coordinator c lane.kind l)
    (f : DeletionWorkItem → DeletionWorkItem) (hid : ∀ x, (f x).id = x.id)
    (hpath : ∀ x, (f x).path = x.path) (hlane : (f a).stage.lane = some lane)
    (hfree : ∀ b ∈ s.work.items, b.stage.lane ≠ some lane) (command : DeletionWorkCommand)
    (hcommand : command.workId = a.id) (hplan : command.isPlan = lane.isPlan) :
    Sound ⟨DeletionWork.updateItem
      ⟨s.work.items, c, s.work.leases ++ [(a.id, l)], s.work.nextId⟩ a.id f,
      s.withWorker ++ [command]⟩ := by
  generalize hw : (⟨s.work.items, c, s.work.leases ++ [(a.id, l)], s.work.nextId⟩ :
    DeletionWork) = w
  have hitems : w.items = s.work.items := by rw [← hw]
  have hnextId : w.nextId = s.work.nextId := by rw [← hw]
  have hleases : w.leases = s.work.leases ++ [(a.id, l)] := by rw [← hw]
  have hcoordinator : w.coordinator = c := by rw [← hw]
  have hsettled := h.settled a ha
  rw [settled_of_idle hidle] at hsettled
  obtain ⟨⟨hnolease, hnocommand⟩, -⟩ := hsettled
  have hkeep : KeepsOthers s ⟨w.updateItem a.id f, s.withWorker ++ [command]⟩ a.id := by
    refine ⟨?_, ?_, ?_⟩
    · intro e hne
      simp only [DeletionWork.updateItem, hleases, List.mem_append, List.mem_singleton]
      exact ⟨fun he => he.resolve_right fun heq => hne (by rw [heq]), Or.inl⟩
    · intro x hne
      rw [List.mem_append, List.mem_singleton]
      exact ⟨fun hx => hx.resolve_right fun heq => hne (by rw [heq, hcommand]), Or.inl⟩
    · intro e he _
      obtain ⟨-, -, -, -, -, -, hactive, -⟩ := h.lane_of_lease he
      have hne : l.id ≠ e.2.id := by
        intro heq
        have hlt := h.consistent.fresh _ _ hactive
        rw [← heq, hleased.id_eq] at hlt
        exact lt_irrefl _ hlt
      simp only [DeletionWork.updateItem, hcoordinator, hleased.active, if_neg hne, hactive]
  have hr := h.replaces ha f hid hpath hitems hnextId (s.withWorker ++ [command])
  refine h.replace ha hr hkeep ?_ ?_ ?_ ?_ ?_
  · simpa only [DeletionWork.updateItem, hcoordinator] using hconsistent
  · simp only [DeletionWork.updateItem, hleases, List.map_append, List.map_singleton]
    refine h.leases_nodup.append (List.nodup_singleton _) ?_
    intro id hmem hsingle
    obtain ⟨e, he, heid⟩ := List.mem_map.mp hmem
    exact hnolease e he (heid.trans (List.mem_singleton.mp hsingle))
  · rw [List.map_append, List.map_singleton]
    refine h.commands_nodup.append (List.nodup_singleton _) ?_
    intro id hmem hsingle
    obtain ⟨x, hx, hxid⟩ := List.mem_map.mp hmem
    exact hnocommand x hx ((hxid.trans (List.mem_singleton.mp hsingle)).trans hcommand)
  · rw [settled_of_lane hlane, hid]
    refine ⟨⟨l, ?_, hleased.kind_eq, ?_⟩, command, ?_, hcommand, hplan⟩
    · simp [DeletionWork.updateItem, hleases]
    · simp [DeletionWork.updateItem, hcoordinator, hleased.active]
    · simp
  · intro lane' hl b hb _
    rw [hlane] at hl
    obtain rfl := Option.some.inj hl
    exact hfree b hb

theorem rememberLease_new {w : DeletionWork} {id : DeletionWorkId} {l : WorkLease}
    (hnone : ∀ e ∈ w.leases, e.1 ≠ id) :
    w.rememberLease id l = { w with leases := w.leases ++ [(id, l)] } := by
  have hfind : w.leases.find? (fun e => e.1 = id) = none := by
    rw [List.find?_eq_none]
    intro e he
    simpa using hnone e he
  simp [DeletionWork.rememberLease, hfind]

/-- The item whose command was just taken can take it back. -/
def Returnable (w : DeletionWork) (command : DeletionWorkCommand) : Prop :=
  ∃ a ∈ w.items, a.id = command.workId ∧ DeletionWork.restoreable command a.stage = true ∧
    ∀ id plan, command = .Execute id plan → plan.target.fullPath = a.path

/-- What taking the next command of a lane can do. -/
def Taken (s : Rail) (taken : DeletionWork × Option DeletionWorkCommand) : Prop :=
  taken.1.nextId = s.work.nextId ∧
  match taken.2 with
  | none => Sound ⟨taken.1, s.withWorker⟩ ∧
      taken.1.coordinator.nextLease = s.work.coordinator.nextLease
  | some command => Sound ⟨taken.1, s.withWorker ++ [command]⟩ ∧
      taken.1.coordinator.nextLease = satAdd 64 s.work.coordinator.nextLease 1 ∧
      Returnable taken.1 command

theorem acquire_none (h : Sound s) {kind : WorkKind} {path : RelativePath}
    {priority : WorkPriority} (hnone : (s.work.coordinator.acquire kind path priority).2 = none) :
    Sound ⟨(s.work.acquireLease kind path priority).1, s.withWorker⟩ ∧
      (s.work.acquireLease kind path priority).1.coordinator.nextLease =
        s.work.coordinator.nextLease := by
  have hspec := ScanCoordinator.acquire_spec h.consistent kind path priority (by simp [hnone])
  rw [hnone] at hspec
  obtain ⟨hconsistent, hactive, hnext⟩ := hspec
  refine ⟨h.move_coordinator hconsistent ?_, hnext⟩
  intro e he
  obtain ⟨-, -, -, -, -, -, heactive, -⟩ := h.lane_of_lease he
  rw [hactive]
  exact heactive

theorem lane_of_planningOrCancelling {stage : DeletionWorkStage} :
    stage.lane = some .planner ↔ stage.isPlanningOrCancelling = true := by
  cases stage <;> simp [DeletionWorkStage.lane, DeletionWorkStage.isPlanningOrCancelling]

theorem lane_of_executing {stage : DeletionWorkStage} :
    stage.lane = some .executor ↔ stage.isExecuting = true := by
  cases stage <;> simp [DeletionWorkStage.lane, DeletionWorkStage.isExecuting]

theorem acquire_some (h : Sound s) {kind : WorkKind} {path : RelativePath}
    {priority : WorkPriority} {l : WorkLease} (hroom : s.work.coordinator.nextLease < satMax 64)
    (hl : (s.work.coordinator.acquire kind path priority).2 = some l) :
    (s.work.coordinator.acquire kind path priority).1.Consistent ∧
      ScanCoordinator.Leased s.work.coordinator
        (s.work.coordinator.acquire kind path priority).1 kind l := by
  have hspec := ScanCoordinator.acquire_spec h.consistent kind path priority fun _ => hroom
  rw [hl] at hspec
  exact hspec

/-- What taking the next command does to the work, before anything is proved of it. -/
inductive Launched (s : Rail) (lane : Lane) : DeletionWork × Option DeletionWorkCommand → Prop
  | nothing : Launched s lane (s.work, none)
  | refused (a : DeletionWorkItem) (priority : WorkPriority) (mem : a ∈ s.work.items)
      (waits : waitsFor lane.kind a.stage = true)
      (none_granted :
        (s.work.coordinator.acquire lane.kind a.relativePath priority).2 = none) :
      Launched s lane ((s.work.acquireLease lane.kind a.relativePath priority).1, none)
  | taken (a : DeletionWorkItem) (priority : WorkPriority) (l : WorkLease)
      (f : DeletionWorkItem → DeletionWorkItem) (command : DeletionWorkCommand)
      (mem : a ∈ s.work.items) (waits : waitsFor lane.kind a.stage = true)
      (granted : (s.work.coordinator.acquire lane.kind a.relativePath priority).2 = some l)
      (same_id : ∀ x, (f x).id = x.id) (same_path : ∀ x, (f x).path = x.path)
      (same_relativePath : ∀ x, (f x).relativePath = x.relativePath)
      (in_lane : (f a).stage.lane = some lane)
      (free : ∀ b ∈ s.work.items, b.stage.lane ≠ some lane)
      (command_id : command.workId = a.id) (command_lane : command.isPlan = lane.isPlan)
      (returns : DeletionWork.restoreable command (f a).stage = true)
      (plan_path : ∀ id plan, command = .Execute id plan → plan.target.fullPath = a.path) :
      Launched s lane (DeletionWork.updateItem
        ⟨s.work.items, (s.work.coordinator.acquire lane.kind a.relativePath priority).1,
          s.work.leases ++ [(a.id, l)], s.work.nextId⟩ a.id f, some command)

theorem launched_planning (h : Sound s) : Launched s .planner s.work.nextPlanningCommand := by
  unfold DeletionWork.nextPlanningCommand
  split
  · exact .nothing
  rename_i hguard
  split
  · exact .nothing
  rename_i item hfind
  have ha := List.mem_of_find?_eq_some hfind
  have hqueued := List.find?_some hfind
  obtain ⟨target, reduced, bytes, hstage⟩ : ∃ target reduced bytes,
      item.stage = .QueuedPlanning target reduced bytes := by
    cases hs : item.stage <;> simp [hs, DeletionWorkStage.isQueuedPlanning] at hqueued
    exact ⟨_, _, _, rfl⟩
  cases hl : (s.work.coordinator.acquire .PlanDeletion item.relativePath .Foreground).2 with
  | none =>
    simp only [DeletionWork.acquireLease, hl]
    exact .refused item .Foreground ha hqueued hl
  | some l =>
    simp only [DeletionWork.acquireLease, hl, hstage]
    have hsettled := h.settled item ha
    rw [settled_of_idle (@idle_of_waitsFor .PlanDeletion _ hqueued)] at hsettled
    rw [rememberLease_new (by simpa [DeletionWork.updateItem] using hsettled.1.1)]
    refine .taken item .Foreground l
      (fun item => { item with stage := .Planning, target := some target })
      (.Plan item.id target reduced bytes) ha hqueued hl (fun _ => rfl) (fun _ => rfl)
      (fun _ => rfl) rfl ?_ rfl rfl rfl ?_
    · intro b hb hlane
      rw [lane_of_planningOrCancelling] at hlane
      exact hguard (List.any_eq_true.mpr ⟨b, hb, hlane⟩)
    · intro id plan heq
      simp at heq

theorem launched_execution (h : Sound s) : Launched s .executor s.work.nextExecutionCommand := by
  unfold DeletionWork.nextExecutionCommand
  split
  · exact .nothing
  rename_i hguard
  split
  · exact .nothing
  rename_i item hfind
  have ha := List.mem_of_find?_eq_some hfind
  have hqueued := List.find?_some hfind
  have hsettled := h.settled item ha
  rw [settled_of_idle (@idle_of_waitsFor .ExecuteDeletion _ hqueued)] at hsettled
  obtain ⟨⟨hnolease, -⟩, hplan⟩ := hsettled
  obtain ⟨plan, hplan, hpath⟩ := hplan hqueued
  have hmatch : ¬item.path ≠ plan.target.fullPath := not_not.mpr hpath.symm
  simp only [hplan, if_neg hmatch]
  cases hl : (s.work.coordinator.acquire .ExecuteDeletion item.relativePath .Safety).2 with
  | none =>
    simp only [DeletionWork.acquireLease, hl]
    exact .refused item .Safety ha hqueued hl
  | some l =>
    simp only [DeletionWork.acquireLease, hl]
    rw [rememberLease_new (by exact hnolease)]
    -- the plan is taken and the stage set in two updates of the same item
    have htwice : ∀ w : DeletionWork, (w.updateItem item.id fun item => { item with plan := none
        }).updateItem item.id (fun item => { item with stage := .Executing plan.plannedEntries }) =
        w.updateItem item.id fun item =>
          { item with plan := none, stage := .Executing plan.plannedEntries } := by
      intro w
      simp only [DeletionWork.updateItem]
      rw [Keyed.updateFirst_updateFirst (by intro x; rfl)]
    rw [htwice]
    refine .taken item .Safety l
      (fun item => { item with plan := none, stage := .Executing plan.plannedEntries })
      (.Execute item.id plan) ha hqueued hl (fun _ => rfl) (fun _ => rfl) (fun _ => rfl) rfl ?_
      rfl rfl rfl ?_
    · intro b hb hlane
      rw [lane_of_executing] at hlane
      exact hguard (List.any_eq_true.mpr ⟨b, hb, hlane⟩)
    · intro id plan' heq
      obtain ⟨-, rfl⟩ := DeletionWorkCommand.Execute.inj heq
      exact hpath

theorem Launched.sound (h : Sound s) {lane : Lane}
    {taken : DeletionWork × Option DeletionWorkCommand} (hlaunched : Launched s lane taken)
    (hroom : taken.2.isSome → s.work.coordinator.nextLease < satMax 64) : Taken s taken := by
  cases hlaunched with
  | nothing => exact ⟨rfl, h, rfl⟩
  | refused a priority ha hwaits hnone =>
    obtain ⟨hsound, hnext⟩ := acquire_none h hnone
    exact ⟨rfl, hsound, hnext⟩
  | taken a priority l f command ha hwaits hl hid hpath hrel hlane hfree hcommand hplan hreturns
      hplanPath =>
    obtain ⟨hconsistent, hleased⟩ := acquire_some h (hroom rfl) hl
    refine ⟨rfl, ?_, hleased.nextLease, f a, ?_, (hid a).trans hcommand.symm, hreturns, ?_⟩
    · exact h.launch ha (idle_of_waitsFor hwaits) lane hconsistent hleased f hid hpath hlane hfree
        command hcommand hplan
    · simp only [DeletionWork.updateItem]
      rw [Keyed.mem_updateFirst h.ids_nodup (Keyed.find?_key h.ids_nodup ha)]
      exact Or.inl rfl
    · intro id plan heq
      rw [hpath]
      exact hplanPath id plan heq

theorem taken_planning (h : Sound s)
    (hroom : s.work.nextPlanningCommand.2.isSome → s.work.coordinator.nextLease < satMax 64) :
    Taken s s.work.nextPlanningCommand :=
  (launched_planning h).sound h hroom

theorem taken_execution (h : Sound s)
    (hroom : s.work.nextExecutionCommand.2.isSome → s.work.coordinator.nextLease < satMax 64) :
    Taken s s.work.nextExecutionCommand :=
  (launched_execution h).sound h hroom

/-- What giving a command back at once does: its lease is requeued and its item waits again. -/
structure Restored (w : DeletionWork) (command : DeletionWorkCommand) (a : DeletionWorkItem)
    (lane : Lane) (g : DeletionWorkItem → DeletionWorkItem) : Prop where
  mem : a ∈ w.items
  command_id : command.workId = a.id
  in_lane : a.stage.lane = some lane
  same_id : ∀ x, (g x).id = x.id
  same_path : ∀ x, (g x).path = x.path
  same_relativePath : ∀ x, (g x).relativePath = x.relativePath
  waits : waitsFor lane.kind (g a).stage = true
  plan : (g a).stage.isQueuedExecution = true →
    ∃ plan, (g a).plan = some plan ∧ plan.target.fullPath = (g a).path
  eq : w.restoreUnsubmitted command = (w.requeueLease a.id).1.updateItem a.id g

theorem restored {w : DeletionWork} {commands : List DeletionWorkCommand}
    {command : DeletionWorkCommand} (h : Sound ⟨w, commands⟩) (hreturn : Returnable w command) :
    ∃ a lane g, Restored w command a lane g := by
  obtain ⟨a, ha, hid, hstage, hpath⟩ := hreturn
  have hfind : w.findItem a.id = some a := Keyed.find?_key h.ids_nodup ha
  have hok : ∀ lane, a.stage.lane = some lane → (w.requeueLease a.id).2 = true := by
    intro lane hlane
    have hsettled := h.settled a ha
    rw [settled_of_lane hlane] at hsettled
    obtain ⟨⟨l, hl, -, -⟩, -⟩ := hsettled
    exact (requeueLease_held h hl).2
  cases command with
  | Plan workId target reduced bytes =>
    simp only [DeletionWorkCommand.workId] at hid
    subst hid
    have hlane : a.stage.lane = some .planner := by
      cases hs : a.stage <;> simp [hs, DeletionWork.restoreable] at hstage
      rfl
    refine ⟨a, .planner, fun item => { item with stage := .QueuedPlanning target reduced bytes },
      ha, rfl, hlane, fun _ => rfl, fun _ => rfl, fun _ => rfl, rfl,
      by simp [DeletionWorkStage.isQueuedExecution], ?_⟩
    simp only [DeletionWork.restoreUnsubmitted, DeletionWorkCommand.workId, hfind, hstage, if_true]
    rw [show w.requeueLease a.id = ((w.requeueLease a.id).1, true) from
      Prod.ext rfl (hok _ hlane)]
  | Execute workId plan =>
    simp only [DeletionWorkCommand.workId] at hid
    subst hid
    have hlane : a.stage.lane = some .executor := by
      cases hs : a.stage <;> simp [hs, DeletionWork.restoreable] at hstage
      rfl
    refine ⟨a, .executor, fun item => { item with plan := some plan, stage := .QueuedExecution },
      ha, rfl, hlane, fun _ => rfl, fun _ => rfl, fun _ => rfl, rfl,
      fun _ => ⟨plan, rfl, hpath _ _ rfl⟩, ?_⟩
    simp only [DeletionWork.restoreUnsubmitted, DeletionWorkCommand.workId, hfind, hstage, if_true]
    rw [show w.requeueLease a.id = ((w.requeueLease a.id).1, true) from
      Prod.ext rfl (hok _ hlane)]

/-- A command given back at once: its item waits again and the worker never had it. -/
theorem Sound.restore {w : DeletionWork} {commands : List DeletionWorkCommand}
    {command : DeletionWorkCommand} (h : Sound ⟨w, commands ++ [command]⟩)
    (hreturn : Returnable w command) :
    Sound ⟨w.restoreUnsubmitted command, commands⟩ ∧
      (w.restoreUnsubmitted command).nextId = w.nextId ∧
      (w.restoreUnsubmitted command).coordinator.nextLease = w.coordinator.nextLease := by
  obtain ⟨a, lane, g, hg⟩ := restored h hreturn
  have hsettled := h.settled a hg.mem
  rw [settled_of_lane hg.in_lane] at hsettled
  obtain ⟨⟨l, hl, -, -⟩, -⟩ := hsettled
  have hr := (requeueLease_held h hl).1
  have hothers : ∀ x, x ∈ commands ↔ x ∈ commands ++ [command] ∧ x.workId ≠ a.id := by
    have hnodup := h.commands_nodup
    simp only [List.map_append, List.map_singleton] at hnodup
    obtain ⟨-, -, hdisjoint⟩ := List.nodup_append.mp hnodup
    intro x
    rw [List.mem_append, List.mem_singleton, ← hg.command_id]
    constructor
    · intro hx
      exact ⟨Or.inl hx, hdisjoint _ (List.mem_map_of_mem hx) _ (List.mem_singleton_self _)⟩
    · rintro ⟨hx | rfl, hne⟩
      · exact hx
      · exact absurd rfl hne
  have hnodup : (commands.map DeletionWorkCommand.workId).Nodup :=
    h.commands_nodup.sublist ((List.sublist_append_left commands [command]).map _)
  rw [hg.eq]
  refine ⟨?_, hr.nextId, hr.nextLease⟩
  exact h.land hg.mem hr g hg.same_id hg.same_path (idle_of_waitsFor hg.waits) hg.plan hothers hnodup

/-! ## Results -/

theorem Released.gone (h : Sound s) {w : DeletionWork} {id : DeletionWorkId}
    (hr : Released s w id) : ∀ e ∈ w.leases, e.1 ≠ id := by
  intro e he
  rw [hr.leases, h.mem_erased] at he
  exact he.2

theorem discardCancelledEvent_unheld {w : DeletionWork} {id : DeletionWorkId}
    (hnone : ∀ e ∈ w.leases, e.1 ≠ id) : w.discardCancelledEvent id = w := by
  unfold DeletionWork.discardCancelledEvent
  split
  · rw [finishLease_unheld hnone]
  · rfl

/-- What a result does to the work of the item it is about. -/
inductive Landed (s : Rail) (a : DeletionWorkItem) (w' : DeletionWork) : Prop
  | removed (w : DeletionWork) (released : Released s w a.id) (eq : w' = w.removeItem a.id)
  | planned (w : DeletionWork) (plan : DeletionPlanSummary) (released : Released s w a.id)
      (path : plan.target.fullPath = a.path)
      (eq : w' = w.updateItem a.id fun item =>
        { item with plan := some plan, stage := .QueuedExecution })

theorem landed_finishStage (h : Sound s) (ha : a ∈ s.work.items) {lane : Lane}
    (hlane : a.stage.lane = some lane) {accepted : DeletionWorkStage → Bool}
    (haccepted : accepted a.stage = true) (completion : WorkCompletion) :
    (s.work.finishStage accepted a.id completion).2 = true ∧
      Landed s a (s.work.finishStage accepted a.id completion).1 := by
  have hsettled := h.settled a ha
  rw [settled_of_lane hlane] at hsettled
  obtain ⟨⟨l, hl, -, -⟩, -⟩ := hsettled
  obtain ⟨hr, hok⟩ := finishLease_held h hl completion
  have hfind : s.work.findItem a.id = some a := Keyed.find?_key h.ids_nodup ha
  simp only [DeletionWork.finishStage, hfind, haccepted, if_true]
  rw [show s.work.finishLease a.id completion = ((s.work.finishLease a.id completion).1, true) from
    Prod.ext rfl hok]
  exact ⟨rfl, .removed _ hr rfl⟩

theorem landed_planningSucceeded (h : Sound s) (ha : a ∈ s.work.items)
    (hlane : a.stage.lane = some .planner) (plan : DeletionPlanSummary) :
    Landed s a (s.work.planningSucceeded a.id plan).1 := by
  have hsettled := h.settled a ha
  rw [settled_of_lane hlane] at hsettled
  obtain ⟨⟨l, hl, -, -⟩, -⟩ := hsettled
  have hfind : s.work.findItem a.id = some a := Keyed.find?_key h.ids_nodup ha
  simp only [DeletionWork.planningSucceeded, hfind]
  split
  · exact .removed _ (finishLease_held h hl .Cancelled).1 rfl
  · split
    · exact .removed _ (finishLease_held h hl .Failed).1 rfl
    · rename_i hpath
      obtain ⟨hr, hok⟩ := finishLease_held h hl .Succeeded
      rw [show s.work.finishLease a.id .Succeeded = ((s.work.finishLease a.id .Succeeded).1, true)
        from Prod.ext rfl hok]
      exact .planned _ plan hr (not_not.mp hpath).symm rfl
  · exact .removed _ (finishLease_held h hl .Failed).1 rfl

theorem Landed.discardCancelledEvent (h : Sound s) {w : DeletionWork} (hl : Landed s a w) :
    w.discardCancelledEvent a.id = w := by
  apply discardCancelledEvent_unheld
  cases hl with
  | removed w' hr heq =>
    rw [heq]
    exact hr.gone h
  | planned w' plan hr hpath heq =>
    rw [heq]
    exact hr.gone h

theorem landed_handle (h : Sound s) (ha : a ∈ s.work.items) {lane : Lane}
    (hlane : a.stage.lane = some lane) {result : WorkerResult}
    (hresult : result.isPlan = lane.isPlan) : Landed s a (handle s.work a.id result).1 := by
  have hplanner : lane = .planner → ∀ completion,
      (s.work.finishPlanning a.id completion).2 = true ∧
        Landed s a (s.work.finishPlanning a.id completion).1 := by
    rintro rfl completion
    exact landed_finishStage h ha hlane (lane_of_planningOrCancelling.mp hlane) completion
  have hexecutor : lane = .executor → ∀ completion,
      (s.work.finishExecution a.id completion).2 = true ∧
        Landed s a (s.work.finishExecution a.id completion).1 := by
    rintro rfl completion
    exact landed_finishStage h ha hlane (lane_of_executing.mp hlane) completion
  have hlanes : lane = if result.isPlan then .planner else .executor := by
    cases lane <;> simp [Lane.isPlan] at hresult <;> simp [hresult]
  cases result with
  | planned plan =>
    subst hlanes
    have hlanded := landed_planningSucceeded h ha hlane plan
    simp only [handle]
    split
    · rename_i heq
      rwa [heq] at hlanded
    · rename_i heq
      rw [heq] at hlanded
      rwa [hlanded.discardCancelledEvent h]
  | planCancelled =>
    have hlanded := (hplanner hlanes .Cancelled).2
    simp only [handle, DeletionWork.planningCancelled]
    rwa [hlanded.discardCancelledEvent h]
  | planFailed =>
    have hlanded := (hplanner hlanes .Failed).2
    simp only [handle, DeletionWork.planningFailed]
    rwa [hlanded.discardCancelledEvent h]
  | planStale =>
    obtain ⟨hok, hlanded⟩ := hplanner hlanes .Invalidated
    simp only [handle, DeletionWork.planningStale]
    rw [show s.work.finishPlanning a.id .Invalidated =
      ((s.work.finishPlanning a.id .Invalidated).1, true) from Prod.ext rfl hok]
    exact hlanded
  | executed completion =>
    obtain ⟨hok, hlanded⟩ := hexecutor hlanes completion
    simp only [handle, DeletionWork.executionFinished]
    rw [show s.work.finishExecution a.id completion =
      ((s.work.finishExecution a.id completion).1, true) from Prod.ext rfl hok]
    exact hlanded
  | executionFailed => exact (hexecutor hlanes .Failed).2
  | executionStale => exact (hexecutor hlanes .Invalidated).2

end Excise.Rail
