import Excise.Rail.State

/-!
# What holds of the rail between calls

`Sound` ties items, stored leases, coordinator records and commands together. Every
operation replaces one item, removes items that hold nothing, or only moves the coordinator;
one lemma for each of these carries `Sound`.
-/

namespace Excise
set_option autoImplicit false

/-- The two lanes of the worker. -/
inductive Lane where
  | planner
  | executor
  deriving DecidableEq

def Lane.kind : Lane → WorkKind
  | .planner => .PlanDeletion
  | .executor => .ExecuteDeletion

def Lane.isPlan : Lane → Bool
  | .planner => true
  | .executor => false

def DeletionWorkStage.lane : DeletionWorkStage → Option Lane
  | .Planning | .CancellingPlanning => some .planner
  | .Executing _ => some .executor
  | _ => none

namespace Rail

/-- The stages in which an item waits for a lease of `kind`. -/
def waitsFor (kind : WorkKind) (stage : DeletionWorkStage) : Bool :=
  match kind with
  | .PlanDeletion => stage.isQueuedPlanning
  | .ExecuteDeletion => stage.isQueuedExecution
  | _ => false

theorem idle_of_waitsFor {kind : WorkKind} {stage : DeletionWorkStage}
    (h : waitsFor kind stage = true) : stage.lane = none := by
  cases kind <;> cases stage <;>
    simp [waitsFor, DeletionWorkStage.isQueuedPlanning, DeletionWorkStage.isQueuedExecution] at h
  · rfl
  · rfl

/-- Nothing is kept for `id`: no lease and no command. -/
def Unheld (s : Rail) (id : DeletionWorkId) : Prop :=
  (∀ e ∈ s.work.leases, e.1 ≠ id) ∧ ∀ command ∈ s.withWorker, command.workId ≠ id

/-- `id` holds an active lease of the lane's kind, and the worker has its command. -/
def HeldIn (s : Rail) (id : DeletionWorkId) (lane : Lane) : Prop :=
  (∃ l : WorkLease, (id, l) ∈ s.work.leases ∧ l.key.kind = lane.kind ∧
    s.work.coordinator.active[l.id]? = some l) ∧
  ∃ command ∈ s.withWorker, command.workId = id ∧ command.isPlan = lane.isPlan

/-- An item holds what its stage needs, and no more. -/
def Settled (s : Rail) (item : DeletionWorkItem) : Prop :=
  match item.stage.lane with
  | some lane => s.HeldIn item.id lane
  | none => s.Unheld item.id ∧ (item.stage.isQueuedExecution = true →
      ∃ plan, item.plan = some plan ∧ plan.target.fullPath = item.path)

structure Sound (s : Rail) : Prop where
  consistent : s.work.coordinator.Consistent
  bounded : s.work.items.length ≤ maxDeletionWorkItems
  ids_nodup : (s.work.items.map DeletionWorkItem.id).Nodup
  ids_issued : ∀ item ∈ s.work.items, item.id.value ≤ s.work.nextId
  apart : (s.work.items.map DeletionWorkItem.path).Pairwise
    fun left right => targetsOverlap left right = false
  lane_unique : ∀ a ∈ s.work.items, ∀ b ∈ s.work.items, ∀ lane,
    a.stage.lane = some lane → b.stage.lane = some lane → a.id = b.id
  leases_nodup : (s.work.leases.map Prod.fst).Nodup
  lease_item : ∀ e ∈ s.work.leases, ∃ item ∈ s.work.items, item.id = e.1
  commands_nodup : (s.withWorker.map DeletionWorkCommand.workId).Nodup
  commands_issued : ∀ command ∈ s.withWorker, command.workId.value ≤ s.work.nextId
  settled : ∀ item ∈ s.work.items, s.Settled item

variable {s s' : Rail} {a a' : DeletionWorkItem}

theorem settled_of_lane {lane : Lane} (h : a.stage.lane = some lane) :
    s.Settled a ↔ s.HeldIn a.id lane := by
  simp [Settled, h]

theorem settled_of_idle (h : a.stage.lane = none) :
    s.Settled a ↔ s.Unheld a.id ∧ (a.stage.isQueuedExecution = true →
      ∃ plan, a.plan = some plan ∧ plan.target.fullPath = a.path) := by
  simp [Settled, h]

/-- The item a lease belongs to is in the lane the lease was granted for. -/
theorem Sound.lane_of_lease (h : Sound s) {e : DeletionWorkId × WorkLease}
    (he : e ∈ s.work.leases) :
    ∃ item ∈ s.work.items, item.id = e.1 ∧ ∃ lane, item.stage.lane = some lane ∧
      e.2.key.kind = lane.kind ∧ s.work.coordinator.active[e.2.id]? = some e.2 ∧
      ∃ command ∈ s.withWorker, command.workId = item.id ∧ command.isPlan = lane.isPlan := by
  obtain ⟨item, hitem, hid⟩ := h.lease_item e he
  have hsettled := h.settled item hitem
  cases hlane : item.stage.lane with
  | none =>
    rw [settled_of_idle hlane] at hsettled
    exact absurd hid.symm (hsettled.1.1 e he)
  | some lane =>
    rw [settled_of_lane hlane] at hsettled
    obtain ⟨⟨l, hl, hkind, hactive⟩, hcommand⟩ := hsettled
    have heq : ((item.id, l) : DeletionWorkId × WorkLease) = e :=
      Keyed.eq_of_key_eq h.leases_nodup hl he hid
    subst heq
    exact ⟨item, hitem, rfl, lane, hlane, hkind, hactive, hcommand⟩

theorem Sound.lease_ne (h : Sound s) {e e' : DeletionWorkId × WorkLease} (he : e ∈ s.work.leases)
    (he' : e' ∈ s.work.leases) (hne : e.1 ≠ e'.1) : e.2 ≠ e'.2 := by
  intro heq
  obtain ⟨a, ha, haid, la, hla, hka, -⟩ := h.lane_of_lease he
  obtain ⟨b, hb, hbid, lb, hlb, hkb, -⟩ := h.lane_of_lease he'
  have hlanes : la = lb := by
    rw [heq, hkb] at hka
    cases la <;> cases lb <;> simp [Lane.kind] at hka ⊢
  subst hlanes
  exact hne (haid ▸ hbid ▸ h.lane_unique a ha b hb la hla hlb)

/-- Apart from `id`, the state keeps its leases, their records and the commands. -/
structure KeepsOthers (s s' : Rail) (id : DeletionWorkId) : Prop where
  leases : ∀ e, e.1 ≠ id → (e ∈ s'.work.leases ↔ e ∈ s.work.leases)
  commands : ∀ command : DeletionWorkCommand, command.workId ≠ id →
    (command ∈ s'.withWorker ↔ command ∈ s.withWorker)
  active : ∀ e ∈ s.work.leases, e.1 ≠ id →
    s'.work.coordinator.active[e.2.id]? = some e.2

theorem settled_other (hk : KeepsOthers s s' a.id) {b : DeletionWorkItem} (hne : b.id ≠ a.id)
    (hb : s.Settled b) : s'.Settled b := by
  cases hlane : b.stage.lane with
  | none =>
    rw [settled_of_idle hlane] at hb ⊢
    obtain ⟨⟨hleases, hcommands⟩, hplan⟩ := hb
    refine ⟨⟨?_, ?_⟩, hplan⟩
    · intro e he hid
      exact hleases e ((hk.leases e (hid ▸ hne)).mp he) hid
    · intro command hcommand hid
      exact hcommands command ((hk.commands command (hid ▸ hne)).mp hcommand) hid
  | some lane =>
    rw [settled_of_lane hlane] at hb ⊢
    obtain ⟨⟨l, hl, hkind, hactive⟩, command, hcommand, hid, hplan⟩ := hb
    refine ⟨⟨l, (hk.leases _ hne).mpr hl, hkind, hk.active _ hl hne⟩, command, ?_, hid, hplan⟩
    exact (hk.commands command (hid ▸ hne)).mpr hcommand

/-- One item is replaced by another with the same id and path. -/
structure Replaces (s s' : Rail) (a a' : DeletionWorkItem) : Prop where
  mem : ∀ b, b ∈ s'.work.items ↔ b = a' ∨ (b ∈ s.work.items ∧ b.id ≠ a.id)
  ids : s'.work.items.map DeletionWorkItem.id = s.work.items.map DeletionWorkItem.id
  paths : s'.work.items.map DeletionWorkItem.path = s.work.items.map DeletionWorkItem.path
  id_eq : a'.id = a.id
  nextId : s'.work.nextId = s.work.nextId

theorem Sound.replace (h : Sound s) (ha : a ∈ s.work.items) (hr : Replaces s s' a a')
    (hk : KeepsOthers s s' a.id) (hconsistent : s'.work.coordinator.Consistent)
    (hleases : (s'.work.leases.map Prod.fst).Nodup)
    (hcommands : (s'.withWorker.map DeletionWorkCommand.workId).Nodup)
    (hsettled : s'.Settled a')
    (hlane : ∀ lane, a'.stage.lane = some lane → ∀ b ∈ s.work.items, b.id ≠ a.id →
      b.stage.lane ≠ some lane) : Sound s' where
  consistent := hconsistent
  bounded := by
    have hlength := congrArg List.length hr.ids
    simp only [List.length_map] at hlength
    rw [hlength]
    exact h.bounded
  ids_nodup := hr.ids ▸ h.ids_nodup
  ids_issued := by
    intro b hb
    rw [hr.nextId]
    rcases (hr.mem b).mp hb with rfl | ⟨hb, -⟩
    · rw [hr.id_eq]
      exact h.ids_issued a ha
    · exact h.ids_issued b hb
  apart := hr.paths ▸ h.apart
  lane_unique := by
    intro b hb d hd lane hbl hdl
    rcases (hr.mem b).mp hb with rfl | ⟨hb, hbne⟩ <;> rcases (hr.mem d).mp hd with rfl | ⟨hd, hdne⟩
    · rfl
    · exact absurd hdl (hlane lane hbl d hd hdne)
    · exact absurd hbl (hlane lane hdl b hb hbne)
    · exact h.lane_unique b hb d hd lane hbl hdl
  leases_nodup := hleases
  lease_item := by
    intro e he
    by_cases hid : e.1 = a.id
    · exact ⟨a', (hr.mem a').mpr (Or.inl rfl), hr.id_eq.trans hid.symm⟩
    · obtain ⟨b, hb, hbid⟩ := h.lease_item e ((hk.leases e hid).mp he)
      exact ⟨b, (hr.mem b).mpr (Or.inr ⟨hb, hbid ▸ hid⟩), hbid⟩
  commands_nodup := hcommands
  commands_issued := by
    intro command hcommand
    rw [hr.nextId]
    by_cases hid : command.workId = a.id
    · rw [hid]
      exact h.ids_issued a ha
    · exact h.commands_issued command ((hk.commands command hid).mp hcommand)
  settled := by
    intro b hb
    rcases (hr.mem b).mp hb with rfl | ⟨hb, hne⟩
    · exact hsettled
    · exact settled_other hk hne (h.settled b hb)

/-- Items leave the rail and take what they hold with them. -/
theorem Sound.shrink (h : Sound s) (hsub : s'.work.items.Sublist s.work.items)
    (hnextId : s'.work.nextId = s.work.nextId) (hconsistent : s'.work.coordinator.Consistent)
    (hleases : s'.work.leases.Sublist s.work.leases)
    (hlease : ∀ e ∈ s'.work.leases, ∃ item ∈ s'.work.items, item.id = e.1)
    (hcommands : s'.withWorker.Sublist s.withWorker)
    (hsettled : ∀ b ∈ s'.work.items, s'.Settled b) : Sound s' where
  consistent := hconsistent
  bounded := hsub.length_le.trans h.bounded
  ids_nodup := h.ids_nodup.sublist (hsub.map _)
  ids_issued := by
    intro b hb
    rw [hnextId]
    exact h.ids_issued b (hsub.subset hb)
  apart := h.apart.sublist (hsub.map _)
  lane_unique := by
    intro b hb d hd lane hbl hdl
    exact h.lane_unique b (hsub.subset hb) d (hsub.subset hd) lane hbl hdl
  leases_nodup := h.leases_nodup.sublist (hleases.map _)
  lease_item := hlease
  commands_nodup := h.commands_nodup.sublist (hcommands.map _)
  commands_issued := by
    intro command hcommand
    rw [hnextId]
    exact h.commands_issued command (hcommands.subset hcommand)
  settled := hsettled

/-- Only the coordinator moves, and every lease of the rail stays active. -/
theorem Sound.move_coordinator (h : Sound s) {c : ScanCoordinator} (hconsistent : c.Consistent)
    (hactive : ∀ e ∈ s.work.leases, c.active[e.2.id]? = some e.2) :
    Sound ⟨{ s.work with coordinator := c }, s.withWorker⟩ := by
  refine ⟨hconsistent, h.bounded, h.ids_nodup, h.ids_issued, h.apart, h.lane_unique,
    h.leases_nodup, h.lease_item, h.commands_nodup, h.commands_issued, ?_⟩
  intro item hitem
  have hsettled := h.settled item hitem
  cases hlane : item.stage.lane with
  | none =>
    rw [settled_of_idle hlane] at hsettled ⊢
    exact hsettled
  | some lane =>
    rw [settled_of_lane hlane] at hsettled ⊢
    obtain ⟨⟨l, hl, hkind, -⟩, hcommand⟩ := hsettled
    exact ⟨⟨l, hl, hkind, hactive _ hl⟩, hcommand⟩

/-! ## Giving a lease back -/

/-- `w` is the rail's work after the lease of `id` was given back. -/
structure Released (s : Rail) (w : DeletionWork) (id : DeletionWorkId) : Prop where
  items : w.items = s.work.items
  nextId : w.nextId = s.work.nextId
  leases : w.leases = s.work.leases.eraseP fun e => e.1 = id
  consistent : w.coordinator.Consistent
  active : ∀ e ∈ s.work.leases, e.1 ≠ id → w.coordinator.active[e.2.id]? = some e.2
  nextLease : w.coordinator.nextLease = s.work.coordinator.nextLease

theorem Sound.mem_erased (h : Sound s) {e : DeletionWorkId × WorkLease} {id : DeletionWorkId} :
    e ∈ s.work.leases.eraseP (fun e => e.1 = id) ↔ e ∈ s.work.leases ∧ e.1 ≠ id := by
  cases hfind : s.work.leases.find? (fun e => e.1 = id) with
  | none =>
    rw [List.find?_eq_none] at hfind
    rw [List.eraseP_of_forall_not hfind]
    refine ⟨fun he => ⟨he, ?_⟩, fun he => he.1⟩
    simpa using hfind e he
  | some x =>
    have hx := List.find?_some hfind
    rw [decide_eq_true_eq] at hx
    rw [Keyed.mem_eraseP h.leases_nodup hfind, hx]

theorem Sound.find_lease (h : Sound s) {id : DeletionWorkId} {l : WorkLease}
    (hl : (id, l) ∈ s.work.leases) :
    s.work.leases.find? (fun e => e.1 = id) = some (id, l) :=
  @Keyed.find?_key _ _ Prod.fst _ _ _ h.leases_nodup hl

theorem finishLease_held (h : Sound s) {id : DeletionWorkId} {l : WorkLease}
    (hl : (id, l) ∈ s.work.leases) (completion : WorkCompletion) :
    Released s (s.work.finishLease id completion).1 id ∧
      (s.work.finishLease id completion).2 = true := by
  obtain ⟨-, -, -, -, -, -, hactive, -⟩ := h.lane_of_lease hl
  have hfinish : s.work.coordinator.finish l completion =
      ((s.work.coordinator.removeActive l.id).1.recordTerminal completion.lifecycle 1,
        .Accepted) := by
    simp only at hactive
    simp [ScanCoordinator.finish, hactive]
  simp only [DeletionWork.finishLease, DeletionWork.takeLease, h.find_lease hl]
  refine ⟨⟨rfl, rfl, rfl, ScanCoordinator.consistent_finish h.consistent l completion, ?_, ?_⟩, ?_⟩
  · intro e he hne
    obtain ⟨-, -, -, -, -, -, heactive, -⟩ := h.lane_of_lease he
    refine ScanCoordinator.active_kept h.consistent (.finish l completion) heactive ?_
    simpa [ScanCoordinator.answer, hfinish, ScanCoordinator.ends] using
      (h.lease_ne he hl hne).symm
  · rw [hfinish]
    simp
  · simp [hfinish]

theorem requeueLease_held (h : Sound s) {id : DeletionWorkId} {l : WorkLease}
    (hl : (id, l) ∈ s.work.leases) :
    Released s (s.work.requeueLease id).1 id ∧ (s.work.requeueLease id).2 = true := by
  obtain ⟨-, -, -, -, -, -, hactive, -⟩ := h.lane_of_lease hl
  have hrequeue : s.work.coordinator.requeue l =
      ((s.work.coordinator.removeActive l.id).1.addPending l.key l.priority, .Requeued) := by
    simp only at hactive
    simp [ScanCoordinator.requeue, hactive]
  simp only [DeletionWork.requeueLease, DeletionWork.takeLease, h.find_lease hl]
  refine ⟨⟨rfl, rfl, rfl, ScanCoordinator.consistent_requeue h.consistent l, ?_, ?_⟩, ?_⟩
  · intro e he hne
    obtain ⟨-, -, -, -, -, -, heactive, -⟩ := h.lane_of_lease he
    refine ScanCoordinator.active_kept h.consistent (.requeue l) heactive ?_
    simpa [ScanCoordinator.answer, hrequeue, ScanCoordinator.ends] using
      (h.lease_ne he hl hne).symm
  · rw [hrequeue]
    simp [ScanCoordinator.addPending]
  · simp [hrequeue]

theorem finishLease_unheld {w : DeletionWork} {id : DeletionWorkId}
    (hnone : ∀ e ∈ w.leases, e.1 ≠ id) (completion : WorkCompletion) :
    w.finishLease id completion = (w, false) := by
  have hfind : w.leases.find? (fun e => e.1 = id) = none := by
    rw [List.find?_eq_none]
    intro e he
    simpa using hnone e he
  simp [DeletionWork.finishLease, DeletionWork.takeLease, hfind]

end Rail

end Excise
