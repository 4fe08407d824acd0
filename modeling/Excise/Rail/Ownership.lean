import Excise.Coordinator.Records
import Excise.Rail.Frame
import Excise.Rail.Reachable

/-!
# Whose deletion keys the coordinator holds

Every deletion key in the coordinator belongs to an item of the rail, as long as no item
whose command came back from a busy worker is cancelled, and no generation begins while such
an item waits: `restore_unsubmitted` leaves the key pending, and only the next command of the
same generation takes it up again.
-/

namespace Excise.Rail
set_option autoImplicit false

variable {s s' : Rail} {a : DeletionWorkItem}

/-- `key` is pending or active in the rail's coordinator. -/
def Recorded (s : Rail) (key : WorkKey) : Prop :=
  key ∈ s.work.coordinator.pending ∨
    ∃ (id : LeaseId) (l : WorkLease), s.work.coordinator.active[id]? = some l ∧ l.key = key

/-- A deletion key of `path` waits in the coordinator. -/
def KeyPending (s : Rail) (path : RelativePath) : Prop :=
  ∃ key ∈ s.work.coordinator.pending, key.kind.isScanWork = false ∧ key.path = path

/-- The call cancels no waiting item whose key is pending, and begins no generation while a
deletion key is. -/
def Tended (s : Rail) : Call → Prop
  | .cancelModal workId | .discard workId =>
    ∀ item ∈ s.work.items, item.id = workId → item.stage.lane = none →
      ¬s.KeyPending item.relativePath
  | .cancelPending =>
    ∀ item ∈ s.work.items, item.stage.lane = none → ¬s.KeyPending item.relativePath
  | .advanceGeneration generation =>
    s.work.coordinator.generation < generation →
      ∀ key ∈ s.work.coordinator.pending, key.kind.isScanWork = true
  | _ => True

structure Owned (s : Rail) : Prop where
  pending : ∀ key ∈ s.work.coordinator.pending, key.kind.isScanWork = false →
    (key.session = s.work.coordinator.session ∧ key.generation = s.work.coordinator.generation) ∧
      ∃ item ∈ s.work.items, waitsFor key.kind item.stage = true ∧ item.relativePath = key.path
  active : ∀ (id : LeaseId) (l : WorkLease), s.work.coordinator.active[id]? = some l →
    l.key.kind.isScanWork = false →
      ∃ item ∈ s.work.items, (item.id, l) ∈ s.work.leases ∧ item.relativePath = l.key.path

theorem owned_new (session : ScanSessionId) (generation : ScanGeneration) :
    Owned (new session generation) where
  pending := by simp [new, DeletionWork.newForCoordinator, ScanCoordinator.new]
  active := by simp [new, DeletionWork.newForCoordinator, ScanCoordinator.new]

theorem Owned.recorded (h : Owned s) {key : WorkKey} (hkey : s.Recorded key)
    (hkind : key.kind.isScanWork = false) :
    ∃ item ∈ s.work.items, item.relativePath = key.path := by
  rcases hkey with hpending | ⟨id, l, hl, rfl⟩
  · obtain ⟨-, item, hitem, -, hpath⟩ := h.pending key hpending hkind
    exact ⟨item, hitem, hpath⟩
  · obtain ⟨item, hitem, -, hpath⟩ := h.active id l hl hkind
    exact ⟨item, hitem, hpath⟩

/-! ## The coordinator's side of an operation -/

/-- The operation adds no record: nothing new is pending, and a lease that is still active is
still stored where it was. -/
structure Gives (w w' : DeletionWork) : Prop where
  pending : ∀ k ∈ w'.coordinator.pending, k ∈ w.coordinator.pending
  era : ScanCoordinator.SameEra w.coordinator w'.coordinator
  active : ∀ (id : LeaseId) (l : WorkLease), w'.coordinator.active[id]? = some l →
    w.coordinator.active[id]? = some l ∧ ∀ e ∈ w.leases, e.2 = l → e ∈ w'.leases

theorem Gives.refl (w : DeletionWork) : Gives w w :=
  ⟨fun _ hk => hk, .refl _, fun _ _ hl => ⟨hl, fun _ he _ => he⟩⟩

theorem gives_finishLease (h : Sound s) (id : DeletionWorkId) (completion : WorkCompletion) :
    Gives s.work (s.work.finishLease id completion).1 := by
  cases hfind : s.work.leases.find? (fun e => e.1 = id) with
  | none =>
    have hnone : ∀ e ∈ s.work.leases, e.1 ≠ id := by
      intro e he
      simpa using List.find?_eq_none.mp hfind e he
    rw [finishLease_unheld hnone]
    exact .refl _
  | some x =>
    have hid := List.find?_some hfind
    rw [decide_eq_true_eq] at hid
    have hx := List.mem_of_find?_eq_some hfind
    obtain ⟨-, -, -, -, -, -, hxactive, -⟩ := h.lane_of_lease hx
    simp only [DeletionWork.finishLease, DeletionWork.takeLease, hfind]
    refine ⟨?_, ScanCoordinator.sameEra_finish _ _ _, ?_⟩
    · intro k hk
      rwa [ScanCoordinator.finish_pending] at hk
    · intro a l hl
      obtain ⟨hold, hended⟩ := ScanCoordinator.active_finish hl
      refine ⟨hold, ?_⟩
      intro e he hel
      rw [h.mem_erased]
      refine ⟨he, ?_⟩
      intro heid
      have heq : e = x := Keyed.eq_of_key_eq h.leases_nodup he hx (heid.trans hid.symm)
      subst heq
      have haccepted : (s.work.coordinator.finish e.2 completion).2 = .Accepted := by
        simp [ScanCoordinator.finish, hxactive]
      rw [hel] at hended haccepted
      exact hended haccepted (h.consistent.active_id _ _ hold)

theorem gives_of_eq {w w' : DeletionWork} (hcoordinator : w'.coordinator = w.coordinator)
    (hleases : w'.leases = w.leases) : Gives w w' := by
  refine ⟨?_, ?_, ?_⟩
  · intro k hk
    rwa [← hcoordinator]
  · rw [hcoordinator]
    exact .refl _
  · intro id l hl
    rw [hcoordinator] at hl
    rw [hleases]
    exact ⟨hl, fun _ he _ => he⟩

/-! ## Items that change or leave -/

/-- The items that still wait or still hold a lease have kept their place. -/
theorem Owned.of_gives (ho : Owned s) (hg : Gives s.work s'.work)
    (hkept : ∀ item ∈ s.work.items,
      (∃ kind, waitsFor kind item.stage = true ∧ s'.KeyPending item.relativePath) ∨
        (∃ l, (item.id, l) ∈ s'.work.leases) →
      ∃ item' ∈ s'.work.items, item'.id = item.id ∧ item'.relativePath = item.relativePath ∧
        ∀ kind, waitsFor kind item.stage = true → waitsFor kind item'.stage = true) :
    Owned s' where
  pending := by
    intro key hkey hkind
    obtain ⟨⟨hsession, hgeneration⟩, item, hitem, hwaits, hpath⟩ :=
      ho.pending key (hg.pending key hkey) hkind
    obtain ⟨item', hitem', -, hpath', hwaits'⟩ := hkept item hitem
      (Or.inl ⟨key.kind, hwaits, key, hkey, hkind, hpath.symm⟩)
    exact ⟨⟨hsession.trans hg.era.1.symm, hgeneration.trans hg.era.2.symm⟩, item', hitem',
      hwaits' _ hwaits, hpath'.trans hpath⟩
  active := by
    intro id l hl hkind
    obtain ⟨hold, hstored⟩ := hg.active id l hl
    obtain ⟨item, hitem, hlease, hpath⟩ := ho.active id l hold hkind
    have hlease' := hstored _ hlease rfl
    obtain ⟨item', hitem', hid, hpath', -⟩ := hkept item hitem (Or.inr ⟨l, hlease'⟩)
    exact ⟨item', hitem', hid ▸ hlease', hpath'.trans hpath⟩

/-- An item that waits for no lease changes in place. -/
theorem Owned.update (h : Sound s) (ho : Owned s) (ha : a ∈ s.work.items)
    (f : DeletionWorkItem → DeletionWorkItem) (hid : ∀ x, (f x).id = x.id)
    (hpath : ∀ x, (f x).relativePath = x.relativePath)
    (hwaits : ∀ kind, waitsFor kind a.stage = false) (commands : List DeletionWorkCommand) :
    Owned ⟨s.work.updateItem a.id f, commands⟩ := by
  refine ho.of_gives (gives_of_eq rfl rfl) ?_
  intro item hitem _
  simp only [DeletionWork.updateItem]
  by_cases heq : item.id = a.id
  · obtain rfl : item = a := Keyed.eq_of_key_eq h.ids_nodup hitem ha heq
    refine ⟨f item, ?_, hid item, hpath item, ?_⟩
    · rw [Keyed.mem_updateFirst h.ids_nodup (Keyed.find?_key h.ids_nodup ha)]
      exact Or.inl rfl
    · intro kind hkind
      rw [hwaits kind] at hkind
      simp at hkind
  · refine ⟨item, ?_, rfl, rfl, fun _ hkind => hkind⟩
    rw [Keyed.mem_updateFirst h.ids_nodup (Keyed.find?_key h.ids_nodup ha)]
    exact Or.inr ⟨hitem, heq⟩

/-- An item leaves with its lease given back; if it waited, no key of its path is pending. -/
theorem Owned.remove (h : Sound s) (ho : Owned s) (ha : a ∈ s.work.items) {w : DeletionWork}
    (hr : Released s w a.id) (hg : Gives s.work w)
    (hclear : a.stage.lane = none → ¬s.KeyPending a.relativePath)
    (commands : List DeletionWorkCommand) : Owned ⟨w.removeItem a.id, commands⟩ := by
  refine ho.of_gives ⟨hg.pending, hg.era, hg.active⟩ ?_
  intro item hitem hkept
  refine ⟨item, ?_, rfl, rfl, fun _ hkind => hkind⟩
  simp only [DeletionWork.removeItem, hr.items]
  rw [Keyed.mem_eraseP h.ids_nodup (Keyed.find?_key h.ids_nodup ha)]
  refine ⟨hitem, ?_⟩
  intro heq
  rcases hkept with ⟨kind, hwaits, key, hkey, hkind, hpath⟩ | ⟨l, hl⟩
  · obtain rfl : item = a := Keyed.eq_of_key_eq h.ids_nodup hitem ha heq
    exact hclear (idle_of_waitsFor hwaits) ⟨key, hg.pending key hkey, hkind, hpath⟩
  · simp only [DeletionWork.removeItem, hr.leases, h.mem_erased] at hl
    exact hl.2 heq

/-! ## Confirmations and cancellation -/

theorem owned_takeNextConfirmation (h : Sound s) (ho : Owned s) :
    Owned ⟨s.work.takeNextConfirmation.1, s.withWorker⟩ := by
  unfold DeletionWork.takeNextConfirmation
  split
  · exact ho
  · rename_i item hfind
    split
    · rename_i target reduced bytes hstage
      refine ho.update h (List.mem_of_find?_eq_some hfind)
        (fun item => { item with stage := .Confirming reduced bytes }) (fun _ => rfl)
        (fun _ => rfl) ?_ _
      rw [hstage]
      exact fun kind => by cases kind <;> rfl
    · exact ho

theorem owned_returnConfirmation (h : Sound s) (ho : Owned s) (workId : DeletionWorkId)
    (target : FileToDelete) :
    Owned ⟨(s.work.returnConfirmation workId target).1, s.withWorker⟩ := by
  unfold DeletionWork.returnConfirmation
  split
  · exact ho
  · rename_i item hfind
    obtain ⟨ha, rfl⟩ := find_item hfind
    split
    · rename_i reduced bytes hstage
      split
      · exact ho
      · refine ho.update h ha (fun item => { item with
          confirmedAt := none, stage := .AwaitingConfirmation target reduced bytes })
          (fun _ => rfl) (fun _ => rfl) ?_ _
        rw [hstage]
        exact fun kind => by cases kind <;> rfl
    · exact ho

theorem owned_queueConfirmation (h : Sound s) (ho : Owned s) (workId : DeletionWorkId)
    (target : FileToDelete) (now : Nat) :
    Owned ⟨(s.work.queueConfirmation workId target now).1, s.withWorker⟩ := by
  unfold DeletionWork.queueConfirmation
  split
  · exact ho
  · rename_i item hfind
    obtain ⟨ha, rfl⟩ := find_item hfind
    split
    · rename_i reduced bytes hstage
      split
      · exact ho
      · refine ho.update h ha (fun item => { item with
          confirmedAt := some now, stage := .QueuedPlanning target reduced bytes })
          (fun _ => rfl) (fun _ => rfl) ?_ _
        rw [hstage]
        exact fun kind => by cases kind <;> rfl
    · exact ho

theorem Owned.mark_cancelling (h : Sound s) (ho : Owned s) (ha : a ∈ s.work.items)
    (hstage : a.stage = .Planning) :
    Owned ⟨s.work.updateItem a.id fun item => { item with stage := .CancellingPlanning },
      s.withWorker⟩ := by
  refine ho.update h ha (fun item => { item with stage := .CancellingPlanning }) (fun _ => rfl)
    (fun _ => rfl) ?_ _
  rw [hstage]
  exact fun kind => by cases kind <;> rfl

theorem Owned.remove_idle (h : Sound s) (ho : Owned s) (ha : a ∈ s.work.items)
    (hidle : a.stage.lane = none) (hclear : ¬s.KeyPending a.relativePath) :
    Owned ⟨s.work.removeItem a.id, s.withWorker⟩ := by
  have hsettled := h.settled a ha
  rw [settled_of_idle hidle] at hsettled
  exact ho.remove h ha (released_of_unheld h hsettled.1.1) (.refl _) (fun _ => hclear) _

theorem owned_cancelModal (h : Sound s) (ho : Owned s) (workId : DeletionWorkId)
    (hclear : Tended s (.cancelModal workId)) :
    Owned ⟨(s.work.cancelModal workId).1, s.withWorker⟩ := by
  unfold DeletionWork.cancelModal
  split
  · exact ho
  · rename_i item hfind
    obtain ⟨ha, rfl⟩ := find_item hfind
    have hremoved : item.stage.lane = none → Owned ⟨s.work.removeItem item.id, s.withWorker⟩ :=
      fun hidle => ho.remove_idle h ha hidle (hclear item ha rfl hidle)
    split
    · rename_i hstage
      exact ho.mark_cancelling h ha hstage
    all_goals rename_i hstage
    · exact hremoved (by rw [hstage]; rfl)
    · exact hremoved (by rw [hstage]; rfl)
    · exact hremoved (by rw [hstage]; rfl)
    · exact hremoved (by rw [hstage]; rfl)
    · exact ho
    · exact ho

theorem owned_discard (h : Sound s) (ho : Owned s) (workId : DeletionWorkId)
    (hclear : Tended s (.discard workId)) :
    Owned ⟨(s.work.discard workId).1, s.withWorker⟩ := by
  rcases discard_cases h workId with heq | ⟨item, ha, rfl, ⟨hlane, heq⟩ | ⟨lane, hlane, hr, heq⟩⟩
  · rw [heq]
    exact ho
  · rw [heq]
    exact ho.remove_idle h ha hlane (hclear item ha rfl hlane)
  · rw [heq]
    refine ho.remove h ha hr (gives_finishLease h item.id .Cancelled) ?_ _
    simp [hlane]

/-- Dropping the items outside the lanes loses no key when none of theirs is pending. -/
theorem Owned.keep_lanes (h : Sound s) (ho : Owned s)
    (hnone : ∀ b ∈ s.work.items, b.stage.isPlanning = false)
    (hclear : ∀ item ∈ s.work.items, item.stage.lane = none → ¬s.KeyPending item.relativePath) :
    Owned ⟨{ s.work with
      items := s.work.items.filter fun item => item.stage.isExecuting ||
        (item.stage.isPlanningOrCancelling && !item.stage.isPlanning) }, s.withWorker⟩ := by
  refine ho.of_gives (gives_of_eq rfl rfl) ?_
  intro item hitem hkept
  refine ⟨item, ?_, rfl, rfl, fun _ hkind => hkind⟩
  obtain ⟨lane, hlane⟩ : ∃ lane, item.stage.lane = some lane := by
    rcases hkept with ⟨kind, hwaits, hpending⟩ | ⟨l, hl⟩
    · exact absurd hpending (hclear item hitem (idle_of_waitsFor hwaits))
    · obtain ⟨b, hb, hid, lane, hlane, -⟩ := h.lane_of_lease hl
      obtain rfl : b = item := Keyed.eq_of_key_eq h.ids_nodup hb hitem hid
      exact ⟨lane, hlane⟩
  refine List.mem_filter.mpr ⟨hitem, ?_⟩
  have hstage := hnone item hitem
  cases hs : item.stage <;>
    simp [hs, DeletionWorkStage.lane, DeletionWorkStage.isPlanning] at hlane hstage <;>
    simp [DeletionWorkStage.isExecuting, DeletionWorkStage.isPlanningOrCancelling,
      DeletionWorkStage.isPlanning]

theorem owned_cancelPending (h : Sound s) (ho : Owned s) (hclear : Tended s .cancelPending) :
    Owned ⟨s.work.cancelPending.1, s.withWorker⟩ := by
  obtain ⟨w, hw, hnone, heq⟩ := cancelPending_marks h
  rw [heq]
  rcases hw with rfl | ⟨x, hx, hstage, rfl⟩
  · exact ho.keep_lanes h hnone hclear
  · refine (ho.mark_cancelling h hx hstage).keep_lanes (h.mark_cancelling hx hstage) hnone ?_
    intro item hitem hidle
    simp only [DeletionWork.updateItem] at hitem
    rw [Keyed.mem_updateFirst h.ids_nodup (Keyed.find?_key h.ids_nodup hx)] at hitem
    rcases hitem with rfl | ⟨hitem, -⟩
    · simp [DeletionWorkStage.lane] at hidle
    · exact hclear item hitem hidle

/-! ## Commands -/

theorem waitsFor_unique {kind kind' : WorkKind} {stage : DeletionWorkStage}
    (h : waitsFor kind stage = true) (h' : waitsFor kind' stage = true) : kind = kind' := by
  cases kind <;> cases kind' <;> cases stage <;>
    simp [waitsFor, DeletionWorkStage.isQueuedPlanning, DeletionWorkStage.isQueuedExecution]
      at h h' ⊢

theorem Owned.refused (h : Sound s) (ho : Owned s) (ha : a ∈ s.work.items) {kind : WorkKind}
    {priority : WorkPriority} (hwaits : waitsFor kind a.stage = true)
    (hnone : (s.work.coordinator.acquire kind a.relativePath priority).2 = none)
    (commands : List DeletionWorkCommand) :
    Owned ⟨(s.work.acquireLease kind a.relativePath priority).1, commands⟩ := by
  obtain ⟨⟨hsession, hgeneration⟩, hpending⟩ :=
    ScanCoordinator.acquire_records h.consistent.filed kind a.relativePath priority
  have hactive := (ScanCoordinator.acquire_spec h.consistent kind a.relativePath priority
    (by simp [hnone])).2
  rw [hnone] at hpending hactive
  refine ⟨?_, ?_⟩
  · intro key hkey hkind
    simp only [DeletionWork.acquireLease] at hkey ⊢
    rw [hsession, hgeneration]
    rcases hpending key hkey with hold | rfl
    · exact ho.pending key hold hkind
    · exact ⟨⟨rfl, rfl⟩, a, ha, hwaits, rfl⟩
  · intro id l hl hkind
    simp only [DeletionWork.acquireLease, hactive.1] at hl
    exact ho.active id l hl hkind

theorem Owned.taken (h : Sound s) (ho : Owned s) {kind : WorkKind} {priority : WorkPriority}
    {l : WorkLease} {f : DeletionWorkItem → DeletionWorkItem} (ha : a ∈ s.work.items)
    (hwaits : waitsFor kind a.stage = true)
    (hl : (s.work.coordinator.acquire kind a.relativePath priority).2 = some l)
    (hroom : s.work.coordinator.nextLease < satMax 64) (hid : ∀ x, (f x).id = x.id)
    (hpath : ∀ x, (f x).relativePath = x.relativePath) (commands : List DeletionWorkCommand) :
    Owned ⟨DeletionWork.updateItem
      ⟨s.work.items, (s.work.coordinator.acquire kind a.relativePath priority).1,
        s.work.leases ++ [(a.id, l)], s.work.nextId⟩ a.id f, commands⟩ := by
  obtain ⟨⟨hsession, hgeneration⟩, hrecords⟩ :=
    ScanCoordinator.acquire_records h.consistent.filed kind a.relativePath priority
  rw [hl] at hrecords
  obtain ⟨hkey, hpending⟩ := hrecords
  have hleased := (acquire_some h hroom hl).2
  have hnolease := h.settled a ha
  rw [settled_of_idle (idle_of_waitsFor hwaits)] at hnolease
  have hmem : ∀ b, b ∈ (DeletionWork.updateItem
      ⟨s.work.items, (s.work.coordinator.acquire kind a.relativePath priority).1,
        s.work.leases ++ [(a.id, l)], s.work.nextId⟩ a.id f).items ↔
      b = f a ∨ (b ∈ s.work.items ∧ b.id ≠ a.id) := by
    intro b
    simp only [DeletionWork.updateItem]
    exact Keyed.mem_updateFirst h.ids_nodup (Keyed.find?_key h.ids_nodup ha)
  refine ⟨?_, ?_⟩
  · intro key hk hkind
    simp only [DeletionWork.updateItem] at hk
    obtain ⟨hk, hne⟩ := (hpending key).mp hk
    obtain ⟨⟨hs, hg⟩, b, hb, hbwaits, hbpath⟩ := ho.pending key hk hkind
    simp only [DeletionWork.updateItem, hsession, hgeneration]
    refine ⟨⟨hs, hg⟩, b, (hmem b).mpr (Or.inr ⟨hb, ?_⟩), hbwaits, hbpath⟩
    -- were it the item taken, the key would be the one it was leased
    intro hbid
    obtain rfl : b = a := Keyed.eq_of_key_eq h.ids_nodup hb ha hbid
    apply hne
    cases key
    simp only at hs hg hbpath hbwaits ⊢
    rw [hs, hg, hbpath, waitsFor_unique hbwaits hwaits]
  · intro id x hx hkind
    simp only [DeletionWork.updateItem] at hx
    rw [hleased.active] at hx
    split at hx
    · obtain rfl := Option.some.inj hx
      refine ⟨f a, (hmem _).mpr (Or.inl rfl), ?_, ?_⟩
      · rw [hid]
        simp [DeletionWork.updateItem]
      · rw [hpath, hkey]
    · obtain ⟨b, hb, hlease, hbpath⟩ := ho.active id x hx hkind
      refine ⟨b, (hmem b).mpr (Or.inr ⟨hb, ?_⟩), ?_, hbpath⟩
      · intro hbid
        exact hnolease.1.1 _ hlease hbid
      · simp only [DeletionWork.updateItem]
        exact List.mem_append_left _ hlease

/-- Giving back the command of a lease of this generation leaves its key to the item, which
waits again. -/
theorem Owned.restore {w : DeletionWork} {commands : List DeletionWorkCommand}
    {command : DeletionWorkCommand} (h : Sound ⟨w, commands⟩) (ho : Owned ⟨w, commands⟩)
    (hreturn : Returnable w command)
    (hera : ∀ l, (command.workId, l) ∈ w.leases →
      l.key.session = w.coordinator.session ∧ l.key.generation = w.coordinator.generation)
    (rest : List DeletionWorkCommand) : Owned ⟨w.restoreUnsubmitted command, rest⟩ := by
  obtain ⟨a, lane, g, hg⟩ := restored h hreturn
  have hsettled := h.settled a hg.mem
  rw [settled_of_lane hg.in_lane] at hsettled
  obtain ⟨⟨l, hl, hkind, hactive⟩, -⟩ := hsettled
  have hrequeue : (w.requeueLease a.id).1 = { w with
      leases := w.leases.eraseP (fun e => e.1 = a.id), coordinator := (w.coordinator.requeue l).1 }
      := by
    simp only [DeletionWork.requeueLease, DeletionWork.takeLease, h.find_lease hl]
  obtain ⟨hsession, hgeneration⟩ := ScanCoordinator.sameEra_requeue w.coordinator l
  have hlpath : a.relativePath = l.key.path := by
    obtain ⟨b, hb, hlease, hpath⟩ := ho.active l.id l hactive (by
      rw [hkind]
      cases lane <;> rfl)
    have hbid : b.id = a.id := by
      by_contra hne
      exact h.lease_ne hlease hl hne rfl
    obtain rfl : b = a := Keyed.eq_of_key_eq h.ids_nodup hb hg.mem hbid
    exact hpath
  rw [hg.eq, hrequeue]
  have hmem : ∀ b, b ∈ (DeletionWork.updateItem { w with
      leases := w.leases.eraseP (fun e => e.1 = a.id), coordinator := (w.coordinator.requeue l).1 }
      a.id g).items ↔ b = g a ∨ (b ∈ w.items ∧ b.id ≠ a.id) := by
    intro b
    simp only [DeletionWork.updateItem]
    exact Keyed.mem_updateFirst h.ids_nodup (Keyed.find?_key h.ids_nodup hg.mem)
  refine ⟨?_, ?_⟩
  · intro key hk hdeletion
    simp only [DeletionWork.updateItem] at hk ⊢
    rw [hsession, hgeneration]
    rcases (ScanCoordinator.mem_pending_requeue _ _ _).mp hk with hk | ⟨rfl, -⟩
    · obtain ⟨hcurrent, b, hb, hbwaits, hbpath⟩ := ho.pending key hk hdeletion
      refine ⟨hcurrent, b, (hmem b).mpr (Or.inr ⟨hb, ?_⟩), hbwaits, hbpath⟩
      intro hbid
      obtain rfl : b = a := Keyed.eq_of_key_eq h.ids_nodup hb hg.mem hbid
      have hidle := idle_of_waitsFor hbwaits
      rw [hg.in_lane] at hidle
      simp at hidle
    · refine ⟨hera l (hg.command_id ▸ hl), g a, (hmem _).mpr (Or.inl rfl), ?_, ?_⟩
      · rw [hkind]
        exact hg.waits
      · rw [hg.same_relativePath]
        exact hlpath
  · intro id x hx hdeletion
    simp only [DeletionWork.updateItem] at hx ⊢
    obtain ⟨hold, hended⟩ := ScanCoordinator.active_requeue hx
    obtain ⟨b, hb, hlease, hbpath⟩ := ho.active id x hold hdeletion
    have hbid : b.id ≠ a.id := by
      intro hbid
      have heq : ((b.id, x) : DeletionWorkId × WorkLease) = (a.id, l) :=
        Keyed.eq_of_key_eq h.leases_nodup hlease hl hbid
      obtain ⟨-, rfl⟩ := Prod.mk.inj heq
      have hrequeued : (w.coordinator.requeue x).2 = .Requeued := by
        simp only at hactive
        simp [ScanCoordinator.requeue, hactive]
      exact hended hrequeued (h.consistent.active_id _ _ hold)
    exact ⟨b, (hmem b).mpr (Or.inr ⟨hb, hbid⟩), h.mem_erased.mpr ⟨hlease, hbid⟩, hbpath⟩

theorem owned_submit (h : Sound s) (ho : Owned s) {lane : Lane}
    {taken : DeletionWork × Option DeletionWorkCommand} (hlaunched : Launched s lane taken)
    (accepts : Bool) (hroom : taken.2.isSome → s.work.coordinator.nextLease < satMax 64) :
    Owned (s.submit taken accepts).1 := by
  have htaken := hlaunched.sound h hroom
  cases hlaunched with
  | nothing => exact ho
  | refused a priority ha hwaits hnone => exact ho.refused h ha hwaits hnone _
  | taken a priority l f command ha hwaits hl hid hpath hrel hlane hfree hcommand hplan hreturns
      hplanPath =>
    obtain ⟨-, hsound, -, hreturn⟩ := htaken
    have howned := ho.taken h ha hwaits hl (hroom rfl) hid hrel (s.withWorker ++ [command])
    cases accepts with
    | true => exact howned
    | false =>
      refine howned.restore hsound hreturn ?_ _
      intro l' hl'
      -- the lease it gives back is the one just granted
      have heq : l' = l := by
        have hmem : (command.workId, l) ∈ s.work.leases ++ [(a.id, l)] := by
          rw [hcommand]
          exact List.mem_append_right _ (List.mem_singleton_self _)
        have hpair : ((command.workId, l') : DeletionWorkId × WorkLease) = (command.workId, l) :=
          Keyed.eq_of_key_eq hsound.leases_nodup hl' hmem rfl
        exact (Prod.mk.inj hpair).2
      obtain ⟨⟨hsession, hgeneration⟩, hrecords⟩ :=
        ScanCoordinator.acquire_records h.consistent.filed lane.kind a.relativePath priority
      rw [hl] at hrecords
      simp only [DeletionWork.updateItem]
      rw [heq, hrecords.1, hsession, hgeneration]
      exact ⟨rfl, rfl⟩

/-! ## Results -/

theorem gives_finishStage (h : Sound s) (accepted : DeletionWorkStage → Bool)
    (id : DeletionWorkId) (completion : WorkCompletion) :
    Gives s.work (s.work.finishStage accepted id completion).1 := by
  have hgives := gives_finishLease h id completion
  unfold DeletionWork.finishStage
  split
  · exact .refl _
  · split
    · split
      · rename_i heq
        rw [heq] at hgives
        exact ⟨hgives.pending, hgives.era, hgives.active⟩
      · rename_i heq
        rw [heq] at hgives
        exact hgives
    · exact .refl _

theorem gives_planningSucceeded (h : Sound s) (id : DeletionWorkId) (plan : DeletionPlanSummary) :
    Gives s.work (s.work.planningSucceeded id plan).1 := by
  have hremoved : ∀ completion,
      Gives s.work ((s.work.finishLease id completion).1.removeItem id) := by
    intro completion
    have hgives := gives_finishLease h id completion
    exact ⟨hgives.pending, hgives.era, hgives.active⟩
  unfold DeletionWork.planningSucceeded
  split
  · exact .refl _
  · split
    · exact hremoved .Cancelled
    · split
      · exact hremoved .Failed
      · have hgives := gives_finishLease h id .Succeeded
        split
        · rename_i heq
          rw [heq] at hgives
          exact ⟨hgives.pending, hgives.era, hgives.active⟩
        · rename_i heq
          rw [heq] at hgives
          exact ⟨hgives.pending, hgives.era, hgives.active⟩
    · exact hremoved .Failed

/-- A result about an item in its lane only gives that item's lease back. -/
theorem gives_handle (h : Sound s) (ha : a ∈ s.work.items) {lane : Lane}
    (hlane : a.stage.lane = some lane) {result : WorkerResult}
    (hresult : result.isPlan = lane.isPlan) : Gives s.work (handle s.work a.id result).1 := by
  have hlanes : lane = if result.isPlan then .planner else .executor := by
    cases lane <;> simp [Lane.isPlan] at hresult <;> simp [hresult]
  have hplanner : lane = .planner → ∀ completion,
      Landed s a (s.work.finishPlanning a.id completion).1 := by
    rintro rfl completion
    exact (landed_finishStage h ha hlane (lane_of_planningOrCancelling.mp hlane) completion).2
  have hexecutor : lane = .executor → ∀ completion,
      Landed s a (s.work.finishExecution a.id completion).1 := by
    rintro rfl completion
    exact (landed_finishStage h ha hlane (lane_of_executing.mp hlane) completion).2
  cases result with
  | planned plan =>
    subst hlanes
    have hlanded := landed_planningSucceeded h ha hlane plan
    have hgives := gives_planningSucceeded h a.id plan
    simp only [handle]
    split
    · rename_i heq
      rwa [heq] at hgives
    · rename_i heq
      rw [heq] at hlanded hgives
      rwa [hlanded.discardCancelledEvent h]
  | planCancelled =>
    simp only [handle, DeletionWork.planningCancelled]
    rw [(hplanner hlanes .Cancelled).discardCancelledEvent h]
    exact gives_finishStage h _ _ _
  | planFailed =>
    simp only [handle, DeletionWork.planningFailed]
    rw [(hplanner hlanes .Failed).discardCancelledEvent h]
    exact gives_finishStage h _ _ _
  | planStale =>
    have hlanded := hplanner hlanes .Invalidated
    have hgives : Gives s.work (s.work.finishPlanning a.id .Invalidated).1 :=
      gives_finishStage h _ _ _
    simp only [handle, DeletionWork.planningStale]
    split
    · rename_i heq
      rwa [heq] at hgives
    · rename_i heq
      rw [heq] at hlanded hgives
      rwa [hlanded.discardCancelledEvent h]
  | executed completion =>
    have hlanded := hexecutor hlanes completion
    have hgives : Gives s.work (s.work.finishExecution a.id completion).1 :=
      gives_finishStage h _ _ _
    simp only [handle, DeletionWork.executionFinished]
    split
    · rename_i heq
      rwa [heq] at hgives
    · rename_i heq
      rw [heq] at hlanded hgives
      rwa [hlanded.discardCancelledEvent h]
  | executionFailed => exact gives_finishStage h _ _ _
  | executionStale => exact gives_finishStage h _ _ _

theorem Owned.landed (h : Sound s) (ho : Owned s) (ha : a ∈ s.work.items) {lane : Lane}
    (hlane : a.stage.lane = some lane) {w : DeletionWork} (hl : Landed s a w)
    (hg : Gives s.work w) (commands : List DeletionWorkCommand) : Owned ⟨w, commands⟩ := by
  refine ho.of_gives hg ?_
  intro item hitem hkept
  have hne : (∀ e ∈ w.leases, e.1 ≠ a.id) → item.id ≠ a.id := by
    intro hgone heq
    rcases hkept with ⟨kind, hwaits, -⟩ | ⟨l, hl⟩
    · obtain rfl : item = a := Keyed.eq_of_key_eq h.ids_nodup hitem ha heq
      have hidle := idle_of_waitsFor hwaits
      rw [hlane] at hidle
      simp at hidle
    · exact hgone _ hl heq
  refine ⟨item, ?_, rfl, rfl, fun _ hkind => hkind⟩
  cases hl with
  | removed w' hr heq =>
    subst heq
    simp only [DeletionWork.removeItem, hr.items]
    rw [Keyed.mem_eraseP h.ids_nodup (Keyed.find?_key h.ids_nodup ha)]
    exact ⟨hitem, hne (hr.gone h)⟩
  | planned w' plan hr hpath heq =>
    subst heq
    simp only [DeletionWork.updateItem, hr.items]
    rw [Keyed.mem_updateFirst h.ids_nodup (Keyed.find?_key h.ids_nodup ha)]
    exact Or.inr ⟨hitem, hne (hr.gone h)⟩

theorem owned_receive (h : Sound s) (ho : Owned s) (workId : DeletionWorkId)
    (result : WorkerResult) : Owned (s.receive workId result).1 := by
  unfold receive
  cases hcommand : s.withWorker.find? (answersTo workId result) with
  | none => exact ho
  | some command =>
    obtain ⟨rfl, hkind⟩ := answersTo_iff.mp (List.find?_some hcommand)
    cases hfind : s.work.findItem command.workId with
    | none =>
      dsimp only
      rw [handle_absent h hfind result]
      exact ⟨ho.pending, ho.active⟩
    | some item =>
      obtain ⟨ha, hid⟩ := find_item hfind
      obtain ⟨lane, hlane, hplan⟩ :=
        h.lane_of_command (List.mem_of_find?_eq_some hcommand) ha hid
      dsimp only
      rw [← hid]
      have hresult : result.isPlan = lane.isPlan := hkind ▸ hplan
      exact ho.landed h ha hlane (landed_handle h ha hlane hresult)
        (gives_handle h ha hlane hresult) _

/-! ## New items, other clients and new generations -/

theorem enqueueConfirmation_appends (w : DeletionWork) (target : FileToDelete) (reduced : Bool)
    (bytes now : Nat) :
    ∃ fresh, (w.enqueueConfirmation target reduced bytes now).1.items = w.items ++ fresh ∧
      (∀ item ∈ fresh, item.path = target.fullPath ∧ item.relativePath = ⟨target.pathToFile⟩) ∧
      (w.enqueueConfirmation target reduced bytes now).1.coordinator = w.coordinator ∧
      (w.enqueueConfirmation target reduced bytes now).1.leases = w.leases := by
  unfold DeletionWork.enqueueConfirmation DeletionWork.enqueue
  dsimp only
  generalize (if reduced = true then DeletionWorkStage.QueuedPlanning target reduced bytes
    else .AwaitingConfirmation target reduced bytes) = stage
  split
  · exact ⟨[], by simp, by simp, rfl, rfl⟩
  split
  · exact ⟨[], by simp, by simp, rfl, rfl⟩
  · refine ⟨_, rfl, ?_, rfl, rfl⟩
    intro item hitem
    rw [List.mem_singleton.mp hitem]
    exact ⟨rfl, rfl⟩

theorem owned_enqueueConfirmation (ho : Owned s) (target : FileToDelete) (reduced : Bool)
    (bytes now : Nat) :
    Owned ⟨(s.work.enqueueConfirmation target reduced bytes now).1, s.withWorker⟩ := by
  obtain ⟨fresh, hitems, -, hcoordinator, hleases⟩ :=
    enqueueConfirmation_appends s.work target reduced bytes now
  refine ho.of_gives (gives_of_eq hcoordinator hleases) ?_
  intro item hitem _
  refine ⟨item, ?_, rfl, rfl, fun _ hkind => hkind⟩
  simp only [hitems]
  exact List.mem_append_left _ hitem

/-- A call of a scan leaves the deletion keys and leases as they are. -/
theorem scanCall_deletions {c : ScanCoordinator} (h : c.Consistent) {call : ScanCoordinator.Call}
    (hscan : isScanCall call = true) :
    ScanCoordinator.SameEra c (c.answer call).1 ∧
      (∀ key ∈ (c.answer call).1.pending, key.kind.isScanWork = false → key ∈ c.pending) ∧
      ∀ (id : LeaseId) (l : WorkLease), (c.answer call).1.active[id]? = some l →
        l.key.kind.isScanWork = false → c.active[id]? = some l := by
  have hgranted : ∀ (c' : ScanCoordinator) (key : WorkKey) (l : WorkLease),
      key.kind.isScanWork = true → ScanCoordinator.Granted c c' key l →
      ScanCoordinator.SameEra c c' ∧
        (∀ key ∈ c'.pending, key.kind.isScanWork = false → key ∈ c.pending) ∧
        ∀ (id : LeaseId) (x : WorkLease), c'.active[id]? = some x →
          x.key.kind.isScanWork = false → c.active[id]? = some x := by
    intro c' key l hkey hg
    refine ⟨hg.era, fun k hk _ => ((hg.pending k).mp hk).1, ?_⟩
    intro id x hx hkind
    rw [hg.active] at hx
    split at hx
    · obtain rfl := Option.some.inj hx
      rw [hg.key_eq, hkey] at hkind
      simp at hkind
    · exact hx
  have hswept : ∀ terminal, ScanCoordinator.SameEra c
        (c.terminateMatching terminal ScanCoordinator.isEnumerate) ∧
      (∀ key ∈ (c.terminateMatching terminal ScanCoordinator.isEnumerate).pending,
        key.kind.isScanWork = false → key ∈ c.pending) ∧
      ∀ (id : LeaseId) (l : WorkLease),
        (c.terminateMatching terminal ScanCoordinator.isEnumerate).active[id]? = some l →
        l.key.kind.isScanWork = false → c.active[id]? = some l := by
    intro terminal
    refine ⟨ScanCoordinator.sameEra_terminateMatching _ _ _, ?_, ?_⟩
    · exact fun k hk _ => ((ScanCoordinator.mem_pending_terminateMatching _ _ _ _).mp hk).1
    · exact fun id l hl _ => (ScanCoordinator.active_terminateMatching hl).1
  cases call with
  | schedule key priority =>
    refine ⟨ScanCoordinator.sameEra_schedule _ _ _, ?_, ?_⟩
    · intro k hk hkind
      rcases (ScanCoordinator.mem_pending_schedule c key priority k).mp hk with hk | ⟨rfl, -⟩
      · exact hk
      · rw [show k.kind.isScanWork = true from hscan] at hkind
        simp at hkind
    · intro id l hl _
      simpa only [ScanCoordinator.answer, Prod.map_fst, id_eq,
        (ScanCoordinator.schedule_keeps c key priority).1] using hl
  | focus path => exact ⟨⟨rfl, rfl⟩, fun _ hk _ => hk, fun _ _ hl _ => hl⟩
  | leaseNextScan =>
    rcases ScanCoordinator.leaseNextScan_granted h.filed with hnone | ⟨w, l, -, hw, -, hg⟩
    · simp only [ScanCoordinator.answer, hnone]
      exact ⟨.refl _, fun _ hk _ => hk, fun _ _ hl _ => hl⟩
    · exact hgranted _ _ _ hw hg
  | leaseExact key =>
    rcases ScanCoordinator.leaseExact_granted h.filed key with hnone | ⟨l, -, hg⟩
    · simp only [ScanCoordinator.answer, hnone]
      exact ⟨.refl _, fun _ hk _ => hk, fun _ _ hl _ => hl⟩
    · exact hgranted _ _ _ hscan hg
  | finish lease completion =>
    refine ⟨ScanCoordinator.sameEra_finish _ _ _, ?_, ?_⟩
    · intro k hk _
      simpa only [ScanCoordinator.answer, Prod.map_fst, id_eq,
        ScanCoordinator.finish_pending] using hk
    · exact fun id l hl _ => (ScanCoordinator.active_finish hl).1
  | requeue lease =>
    refine ⟨ScanCoordinator.sameEra_requeue _ _, ?_, ?_⟩
    · intro k hk hkind
      rcases (ScanCoordinator.mem_pending_requeue c lease k).mp hk with hk | ⟨rfl, -⟩
      · exact hk
      · rw [show lease.key.kind.isScanWork = true from hscan] at hkind
        simp at hkind
    · exact fun id l hl _ => (ScanCoordinator.active_requeue hl).1
  | cancelScanWork => exact hswept .Cancelled
  | failScanWork => exact hswept .Failed
  | invalidateScanWork => exact hswept .Invalidated
  | _ => simp [isScanCall] at hscan

theorem owned_shared (h : Sound s) (ho : Owned s) (call : ScanCall) :
    Owned ⟨{ s.work with coordinator := (s.work.coordinator.answer call.call).1 },
      s.withWorker⟩ := by
  obtain ⟨⟨hsession, hgeneration⟩, hpending, hactive⟩ :=
    scanCall_deletions h.consistent call.scan
  refine ⟨?_, ?_⟩
  · intro key hkey hkind
    simp only at hkey ⊢
    rw [hsession, hgeneration]
    exact ho.pending key (hpending key hkey hkind) hkind
  · intro id l hl hkind
    exact ho.active id l (hactive id l hl hkind) hkind

theorem owned_advance (ho : Owned s) (generation : ScanGeneration)
    (hclear : Tended s (.advanceGeneration generation)) :
    Owned ⟨{ s.work with coordinator := (s.work.coordinator.advance generation).1 },
      s.withWorker⟩ := by
  unfold ScanCoordinator.advance ScanCoordinator.advanceTo
  split
  · exact ho
  split
  · exact ho
  · rename_i hnewer
    refine ⟨?_, ?_⟩
    · intro key hkey hkind
      obtain ⟨hkey, -⟩ := (ScanCoordinator.mem_pending_terminateMatching _ _ _ _).mp hkey
      rw [hclear (not_le.mp hnewer) key hkey] at hkind
      simp at hkind
    · intro id l hl hkind
      exact ho.active id l (ScanCoordinator.active_terminateMatching hl).1 hkind

theorem owned_answer (h : Sound s) (ho : Owned s) (call : Call) (htended : Tended s call)
    (hleases : granted [(call, (s.answer call).2)] = 1 →
      s.work.coordinator.nextLease < satMax 64) : Owned (s.answer call).1 := by
  cases call with
  | enqueueConfirmation target reduced bytes now =>
    exact owned_enqueueConfirmation ho target reduced bytes now
  | takeNextConfirmation => exact owned_takeNextConfirmation h ho
  | returnConfirmation workId target => exact owned_returnConfirmation h ho workId target
  | queueConfirmation workId target now => exact owned_queueConfirmation h ho workId target now
  | cancelModal workId => exact owned_cancelModal h ho workId htended
  | cancelPending => exact owned_cancelPending h ho htended
  | discard workId => exact owned_discard h ho workId htended
  | nextPlanningCommand accepts =>
    refine owned_submit h ho (launched_planning h) accepts ?_
    exact fun hsome => hleases (granted_submit accepts _ hsome)
  | nextExecutionCommand accepts =>
    refine owned_submit h ho (launched_execution h) accepts ?_
    exact fun hsome => hleases (granted_submit accepts _ hsome)
  | result workId result => exact owned_receive h ho workId result
  | advanceGeneration generation => exact owned_advance ho generation htended
  | shared call => exact owned_shared h ho call

/-- The last call of a run is answered in a sound state with a lease id left for it. -/
theorem before_last {session : ScanSessionId} {generation : ScanGeneration} {calls : List Call}
    {call : Call} (hids : issued (machine.trace (new session generation) (calls ++ [call])) < 2 ^ 64)
    (hleases : granted (machine.trace (new session generation) (calls ++ [call])) < 2 ^ 64) :
    issued (machine.trace (new session generation) calls) < 2 ^ 64 ∧
      granted (machine.trace (new session generation) calls) < 2 ^ 64 ∧
      Sound (machine.run (new session generation) calls) ∧
      (granted [(call, ((machine.run (new session generation) calls).answer call).2)] = 1 →
        (machine.run (new session generation) calls).work.coordinator.nextLease < satMax 64) := by
  rw [machine.trace_append, issued_append] at hids
  rw [machine.trace_append, granted_append] at hleases
  have hi : issued (machine.trace (new session generation) calls) < 2 ^ 64 := by omega
  have hg : granted (machine.trace (new session generation) calls) < 2 ^ 64 := by omega
  obtain ⟨hsound, -, hnext⟩ := counts_run hi hg
  refine ⟨hi, hg, hsound, ?_⟩
  intro hone
  have hstep : granted (machine.trace (machine.run (new session generation) calls) [call]) = 1 :=
    hone
  rw [hnext, satMax]
  omega

theorem owned_run {session : ScanSessionId} {generation : ScanGeneration} {calls : List Call}
    (hids : issued (machine.trace (new session generation) calls) < 2 ^ 64)
    (hleases : granted (machine.trace (new session generation) calls) < 2 ^ 64)
    (htended : machine.Along Tended (new session generation) calls) :
    Owned (machine.run (new session generation) calls) := by
  induction calls using List.reverseRecOn with
  | nil => exact owned_new session generation
  | append_singleton calls call ih =>
    obtain ⟨hi, hg, hsound, hroom⟩ := before_last hids hleases
    obtain ⟨hbefore, hcall⟩ := machine.along_append.mp htended
    rw [machine.run_append]
    exact owned_answer hsound (ih hi hg hbefore) call hcall.1 hroom

/-! ## Items that leave -/

/-- What an item keeps for as long as it is on the rail. -/
def label (item : DeletionWorkItem) : DeletionWorkId × NativePath × RelativePath :=
  (item.id, item.path, item.relativePath)

/-- No item is new. -/
def Fewer (s s' : Rail) : Prop :=
  (s'.work.items.map label).Sublist (s.work.items.map label)

theorem fewer_answer (s : Rail) {call : Call}
    (hcall : ∀ target reduced bytes now, call ≠ .enqueueConfirmation target reduced bytes now) :
    Fewer s (s.answer call).1 := by
  have hthins := List.Sublist.map (fun terms : DeletionWorkId × NativePath × RelativePath × Nat =>
    (terms.1, terms.2.1, terms.2.2.1)) (thins_answer s hcall)
  rw [List.map_map, List.map_map] at hthins
  exact hthins

/-- Every target of the session lies under its one scan root. -/
def Call.RootedAt (root : NativePath) : Call → Prop
  | .enqueueConfirmation target _ _ _ => target.pathInFilesystem = root
  | _ => True

/-- The native path of every item is its path under `root`. -/
def RootedAt (s : Rail) (root : NativePath) : Prop :=
  ∀ item ∈ s.work.items, item.path = root ++ item.relativePath.components.map Component.bytes

theorem Fewer.from_item (h : Fewer s s') {b : DeletionWorkItem} (hb : b ∈ s'.work.items) :
    ∃ item ∈ s.work.items, label item = label b := by
  have hmem := h.subset (List.mem_map_of_mem hb)
  obtain ⟨item, hitem, heq⟩ := List.mem_map.mp hmem
  exact ⟨item, hitem, heq⟩

theorem rootedAt_answer {root : NativePath} (hrooted : s.RootedAt root) {call : Call}
    (hcall : call.RootedAt root) : (s.answer call).1.RootedAt root := by
  by_cases hnew : ∃ target reduced bytes now, call = .enqueueConfirmation target reduced bytes now
  · obtain ⟨target, reduced, bytes, now, rfl⟩ := hnew
    obtain ⟨fresh, hitems, hfresh, -⟩ :=
      enqueueConfirmation_appends s.work target reduced bytes now
    intro item hitem
    simp only [answer, hitems] at hitem
    rcases List.mem_append.mp hitem with hitem | hitem
    · exact hrooted item hitem
    · obtain ⟨hpath, hrelative⟩ := hfresh item hitem
      rw [hpath, hrelative, FileToDelete.fullPath, hcall]
  · have hfewer : Fewer s (s.answer call).1 := by
      refine fewer_answer s ?_
      intro target reduced bytes now heq
      exact hnew ⟨target, reduced, bytes, now, heq⟩
    intro b hb
    obtain ⟨item, hitem, hlabel⟩ := hfewer.from_item hb
    simp only [label, Prod.mk.injEq] at hlabel
    rw [← hlabel.2.1, ← hlabel.2.2]
    exact hrooted item hitem

theorem targetsOverlap_self (path : NativePath) : targetsOverlap path path = true := by
  simp [targetsOverlap]

theorem Sound.eq_of_relativePath (h : Sound s) {root : NativePath} (hrooted : s.RootedAt root)
    {b : DeletionWorkItem} (ha : a ∈ s.work.items) (hb : b ∈ s.work.items)
    (hpath : a.relativePath = b.relativePath) : a = b := by
  have hnative : a.path = b.path := by rw [hrooted a ha, hrooted b hb, hpath]
  have hnodup : (s.work.items.map DeletionWorkItem.path).Nodup := by
    refine h.apart.imp ?_
    intro left right hoverlap heq
    rw [heq, targetsOverlap_self] at hoverlap
    simp at hoverlap
  exact Keyed.eq_of_key_eq hnodup ha hb hnative

/-- An item that a step takes off the rail leaves no key of its path behind. -/
theorem Owned.left (h : Sound s) {call : Call} (ho : Owned (s.answer call).1) {root : NativePath}
    (hrooted : s.RootedAt root) (ha : a ∈ s.work.items)
    (hleft : ∀ b ∈ (s.answer call).1.work.items, b.id ≠ a.id)
    {key : WorkKey} (hkey : (s.answer call).1.Recorded key)
    (hkind : key.kind.isScanWork = false) : key.path ≠ a.relativePath := by
  intro hpath
  by_cases hnew : ∃ target reduced bytes now, call = .enqueueConfirmation target reduced bytes now
  · obtain ⟨target, reduced, bytes, now, rfl⟩ := hnew
    obtain ⟨fresh, hitems, -⟩ := enqueueConfirmation_appends s.work target reduced bytes now
    refine hleft a ?_ rfl
    simp only [answer, hitems]
    exact List.mem_append_left _ ha
  · have hfewer : Fewer s (s.answer call).1 := by
      refine fewer_answer s ?_
      intro target reduced bytes now heq
      exact hnew ⟨target, reduced, bytes, now, heq⟩
    obtain ⟨b, hb, hbpath⟩ := ho.recorded hkey hkind
    obtain ⟨item, hitem, hlabel⟩ := hfewer.from_item hb
    simp only [label, Prod.mk.injEq] at hlabel
    have heq : item = a := by
      refine h.eq_of_relativePath hrooted hitem ha ?_
      rw [hlabel.2.2, hbpath, hpath]
    exact hleft b hb (by rw [← hlabel.1, heq])

theorem rootedAt_run {session : ScanSessionId} {generation : ScanGeneration} {root : NativePath}
    {calls : List Call} (hroot : ∀ call ∈ calls, call.RootedAt root) :
    (machine.run (new session generation) calls).RootedAt root := by
  refine (machine.run_along (C := fun _ call => call.RootedAt root) (I := fun s => s.RootedAt root)
    (R := fun _ _ => True) (fun _ => trivial) (fun _ _ _ _ _ => trivial) ?_ ?_
    (machine.along_of_forall hroot _)).1
  · exact fun s call hrooted hcall => ⟨rootedAt_answer hrooted hcall, trivial⟩
  · intro item hitem
    cases hitem

/-- In every run whose calls are tended, each deletion key the coordinator holds belongs to an
item on the rail, and the items that leave take theirs with them. -/
theorem no_orphan_deletion_work (session : ScanSessionId) (generation : ScanGeneration)
    (calls : List Call)
    (hids : issued (machine.trace (new session generation) calls) < 2 ^ 64)
    (hleases : granted (machine.trace (new session generation) calls) < 2 ^ 64)
    (htended : machine.Along Tended (new session generation) calls) :
    (∀ key, (machine.run (new session generation) calls).Recorded key →
      key.kind.isScanWork = false →
        ∃ item ∈ (machine.run (new session generation) calls).work.items,
          item.relativePath = key.path) ∧
    ∀ root, (∀ call ∈ calls, call.RootedAt root) → ∀ before call after,
      calls = before ++ call :: after →
        ∀ item ∈ (machine.run (new session generation) before).work.items,
          (∀ b ∈ (machine.run (new session generation) (before ++ [call])).work.items,
            b.id ≠ item.id) →
          ∀ key, (machine.run (new session generation) (before ++ [call])).Recorded key →
            key.kind.isScanWork = false → key.path ≠ item.relativePath := by
  refine ⟨fun key hkey hkind => (owned_run hids hleases htended).recorded hkey hkind, ?_⟩
  intro root hroot before call after hsplit item hitem hleft key hkey hkind
  have hcalls : calls = (before ++ [call]) ++ after := by simp [hsplit]
  subst hcalls
  rw [machine.trace_append] at hids hleases
  rw [issued_append] at hids
  rw [granted_append] at hleases
  have howned := owned_run (by omega) (by omega) (machine.along_append.mp htended).1
  obtain ⟨-, -, hsound, -⟩ := before_last (Nat.lt_of_add_right_lt hids)
    (Nat.lt_of_add_right_lt hleases)
  have hrooted := @rootedAt_run session generation root before
    (fun x hx => hroot x (by simp [hx]))
  rw [machine.run_append] at howned hkey hleft
  exact howned.left hsound hrooted hitem hleft hkey hkind

/-- A plan the busy worker sent back waits again: its key is recorded with its item. -/
theorem no_orphan_deletion_work_restored :
    ∃ item ∈ (machine.run (new ⟨7⟩ ⟨0⟩)
        [.enqueueConfirmation ⟨[[47]], [⟨[97], by decide⟩]⟩ true 10 0,
          .nextPlanningCommand false]).work.items, item.relativePath = ⟨[⟨[97], by decide⟩]⟩ :=
  (no_orphan_deletion_work ⟨7⟩ ⟨0⟩
    [.enqueueConfirmation ⟨[[47]], [⟨[97], by decide⟩]⟩ true 10 0, .nextPlanningCommand false]
    (by decide) (by decide) (by exact ⟨trivial, trivial, trivial⟩)).1
    ⟨⟨7⟩, ⟨0⟩, .PlanDeletion, ⟨[⟨[97], by decide⟩]⟩⟩ (Or.inl (by decide)) rfl

/-- A plan the busy worker sent back is cancelled with everything pending: its key stays. -/
theorem cancelled_restored_key_stays :
    ¬∀ key, (machine.run (new ⟨7⟩ ⟨0⟩)
      [.enqueueConfirmation ⟨[[47]], [⟨[97], by decide⟩]⟩ true 10 0, .nextPlanningCommand false,
        .cancelPending]).Recorded key → key.kind.isScanWork = false →
      ∃ item ∈ (machine.run (new ⟨7⟩ ⟨0⟩)
        [.enqueueConfirmation ⟨[[47]], [⟨[97], by decide⟩]⟩ true 10 0, .nextPlanningCommand false,
          .cancelPending]).work.items, item.relativePath = key.path := by
  intro h
  obtain ⟨item, hitem, -⟩ := h ⟨⟨7⟩, ⟨0⟩, .PlanDeletion, ⟨[⟨[97], by decide⟩]⟩⟩
    (Or.inl (by decide)) rfl
  have hnone : (machine.run (new ⟨7⟩ ⟨0⟩)
      [.enqueueConfirmation ⟨[[47]], [⟨[97], by decide⟩]⟩ true 10 0, .nextPlanningCommand false,
        .cancelPending]).work.items = [] := List.eq_nil_of_length_eq_zero (by decide)
  rw [hnone] at hitem
  simp at hitem

end Excise.Rail
