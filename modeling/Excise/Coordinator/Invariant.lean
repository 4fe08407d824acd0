import Excise.Coordinator.Indexes

/-!
# The indexes agree in every reachable state

Selection only returns pending items that may be leased, so every call keeps `Consistent`,
and with it the representation invariant holds after any run that grants fewer leases than
there are lease ids.
-/

namespace Excise.ScanCoordinator
set_option autoImplicit false

variable {c : ScanCoordinator}

theorem filed_schedule (h : Filed c) (key : WorkKey) (priority : WorkPriority) :
    Filed (c.schedule key priority).1 := by
  unfold schedule
  split
  · exact h
  split
  · exact h
  split
  · exact h
  rename_i hkey
  have hactive : c.activeByKey[key]? = none := by
    rw [← Maps.not_mem_iff, Std.TreeMap.mem_iff_contains]
    exact hkey
  dsimp only
  split
  · rename_i x hx
    split
    · exact h
    · exact filed_raise h hx _
  · rename_i hpending
    exact filed_addPending h _ hpending hactive

/-- Scheduling touches the pending side only. -/
theorem schedule_keeps (c : ScanCoordinator) (key : WorkKey) (priority : WorkPriority) :
    (c.schedule key priority).1.active = c.active ∧
    (c.schedule key priority).1.activeByKey = c.activeByKey ∧
    (c.schedule key priority).1.activeDeletionExecution = c.activeDeletionExecution ∧
    (c.schedule key priority).1.nextLease = c.nextLease := by
  unfold schedule
  split
  · exact ⟨rfl, rfl, rfl, rfl⟩
  split
  · exact ⟨rfl, rfl, rfl, rfl⟩
  split
  · exact ⟨rfl, rfl, rfl, rfl⟩
  dsimp only
  split
  · split
    · exact ⟨rfl, rfl, rfl, rfl⟩
    · exact ⟨rfl, rfl, rfl, rfl⟩
  · exact ⟨rfl, rfl, rfl, rfl⟩

theorem consistent_schedule (h : Consistent c) (key : WorkKey) (priority : WorkPriority) :
    Consistent (c.schedule key priority).1 := by
  obtain ⟨ha, hk, hd, hn⟩ := schedule_keeps c key priority
  exact h.of_filed (filed_schedule h.filed key priority) ha hk hd hn

/-- The item `lease_next` or `lease_next_scan` picks is pending and may be leased now. -/
def Selectable (c : ScanCoordinator) (queued : QueuedWork) : Prop :=
  (∃ p, c.pending[queued.key]? = some ⟨p, queued⟩) ∧
    (queued.key.kind = .ExecuteDeletion → c.activeDeletionExecution = none)

theorem selectable_of_eligible {p : WorkPriority} {w : QueuedWork}
    (hw : c.pending[w.key]? = some ⟨p, w⟩)
    (he : ReadyQueues.eligible c.activeDeletionExecution.isSome w = true) : c.Selectable w := by
  refine ⟨⟨p, hw⟩, ?_⟩
  intro hkind
  simpa [ReadyQueues.eligible, hkind] using he

theorem selectable_of_scanWork {p : WorkPriority} {w : QueuedWork}
    (hw : c.pending[w.key]? = some ⟨p, w⟩) (he : w.key.kind.isScanWork = true) :
    c.Selectable w := by
  refine ⟨⟨p, hw⟩, ?_⟩
  intro hkind
  simp [hkind, WorkKind.isScanWork] at he

theorem selectable_firstEligible (h : Filed c) {p : WorkPriority} {w : QueuedWork}
    (hw : c.queues.firstEligible p c.activeDeletionExecution.isSome = some w) :
    c.Selectable w := by
  obtain ⟨hmem, he⟩ := ReadyQueues.mem_of_firstEligible hw
  exact selectable_of_eligible ((h.ready p w).mp hmem) he

theorem selectable_firstUnder (h : Filed c) {p : WorkPriority} {pre : RelativePath}
    {w : QueuedWork} (hw : c.queues.firstUnder p pre c.activeDeletionExecution.isSome = some w) :
    c.Selectable w := by
  obtain ⟨path, hmem, -, he⟩ := ReadyQueues.mem_of_firstUnder hw
  exact selectable_of_eligible ((h.indexed p path w).mp hmem).2 he

theorem selectable_firstScanEligible (h : Filed c) {p : WorkPriority} {w : QueuedWork}
    (hw : c.queues.firstScanEligible p = some w) : c.Selectable w := by
  obtain ⟨hmem, he⟩ := ReadyQueues.mem_of_firstScanEligible hw
  exact selectable_of_scanWork ((h.ready p w).mp hmem) he

theorem selectable_firstScanUnder (h : Filed c) {p : WorkPriority} {pre : RelativePath}
    {w : QueuedWork} (hw : c.queues.firstScanUnder p pre = some w) : c.Selectable w := by
  obtain ⟨path, hmem, -, he⟩ := ReadyQueues.mem_of_firstScanUnder hw
  exact selectable_of_scanWork ((h.indexed p path w).mp hmem).2 he

theorem selectable_nextFocusedQueued (h : Filed c) {w : QueuedWork}
    (hw : c.nextFocusedQueued c.activeDeletionExecution.isSome = some w) : c.Selectable w := by
  obtain ⟨path, -, hw⟩ := List.exists_of_findSome?_eq_some hw
  obtain ⟨p, -, hw⟩ := List.exists_of_findSome?_eq_some hw
  exact selectable_firstUnder h hw

theorem eq_some_of_map_flag {o : Option QueuedWork} {w : QueuedWork} {flag focused : Bool}
    (h : o.map (fun queued => (queued, flag)) = some (w, focused)) : o = some w := by
  obtain ⟨w', rfl, heq⟩ := Option.map_eq_some_iff.mp h
  rw [(Prod.mk.inj heq).1]

theorem selectable_nextQueued (h : Filed c) {w : QueuedWork} {focused : Bool}
    (hw : c.nextQueued = some (w, focused)) : c.Selectable w := by
  simp only [nextQueued, Option.or_eq_some_iff] at hw
  rcases hw with hw | ⟨-, hw | ⟨-, hw | ⟨-, hw | ⟨-, hw⟩⟩⟩⟩
  · exact selectable_firstEligible h (eq_some_of_map_flag hw)
  · split at hw
    · exact selectable_firstEligible h (eq_some_of_map_flag hw)
    · simp at hw
  · exact selectable_firstEligible h (eq_some_of_map_flag hw)
  · exact selectable_nextFocusedQueued h (eq_some_of_map_flag hw)
  · obtain ⟨p, -, hw⟩ := List.exists_of_findSome?_eq_some hw
    exact selectable_firstEligible h (eq_some_of_map_flag hw)

theorem selectable_nextScanQueued (h : Filed c) {w : QueuedWork} {focused : Bool}
    (hw : c.nextScanQueued = some (w, focused)) : c.Selectable w := by
  simp only [nextScanQueued, Option.or_eq_some_iff] at hw
  rcases hw with hw | ⟨-, hw | ⟨-, hw | ⟨-, hw⟩⟩⟩
  · split at hw
    · exact selectable_firstScanEligible h (eq_some_of_map_flag hw)
    · simp at hw
  · exact selectable_firstScanEligible h (eq_some_of_map_flag hw)
  · obtain ⟨path, -, hw⟩ := List.exists_of_findSome?_eq_some hw
    obtain ⟨p, -, hw⟩ := List.exists_of_findSome?_eq_some hw
    exact selectable_firstScanUnder h (eq_some_of_map_flag hw)
  · obtain ⟨p, -, hw⟩ := List.exists_of_findSome?_eq_some hw
    exact selectable_firstScanEligible h (eq_some_of_map_flag hw)

theorem leaseNext_cases (h : Filed c) :
    c.leaseNext = (c, none) ∨ ∃ w focused, c.Selectable w ∧ c.leaseNext = c.leaseQueued w focused := by
  unfold leaseNext
  split
  · exact Or.inl rfl
  · rename_i w focused hw
    exact Or.inr ⟨w, focused, selectable_nextQueued h hw, rfl⟩

theorem leaseNextScan_cases (h : Filed c) :
    c.leaseNextScan = (c, none) ∨
      ∃ w focused, c.Selectable w ∧ c.leaseNextScan = c.leaseQueued w focused := by
  unfold leaseNextScan
  split
  · exact Or.inl rfl
  · rename_i w focused hw
    exact Or.inr ⟨w, focused, selectable_nextScanQueued h hw, rfl⟩

theorem leaseExact_cases (h : Filed c) (key : WorkKey) :
    c.leaseExact key = (c, none) ∨
      ∃ w focused, c.Selectable w ∧ c.leaseExact key = c.leaseQueued w focused := by
  unfold leaseExact
  split
  · exact Or.inl rfl
  · rename_i x hx
    split
    · exact Or.inl rfl
    · rename_i hexec
      have hkey := h.pending_key _ _ hx
      refine Or.inr ⟨x.queued, false, ⟨⟨x.priority, by rw [hkey]; exact hx⟩, ?_⟩, rfl⟩
      intro hkind
      simpa [hkind] using hexec

theorem lease_cases (h : Consistent c) {call : Call}
    (hcall : call = .leaseNext ∨ call = .leaseNextScan ∨ ∃ key, call = .leaseExact key) :
    c.answer call = (c, .leased none) ∨ ∃ w focused, c.Selectable w ∧
      c.answer call = ((c.leaseQueued w focused).1, .leased (c.leaseQueued w focused).2) := by
  rcases hcall with rfl | rfl | ⟨key, rfl⟩
  · rcases leaseNext_cases h.filed with hl | ⟨w, focused, hw, hl⟩
    · exact Or.inl (by simp [answer, hl])
    · exact Or.inr ⟨w, focused, hw, by simp [answer, hl, Prod.map]⟩
  · rcases leaseNextScan_cases h.filed with hl | ⟨w, focused, hw, hl⟩
    · exact Or.inl (by simp [answer, hl])
    · exact Or.inr ⟨w, focused, hw, by simp [answer, hl, Prod.map]⟩
  · rcases leaseExact_cases h.filed key with hl | ⟨w, focused, hw, hl⟩
    · exact Or.inl (by simp [answer, hl])
    · exact Or.inr ⟨w, focused, hw, by simp [answer, hl, Prod.map]⟩

theorem consistent_finish (h : Consistent c) (lease : WorkLease) (completion : WorkCompletion) :
    Consistent (c.finish lease completion).1 := by
  unfold finish
  split
  · exact consistent_recordTerminal (consistent_removeActive h _) _ _
  · exact h

theorem consistent_requeue (h : Consistent c) (lease : WorkLease) :
    Consistent (c.requeue lease).1 := by
  unfold requeue
  split
  · rename_i hl
    have hkey := h.key_of_active _ _ hl
    refine consistent_addPending (consistent_removeActive h _) _ ?_ ?_
    · rw [removeActive_pending]
      cases hp : c.pending[lease.key]? with
      | none => rfl
      | some x => simp [h.disjoint _ _ hp] at hkey
    · rw [getElem?_removeActive_byKey h, if_pos hkey]
  · exact h

theorem consistent_advanceTo (h : Consistent c) (generation : ScanGeneration) :
    Consistent (c.advanceTo generation).1 := by
  unfold advanceTo
  split
  · exact h
  · have hended := consistent_terminateMatching h .Invalidated fun key => key.kind.isScanWork
    generalize c.terminateMatching .Invalidated (fun key => key.kind.isScanWork) = ended at hended ⊢
    exact hended.of_eq rfl rfl rfl rfl rfl rfl

theorem consistent_lease (h : Consistent c) {w : QueuedWork} (hw : c.Selectable w)
    (hroom : c.nextLease < satMax 64) (focused : Bool) :
    Consistent (c.leaseQueued w focused).1 := by
  obtain ⟨⟨p, hp⟩, hfree⟩ := hw
  exact consistent_leaseQueued h hp hfree hroom focused

theorem leaseQueued_granted {w : QueuedWork} (hw : c.Selectable w) (focused : Bool) :
    ∃ l : WorkLease, (c.leaseQueued w focused).2 = some l ∧ l.id.value = c.nextLease ∧
      (∀ a, (c.leaseQueued w focused).1.active[a]? = if l.id = a then some l else c.active[a]?) ∧
      (c.leaseQueued w focused).1.nextLease = satAdd 64 c.nextLease 1 := by
  obtain ⟨⟨p, hp⟩, -⟩ := hw
  rw [leaseQueued, hp]
  exact ⟨_, rfl, rfl, fun a => Maps.getElem?_insert _ _ _ _, rfl⟩

/-- Every call keeps the indexes consistent as long as lease ids are not exhausted. -/
theorem consistent_answer (h : Consistent c) (call : Call)
    (hroom : (c.answer call).2.granted.isSome → c.nextLease < satMax 64) :
    Consistent (c.answer call).1 := by
  have hlease : (call = .leaseNext ∨ call = .leaseNextScan ∨ ∃ key, call = .leaseExact key) →
      Consistent (c.answer call).1 := by
    intro hcall
    rcases lease_cases h hcall with hnone | ⟨w, focused, hw, heq⟩
    · rw [hnone]
      exact h
    · obtain ⟨l, hl, -⟩ := leaseQueued_granted hw focused
      rw [heq] at hroom ⊢
      exact consistent_lease h hw (hroom (by simp [Answer.granted, hl])) focused
  cases call with
  | schedule key priority => exact consistent_schedule h key priority
  | focus path => exact h.of_eq rfl rfl rfl rfl rfl rfl
  | leaseNext => exact hlease (Or.inl rfl)
  | leaseNextScan => exact hlease (Or.inr (Or.inl rfl))
  | leaseExact key => exact hlease (Or.inr (Or.inr ⟨key, rfl⟩))
  | finish lease completion => exact consistent_finish h lease completion
  | requeue lease => exact consistent_requeue h lease
  | cancelAll => exact consistent_terminateAll c .Cancelled
  | failAll => exact consistent_terminateAll c .Failed
  | invalidateAll => exact consistent_terminateAll c .Invalidated
  | cancelScanWork => exact consistent_terminateMatching h .Cancelled isEnumerate
  | failScanWork => exact consistent_terminateMatching h .Failed isEnumerate
  | invalidateScanWork => exact consistent_terminateMatching h .Invalidated isEnumerate
  | invalidatePrefix generation pre => exact consistent_invalidatePrefix h generation pre
  | advanceTo generation => exact consistent_advanceTo h generation
  | advanceGeneration =>
    simp only [answer, advanceGeneration, Prod.map]
    split
    · exact h
    · exact consistent_advanceTo h _

/-! ## The lease counter -/

@[simp] theorem terminateMatching_nextLease (c : ScanCoordinator) (terminal : WorkLifecycle)
    (matching : WorkKey → Bool) : (c.terminateMatching terminal matching).nextLease = c.nextLease := by
  simp [terminateMatching]

@[simp] theorem terminateAll_nextLease (c : ScanCoordinator) (terminal : WorkLifecycle) :
    (c.terminateAll terminal).nextLease = c.nextLease := by
  simp [terminateAll]

@[simp] theorem advanceTo_nextLease (c : ScanCoordinator) (generation : ScanGeneration) :
    (c.advanceTo generation).1.nextLease = c.nextLease := by
  unfold advanceTo
  split <;> simp

theorem leaseQueued_nextLease (c : ScanCoordinator) (queued : QueuedWork) (focused : Bool) :
    (c.leaseQueued queued focused).1.nextLease =
      if (c.leaseQueued queued focused).2.isSome then satAdd 64 c.nextLease 1 else c.nextLease := by
  unfold leaseQueued
  split <;> rfl

theorem nextLease_answer (c : ScanCoordinator) (call : Call) :
    (c.answer call).1.nextLease =
      if (c.answer call).2.granted.isSome then satAdd 64 c.nextLease 1 else c.nextLease := by
  cases call with
  | schedule key priority =>
    simpa [answer, Answer.granted] using (schedule_keeps c key priority).2.2.2
  | leaseNext =>
    change c.leaseNext.1.nextLease = if c.leaseNext.2.isSome then satAdd 64 c.nextLease 1 else c.nextLease
    unfold leaseNext
    split
    · rfl
    · exact leaseQueued_nextLease c _ _
  | leaseNextScan =>
    change c.leaseNextScan.1.nextLease = if c.leaseNextScan.2.isSome then satAdd 64 c.nextLease 1 else c.nextLease
    unfold leaseNextScan
    split
    · rfl
    · exact leaseQueued_nextLease c _ _
  | leaseExact key =>
    change (c.leaseExact key).1.nextLease = if (c.leaseExact key).2.isSome then satAdd 64 c.nextLease 1 else c.nextLease
    unfold leaseExact
    split
    · rfl
    · split
      · rfl
      · exact leaseQueued_nextLease c _ _
  | finish lease completion =>
    simp only [answer, finish, Prod.map, Answer.granted]
    split <;> simp
  | requeue lease =>
    simp only [answer, requeue, Prod.map, Answer.granted]
    split <;> simp [addPending]
  | invalidatePrefix generation pre =>
    simp [answer, invalidatePrefix, Answer.granted, foldl_invalidatePending,
      foldl_invalidateActive]
  | advanceGeneration =>
    simp only [answer, advanceGeneration, Prod.map, Answer.granted]
    split <;> simp
  | _ => simp [answer, Answer.granted, focus, cancelAll, failAll, invalidateAll, cancelScanWork,
      failScanWork, invalidateScanWork]

theorem room_of_answer (call : Call) (h : (c.answer call).1.nextLease < satMax 64) :
    c.nextLease < satMax 64 := by
  rw [nextLease_answer c call] at h
  split at h
  · have hnext := satAdd_eq_of_lt h
    omega
  · exact h

theorem grants_append (h : List (Call × Answer)) (call : Call) (answer : Answer) :
    grants (h ++ [(call, answer)]) = grants h + if answer.granted.isSome then 1 else 0 := by
  simp [grants, List.countP_append, List.countP_singleton]

/-- The invariant rule of the coordinator: while fewer leases are granted than there are ids,
every state is consistent, the next lease id is the number of grants so far, and whatever a
consistent state with room for a lease keeps holds of every run. -/
theorem run_rule {Q : List (Call × Answer) → ScanCoordinator → Prop} {session : ScanSessionId}
    {generation : ScanGeneration} (init : Q [] (new session generation))
    (step : ∀ h c call, Consistent c →
      ((c.answer call).2.granted.isSome → c.nextLease < satMax 64) → Q h c →
      Q (h ++ [(call, (c.answer call).2)]) (c.answer call).1)
    {calls : List Call}
    (hgrants : grants (machine.trace (new session generation) calls) < 2 ^ 64) :
    Consistent (machine.run (new session generation) calls) ∧
      (machine.run (new session generation) calls).nextLease =
        grants (machine.trace (new session generation) calls) ∧
      Q (machine.trace (new session generation) calls)
        (machine.run (new session generation) calls) := by
  refine machine.run_induction
    (P := fun h c => grants h < 2 ^ 64 → Consistent c ∧ c.nextLease = grants h ∧ Q h c)
    ?_ ?_ calls hgrants
  · exact fun _ => ⟨consistent_new session generation, rfl, init⟩
  · intro h c call ih hlt
    change grants (h ++ [(call, (c.answer call).2)]) < 2 ^ 64 at hlt
    change Consistent (c.answer call).1 ∧
      (c.answer call).1.nextLease = grants (h ++ [(call, (c.answer call).2)]) ∧ _
    rw [grants_append] at hlt ⊢
    obtain ⟨hc, hnext, hq⟩ := ih (by omega)
    have hroom : (c.answer call).2.granted.isSome → c.nextLease < satMax 64 := by
      intro hg
      rw [if_pos hg] at hlt
      rw [hnext, satMax]
      omega
    refine ⟨consistent_answer hc call hroom, ?_, step h c call hc hroom hq⟩
    rw [nextLease_answer c call]
    split
    · rename_i hg
      rw [satAdd_of_le (hroom hg), hnext]
    · simp [hnext]

theorem consistent_run {session : ScanSessionId} {generation : ScanGeneration} {calls : List Call}
    (hgrants : grants (machine.trace (new session generation) calls) < 2 ^ 64) :
    Consistent (machine.run (new session generation) calls) :=
  (run_rule (Q := fun _ _ => True) trivial (fun _ _ _ _ _ _ => trivial) hgrants).1

/-! ## The representation invariant -/

/-- The work items of the pending map, of the ready queues and of the per-path index: each a
priority with a queued record. -/
def pendingItems (c : ScanCoordinator) : Set (WorkPriority × QueuedWork) :=
  { e | ∃ k : WorkKey, c.pending[k]? = some ⟨e.1, e.2⟩ }

def queuedItems (c : ScanCoordinator) : Set (WorkPriority × QueuedWork) :=
  { e | e.2 ∈ c.queues.queue e.1 }

def indexedItems (c : ScanCoordinator) : Set (WorkPriority × QueuedWork) :=
  { e | ∃ path, e.2 ∈ c.queues.bucket e.1 path }

def ActiveLease (c : ScanCoordinator) (id : LeaseId) (l : WorkLease) : Prop :=
  c.active[id]? = some l

structure RepresentationInvariant (c : ScanCoordinator) : Prop where
  queued_eq_pending : c.queuedItems = c.pendingItems
  indexed_eq_pending : c.indexedItems = c.pendingItems
  pending_filed : ∀ (k : WorkKey) (x : PendingWork), c.pending[k]? = some x → x.queued.key = k
  index_filed : ∀ p path, ∀ w ∈ c.queues.bucket p path, w.key.path = path
  active_filed : ∀ id l, c.ActiveLease id l → l.id = id
  active_inverse : ∀ (id : LeaseId) (k : WorkKey),
    (∃ l, c.ActiveLease id l ∧ l.key = k) ↔ c.activeByKey[k]? = some id
  not_pending_and_active : ∀ k : WorkKey, ¬(k ∈ c.pending ∧ ∃ id l, c.ActiveLease id l ∧ l.key = k)
  deletion_iff : ∀ id, c.activeDeletionExecution = some id ↔
    ∃ l, c.ActiveLease id l ∧ l.key.kind = .ExecuteDeletion
  deletion_unique : ∀ id id' l l', c.ActiveLease id l → l.key.kind = .ExecuteDeletion →
    c.ActiveLease id' l' → l'.key.kind = .ExecuteDeletion → id = id' ∧ l = l'

theorem representationInvariant (h : Consistent c) : RepresentationInvariant c where
  queued_eq_pending := by
    ext ⟨p, w⟩
    simp only [queuedItems, pendingItems, Set.mem_ofPred_eq, h.ready]
    refine ⟨fun hw => ⟨w.key, hw⟩, ?_⟩
    rintro ⟨k, hk⟩
    have hkey := h.pending_key k _ hk
    simp only at hkey
    rwa [hkey]
  indexed_eq_pending := by
    ext ⟨p, w⟩
    simp only [indexedItems, pendingItems, Set.mem_ofPred_eq, h.indexed]
    refine ⟨fun ⟨_, _, hw⟩ => ⟨w.key, hw⟩, ?_⟩
    rintro ⟨k, hk⟩
    have hkey := h.pending_key k _ hk
    simp only at hkey
    exact ⟨w.key.path, rfl, by rwa [hkey]⟩
  pending_filed := h.pending_key
  index_filed := by
    intro p path w hw
    exact ((h.indexed p path w).mp hw).1.symm
  active_filed := h.active_id
  active_inverse := by
    intro id k
    constructor
    · rintro ⟨l, hl, rfl⟩
      exact h.key_of_active id l hl
    · exact h.active_of_key k id
  not_pending_and_active := by
    rintro k ⟨hk, id, l, hl, rfl⟩
    obtain ⟨x, hx⟩ := (Maps.mem_iff _ _).mp hk
    have hnone := h.disjoint _ _ hx
    rw [h.key_of_active id l hl] at hnone
    simp at hnone
  deletion_iff := h.deletion
  deletion_unique := by
    intro id id' l l' hl hkind hl' hkind'
    have hid := (h.deletion id).mpr ⟨l, hl, hkind⟩
    have hid' := (h.deletion id').mpr ⟨l', hl', hkind'⟩
    obtain rfl := Option.some.inj (hid.symm.trans hid')
    exact ⟨rfl, Option.some.inj (hl.symm.trans hl')⟩

/-- Every reachable coordinator, over any calls with any arguments. -/
theorem reachable_representationInvariant (session : ScanSessionId) (generation : ScanGeneration)
    (calls : List Call)
    (hgrants : grants (machine.trace (new session generation) calls) < 2 ^ 64) :
    RepresentationInvariant (machine.run (new session generation) calls) :=
  representationInvariant (consistent_run hgrants)

/-- Work on the child `name` of the root, in generation 0 of session 7. -/
def childKey (kind : WorkKind) (name : Component) : WorkKey := ⟨⟨7⟩, ⟨0⟩, kind, ⟨[name]⟩⟩

/-- Two deletions are scheduled; the second waits while the first is leased. -/
theorem reachable_representationInvariant_deletion :
    RepresentationInvariant (machine.run (new ⟨7⟩ ⟨0⟩)
      [.schedule (childKey .ExecuteDeletion ⟨[97], by decide⟩) .Background,
        .schedule (childKey .ExecuteDeletion ⟨[98], by decide⟩) .Safety, .leaseNext, .leaseNext]) :=
  reachable_representationInvariant _ _ _ (by decide)

end Excise.ScanCoordinator
