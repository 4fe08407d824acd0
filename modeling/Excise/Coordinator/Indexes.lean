import Excise.Coordinator.State

/-!
# What the coordinator's indexes owe one another

`Consistent` relates the four indexes of a `ScanCoordinator`. One lemma per shared step and
one per sweep shows that it survives; the operations are sequences of these.
-/

namespace Excise.ScanCoordinator
set_option autoImplicit false

structure Consistent (c : ScanCoordinator) : Prop where
  ready : ∀ p w, w ∈ c.queues.queue p ↔ c.pending[w.key]? = some ⟨p, w⟩
  indexed : ∀ p path w,
    w ∈ c.queues.bucket p path ↔ path = w.key.path ∧ c.pending[w.key]? = some ⟨p, w⟩
  pending_key : ∀ (k : WorkKey) (x : PendingWork), c.pending[k]? = some x → x.queued.key = k
  active_id : ∀ (id : LeaseId) (l : WorkLease), c.active[id]? = some l → l.id = id
  key_of_active : ∀ (id : LeaseId) (l : WorkLease), c.active[id]? = some l → c.activeByKey[l.key]? = some id
  active_of_key : ∀ (k : WorkKey) (id : LeaseId), c.activeByKey[k]? = some id →
    ∃ l : WorkLease, c.active[id]? = some l ∧ l.key = k
  disjoint : ∀ (k : WorkKey) (x : PendingWork), c.pending[k]? = some x → c.activeByKey[k]? = none
  deletion : ∀ id, c.activeDeletionExecution = some id ↔
    ∃ l : WorkLease, c.active[id]? = some l ∧ l.key.kind = .ExecuteDeletion
  fresh : ∀ (id : LeaseId) (l : WorkLease), c.active[id]? = some l → id.value < c.nextLease

variable {c : ScanCoordinator}

theorem consistent_new (session : ScanSessionId) (generation : ScanGeneration) :
    Consistent (new session generation) := by
  constructor <;> simp [new]

theorem Consistent.of_eq {c' : ScanCoordinator} (h : Consistent c) (hp : c'.pending = c.pending)
    (hq : c'.queues = c.queues) (ha : c'.active = c.active)
    (hk : c'.activeByKey = c.activeByKey)
    (hd : c'.activeDeletionExecution = c.activeDeletionExecution)
    (hn : c'.nextLease = c.nextLease) : Consistent c' := by
  cases c'
  subst hp hq ha hk hd hn
  exact ⟨h.ready, h.indexed, h.pending_key, h.active_id, h.key_of_active, h.active_of_key,
    h.disjoint, h.deletion, h.fresh⟩

theorem consistent_recordTerminal (h : Consistent c) (lifecycle : WorkLifecycle) (count : Nat) :
    Consistent (c.recordTerminal lifecycle count) := by
  cases lifecycle <;> exact h.of_eq rfl rfl rfl rfl rfl rfl

section RecordTerminal
variable (c : ScanCoordinator) (lifecycle : WorkLifecycle) (count : Nat)

@[simp] theorem recordTerminal_pending : (c.recordTerminal lifecycle count).pending = c.pending := by
  cases lifecycle <;> rfl

@[simp] theorem recordTerminal_active : (c.recordTerminal lifecycle count).active = c.active := by
  cases lifecycle <;> rfl

@[simp] theorem recordTerminal_nextLease :
    (c.recordTerminal lifecycle count).nextLease = c.nextLease := by
  cases lifecycle <;> rfl

end RecordTerminal

/-- The half of `Consistent` that says nothing of lease ids: it survives their exhaustion. -/
structure Filed (c : ScanCoordinator) : Prop where
  ready : ∀ p w, w ∈ c.queues.queue p ↔ c.pending[w.key]? = some ⟨p, w⟩
  indexed : ∀ p path w,
    w ∈ c.queues.bucket p path ↔ path = w.key.path ∧ c.pending[w.key]? = some ⟨p, w⟩
  pending_key : ∀ (k : WorkKey) (x : PendingWork), c.pending[k]? = some x → x.queued.key = k
  disjoint : ∀ (k : WorkKey) (x : PendingWork), c.pending[k]? = some x → c.activeByKey[k]? = none

theorem Consistent.filed (h : Consistent c) : Filed c :=
  ⟨h.ready, h.indexed, h.pending_key, h.disjoint⟩

theorem Filed.of_eq {c' : ScanCoordinator} (h : Filed c) (hp : c'.pending = c.pending)
    (hq : c'.queues = c.queues) (hk : c'.activeByKey = c.activeByKey) : Filed c' := by
  constructor
  · rw [hp, hq]
    exact h.ready
  · rw [hp, hq]
    exact h.indexed
  · rw [hp]
    exact h.pending_key
  · rw [hp, hk]
    exact h.disjoint

theorem filed_addPending (h : Filed c) {key : WorkKey} (priority : WorkPriority)
    (hpending : c.pending[key]? = none) (hactive : c.activeByKey[key]? = none) :
    Filed (c.addPending key priority) where
  ready p w := by
    simp only [addPending, ReadyQueues.mem_queue_insert, h.ready, Maps.getElem?_insert]
    grind
  indexed p path w := by
    simp only [addPending, ReadyQueues.mem_bucket_insert, h.indexed, Maps.getElem?_insert]
    grind
  pending_key k x := by
    simp only [addPending, Maps.getElem?_insert]
    have := h.pending_key k x
    grind
  disjoint k x := by
    simp only [addPending, Maps.getElem?_insert]
    have := h.disjoint k x
    grind

/-- Moving a pending item to another priority keeps its place in the sequence. -/
theorem filed_raise (h : Filed c) {key : WorkKey} {x : PendingWork}
    (hx : c.pending[key]? = some x) (priority : WorkPriority) :
    Filed { c with
      queues := (c.queues.remove x.priority x.queued).insert priority x.queued
      pending := c.pending.insert key ⟨priority, x.queued⟩ } where
  ready p w := by
    have hkey := h.pending_key _ _ hx
    simp only [ReadyQueues.mem_queue_insert, ReadyQueues.mem_queue_remove, h.ready,
      Maps.getElem?_insert]
    grind
  indexed p path w := by
    have hkey := h.pending_key _ _ hx
    simp only [ReadyQueues.mem_bucket_insert, ReadyQueues.mem_bucket_remove, h.indexed,
      Maps.getElem?_insert]
    grind
  pending_key k y := by
    have hkey := h.pending_key _ _ hx
    have := h.pending_key k y
    simp only [Maps.getElem?_insert]
    grind
  disjoint k y := by
    have := h.disjoint k y
    have := h.disjoint key x hx
    simp only [Maps.getElem?_insert]
    grind

theorem filed_dropPending (h : Filed c) {priority : WorkPriority} {queued : QueuedWork}
    (hx : ∀ x, c.pending[queued.key]? = some x → x = ⟨priority, queued⟩) :
    Filed (c.dropPending priority queued queued.key) where
  ready p w := by
    simp only [dropPending, ReadyQueues.mem_queue_remove, h.ready, Maps.getElem?_erase]
    grind
  indexed p path w := by
    simp only [dropPending, ReadyQueues.mem_bucket_remove, h.indexed, Maps.getElem?_erase]
    grind
  pending_key k x := by
    have := h.pending_key k x
    simp only [dropPending, Maps.getElem?_erase]
    grind
  disjoint k x := by
    have := h.disjoint k x
    simp only [dropPending, Maps.getElem?_erase]
    grind

theorem filed_leaseQueued (h : Filed c) {queued : QueuedWork} {p : WorkPriority}
    (hx : c.pending[queued.key]? = some ⟨p, queued⟩) (focused : Bool) :
    Filed (c.leaseQueued queued focused).1 := by
  have hdrop : Filed (c.dropPending p queued queued.key) := by
    refine filed_dropPending h ?_
    intro x hx'
    exact Option.some.inj (hx'.symm.trans hx)
  simp only [leaseQueued, hx]
  refine ⟨hdrop.ready, hdrop.indexed, hdrop.pending_key, ?_⟩
  intro k x hk
  have hnone := hdrop.disjoint k x hk
  have hne : queued.key ≠ k := by
    rintro rfl
    simp [dropPending] at hk
  simp only [dropPending] at hnone
  rw [Maps.getElem?_insert, if_neg hne]
  exact hnone

/-- Only the pending side of the indexes changes. -/
theorem Consistent.of_filed {c' : ScanCoordinator} (h : Consistent c) (hf : Filed c')
    (ha : c'.active = c.active) (hk : c'.activeByKey = c.activeByKey)
    (hd : c'.activeDeletionExecution = c.activeDeletionExecution)
    (hn : c'.nextLease = c.nextLease) : Consistent c' := by
  refine ⟨hf.ready, hf.indexed, hf.pending_key, ?_, ?_, ?_, hf.disjoint, ?_, ?_⟩
  · rw [ha]
    exact h.active_id
  · rw [ha, hk]
    exact h.key_of_active
  · rw [ha, hk]
    exact h.active_of_key
  · rw [ha, hd]
    exact h.deletion
  · rw [ha, hn]
    exact h.fresh

theorem consistent_addPending (h : Consistent c) {key : WorkKey} (priority : WorkPriority)
    (hpending : c.pending[key]? = none) (hactive : c.activeByKey[key]? = none) :
    Consistent (c.addPending key priority) :=
  h.of_filed (filed_addPending h.filed priority hpending hactive) rfl rfl rfl rfl

theorem consistent_dropPending (h : Consistent c) {priority : WorkPriority} {queued : QueuedWork}
    (hx : ∀ x, c.pending[queued.key]? = some x → x = ⟨priority, queued⟩) :
    Consistent (c.dropPending priority queued queued.key) :=
  h.of_filed (filed_dropPending h.filed hx) rfl rfl rfl rfl

section RemoveActive
variable (c : ScanCoordinator) (id : LeaseId)

@[simp] theorem removeActive_pending : (c.removeActive id).1.pending = c.pending := by
  unfold removeActive; split <;> rfl

@[simp] theorem removeActive_queues : (c.removeActive id).1.queues = c.queues := by
  unfold removeActive; split <;> rfl

@[simp] theorem removeActive_nextLease : (c.removeActive id).1.nextLease = c.nextLease := by
  unfold removeActive; split <;> rfl

@[simp] theorem removeActive_terminal : (c.removeActive id).1.terminal = c.terminal := by
  unfold removeActive; split <;> rfl

@[simp] theorem removeActive_lease : (c.removeActive id).2 = c.active[id]? := by
  unfold removeActive; split <;> simp_all

theorem getElem?_removeActive (a : LeaseId) :
    (c.removeActive id).1.active[a]? = if id = a then none else c.active[a]? := by
  unfold removeActive
  split
  · grind
  · exact Maps.getElem?_erase c.active id a

theorem size_removeActive {l : WorkLease} (hl : c.active[id]? = some l) :
    (c.removeActive id).1.active.size + 1 = c.active.size := by
  simp only [removeActive, hl]
  exact Maps.size_erase_of_mem ((Maps.mem_iff _ _).mpr ⟨l, hl⟩)

end RemoveActive

theorem getElem?_removeActive_byKey (h : Consistent c) (id : LeaseId) (k : WorkKey) :
    (c.removeActive id).1.activeByKey[k]? =
      if c.activeByKey[k]? = some id then none else c.activeByKey[k]? := by
  cases hl : c.active[id]? with
  | none =>
    have hnone : c.activeByKey[k]? ≠ some id := by
      intro hk
      obtain ⟨l, hl', -⟩ := h.active_of_key k id hk
      simp [hl] at hl'
    simp [removeActive, hl, hnone]
  | some l =>
    simp only [removeActive, hl, Maps.getElem?_erase]
    have hlk := h.key_of_active id l hl
    have hkl := h.active_of_key k id
    grind

theorem consistent_removeActive (h : Consistent c) (id : LeaseId) :
    Consistent (c.removeActive id).1 where
  ready p w := by simpa using h.ready p w
  indexed p path w := by simpa using h.indexed p path w
  pending_key k x := by simpa using h.pending_key k x
  active_id a l := by
    have := h.active_id a l
    rw [getElem?_removeActive]
    grind
  key_of_active a l := by
    have := h.key_of_active a l
    rw [getElem?_removeActive, getElem?_removeActive_byKey h]
    grind
  active_of_key k a := by
    have := h.active_of_key k a
    rw [getElem?_removeActive, getElem?_removeActive_byKey h]
    grind
  disjoint k x := by
    have := h.disjoint k x
    rw [removeActive_pending, getElem?_removeActive_byKey h]
    grind
  deletion a := by
    have hdel := h.deletion a
    rw [getElem?_removeActive]
    cases hl : c.active[id]? with
    | none => simp only [removeActive, hl]; grind
    | some l =>
      have := h.active_id id l hl
      simp only [removeActive, hl]
      grind
  fresh a l := by
    have := h.fresh a l
    rw [getElem?_removeActive, removeActive_nextLease]
    grind

theorem consistent_leaseQueued (h : Consistent c) {queued : QueuedWork} {p : WorkPriority}
    (hx : c.pending[queued.key]? = some ⟨p, queued⟩)
    (hfree : queued.key.kind = .ExecuteDeletion → c.activeDeletionExecution = none)
    (hroom : c.nextLease < satMax 64) (focused : Bool) :
    Consistent (c.leaseQueued queued focused).1 := by
  have hnew : c.active[(⟨c.nextLease⟩ : LeaseId)]? = none := by
    cases hl : c.active[(⟨c.nextLease⟩ : LeaseId)]? with
    | none => rfl
    | some l => exact absurd (h.fresh _ l hl) (Nat.lt_irrefl _)
  have hkey := h.disjoint _ _ hx
  have hfiled := filed_leaseQueued h.filed hx focused
  have hnext : satAdd 64 c.nextLease 1 = c.nextLease + 1 := satAdd_of_le (by omega)
  simp only [leaseQueued, hx] at hfiled ⊢
  exact {
    ready := hfiled.ready
    indexed := hfiled.indexed
    pending_key := hfiled.pending_key
    active_id := by
      intro a l
      have := h.active_id a l
      simp only [Maps.getElem?_insert]
      grind
    key_of_active := by
      intro a l
      have := h.key_of_active a l
      simp only [Maps.getElem?_insert]
      grind
    active_of_key := by
      intro k a
      simp only [Maps.getElem?_insert]
      split
      · rename_i hk
        intro ha
        obtain rfl := Option.some.inj ha
        exact ⟨_, if_pos rfl, hk⟩
      · intro ha
        obtain ⟨l, hl, hlk⟩ := h.active_of_key k a ha
        exact ⟨l, by grind, hlk⟩
    disjoint := hfiled.disjoint
    deletion := by
      intro a
      have hdel := h.deletion a
      simp only [Maps.getElem?_insert]
      split
      · rename_i hkind
        have hnone : ∀ l : WorkLease, c.active[a]? = some l → l.key.kind ≠ .ExecuteDeletion := by
          grind
        constructor
        · intro ha
          obtain rfl := Option.some.inj ha
          exact ⟨_, if_pos rfl, hkind⟩
        · grind
      · grind
    fresh := by
      intro a l
      have := h.fresh a l
      simp only [Maps.getElem?_insert, hnext]
      grind }

/-! ## Sweeps -/

section DropAll
variable (c : ScanCoordinator) (entries : List (WorkKey × PendingWork))

theorem dropAll_frame : (c.dropAll entries).active = c.active ∧
    (c.dropAll entries).activeByKey = c.activeByKey ∧
    (c.dropAll entries).activeDeletionExecution = c.activeDeletionExecution ∧
    (c.dropAll entries).nextLease = c.nextLease ∧
    (c.dropAll entries).terminal = c.terminal ∧
    (c.dropAll entries).pending = Maps.eraseAll c.pending (entries.map Prod.fst) := by
  induction entries generalizing c with
  | nil => exact ⟨rfl, rfl, rfl, rfl, rfl, rfl⟩
  | cons e es ih => exact ih (c.dropPending e.2.priority e.2.queued e.1)

@[simp] theorem dropAll_active : (c.dropAll entries).active = c.active :=
  (dropAll_frame c entries).1

@[simp] theorem dropAll_nextLease : (c.dropAll entries).nextLease = c.nextLease :=
  (dropAll_frame c entries).2.2.2.1

@[simp] theorem dropAll_terminal : (c.dropAll entries).terminal = c.terminal :=
  (dropAll_frame c entries).2.2.2.2.1

@[simp] theorem dropAll_pending :
    (c.dropAll entries).pending = Maps.eraseAll c.pending (entries.map Prod.fst) :=
  (dropAll_frame c entries).2.2.2.2.2

end DropAll

/-- An entry still describes what is pending under its key, if anything is. -/
def Describes (c : ScanCoordinator) (e : WorkKey × PendingWork) : Prop :=
  e.2.queued.key = e.1 ∧ ∀ x, c.pending[e.1]? = some x → x = e.2

theorem consistent_dropAll (h : Consistent c) {entries : List (WorkKey × PendingWork)}
    (hentries : ∀ e ∈ entries, c.Describes e) : Consistent (c.dropAll entries) := by
  induction entries generalizing c with
  | nil => exact h
  | cons e es ih =>
    obtain ⟨hkey, hpending⟩ := hentries e List.mem_cons_self
    have hdrop : Consistent (c.dropPending e.2.priority e.2.queued e.1) := by
      rw [← hkey]
      exact consistent_dropPending h (by rw [hkey]; exact hpending)
    refine ih hdrop ?_
    intro e' he'
    obtain ⟨hkey', hpending'⟩ := hentries e' (List.mem_cons_of_mem e he')
    refine ⟨hkey', ?_⟩
    intro x
    simp only [dropPending, Maps.getElem?_erase]
    split
    · simp
    · exact hpending' x

section RemoveAll
variable (c : ScanCoordinator) (ids : List LeaseId)

theorem removeAll_frame : (c.removeAll ids).pending = c.pending ∧
    (c.removeAll ids).nextLease = c.nextLease ∧ (c.removeAll ids).terminal = c.terminal := by
  induction ids generalizing c with
  | nil => exact ⟨rfl, rfl, rfl⟩
  | cons a as ih => simpa [removeAll] using ih (c.removeActive a).1

@[simp] theorem removeAll_pending : (c.removeAll ids).pending = c.pending :=
  (removeAll_frame c ids).1

@[simp] theorem removeAll_nextLease : (c.removeAll ids).nextLease = c.nextLease :=
  (removeAll_frame c ids).2.1

@[simp] theorem removeAll_terminal : (c.removeAll ids).terminal = c.terminal :=
  (removeAll_frame c ids).2.2

theorem getElem?_removeAll (a : LeaseId) :
    (c.removeAll ids).active[a]? = if a ∈ ids then none else c.active[a]? := by
  induction ids generalizing c with
  | nil => simp [removeAll]
  | cons b bs ih =>
    have hrest := ih (c.removeActive b).1
    rw [getElem?_removeActive] at hrest
    simp only [removeAll, List.foldl_cons] at hrest ⊢
    rw [hrest]
    by_cases hb : b = a
    · simp [hb]
    · simp [hb, Ne.symm hb]

theorem size_removeAll (hnodup : ids.Nodup) (hmem : ∀ a ∈ ids, a ∈ c.active) :
    (c.removeAll ids).active.size + ids.length = c.active.size := by
  induction ids generalizing c with
  | nil => simp [removeAll]
  | cons a as ih =>
    obtain ⟨hnot, hnodup⟩ := List.nodup_cons.mp hnodup
    obtain ⟨l, hl⟩ := (Maps.mem_iff _ _).mp (hmem a List.mem_cons_self)
    have hone := size_removeActive c a hl
    have hrest := ih (c.removeActive a).1 hnodup (by
      intro b hb
      have hne : a ≠ b := fun hab => hnot (hab ▸ hb)
      rw [Maps.mem_iff, getElem?_removeActive, if_neg hne, ← Maps.mem_iff]
      exact hmem b (List.mem_cons_of_mem a hb))
    simp only [removeAll, List.foldl_cons, List.length_cons] at hrest ⊢
    omega

end RemoveAll

theorem consistent_removeAll (h : Consistent c) (ids : List LeaseId) :
    Consistent (c.removeAll ids) := by
  induction ids generalizing c with
  | nil => exact h
  | cons a as ih => exact ih (consistent_removeActive h a)

section Matching
variable (c : ScanCoordinator) (matching : WorkKey → Bool)

theorem mem_activeMatching (a : LeaseId) :
    a ∈ c.activeMatching matching ↔
      ∃ l : WorkLease, c.active[a]? = some l ∧ matching l.key = true := by
  simp only [activeMatching, List.mem_map, List.mem_filter, Prod.exists, Maps.mem_toList]
  grind

theorem nodup_activeMatching : (c.activeMatching matching).Nodup :=
  (Maps.nodup_keys c.active).sublist (List.filter_sublist.map Prod.fst)

theorem getElem?_removeMatching (a : LeaseId) :
    (c.removeAll (c.activeMatching matching)).active[a]? =
      c.active[a]?.filter fun l => !matching l.key := by
  rw [getElem?_removeAll]
  simp only [mem_activeMatching]
  cases c.active[a]? with
  | none => simp
  | some l => cases hm : matching l.key <;> simp [hm, Option.filter]

theorem size_removeMatching :
    (c.removeAll (c.activeMatching matching)).active.size + (c.activeMatching matching).length =
      c.active.size := by
  refine size_removeAll c _ (nodup_activeMatching c matching) ?_
  intro a ha
  obtain ⟨l, hl, -⟩ := (mem_activeMatching c matching a).mp ha
  exact (Maps.mem_iff _ _).mpr ⟨l, hl⟩

theorem mem_pendingMatching {e : WorkKey × PendingWork} :
    e ∈ c.pending.toList.filter (fun e => matching e.1) ↔
      c.pending[e.1]? = some e.2 ∧ matching e.1 = true := by
  rw [List.mem_filter, ← Maps.mem_toList]

end Matching

theorem consistent_terminateMatching (h : Consistent c) (terminal : WorkLifecycle)
    (matching : WorkKey → Bool) : Consistent (c.terminateMatching terminal matching) := by
  refine consistent_recordTerminal (consistent_removeAll (consistent_dropAll h ?_) _) _ _
  intro e he
  obtain ⟨he, -⟩ := (mem_pendingMatching c matching).mp he
  exact ⟨h.pending_key _ _ he, by grind⟩

theorem consistent_terminateAll (c : ScanCoordinator) (terminal : WorkLifecycle) :
    Consistent (c.terminateAll terminal) := by
  refine consistent_recordTerminal ?_ _ _
  have hempty := consistent_new c.session c.generation
  exact ⟨hempty.ready, hempty.indexed, hempty.pending_key, hempty.active_id,
    hempty.key_of_active, hempty.active_of_key, hempty.disjoint, hempty.deletion, by simp⟩

/-- The counting loops of `invalidate_prefix` do to the indexes what the plain sweeps do. -/
theorem foldl_invalidatePending (entries : List (WorkPriority × QueuedWork)) (n : Nat) :
    (entries.foldl invalidatePending (c, n)).1 =
      c.dropAll (entries.map fun e => (e.2.key, ⟨e.1, e.2⟩)) := by
  induction entries generalizing c n with
  | nil => rfl
  | cons e es ih => exact ih _

theorem foldl_invalidateActive (ids : List LeaseId) (n : Nat) :
    (ids.foldl invalidateActive (c, n)).1 = c.removeAll ids := by
  induction ids generalizing c n with
  | nil => rfl
  | cons a as ih => exact ih _

theorem describes_pendingUnder (h : Consistent c) {generation : ScanGeneration}
    {pre : RelativePath} {e : WorkPriority × QueuedWork}
    (he : e ∈ c.queues.pendingUnder generation pre) : c.Describes (e.2.key, ⟨e.1, e.2⟩) := by
  obtain ⟨path, hbucket, -, -⟩ := ReadyQueues.mem_of_pendingUnder he
  have hpending := ((h.indexed _ _ _).mp hbucket).2
  exact ⟨rfl, by grind⟩

theorem consistent_invalidatePrefix (h : Consistent c) (generation : ScanGeneration)
    (pre : RelativePath) : Consistent (c.invalidatePrefix generation pre).1 := by
  have hdropped : Consistent ((c.queues.pendingUnder generation pre).foldl invalidatePending
      (c, 0)).1 := by
    rw [foldl_invalidatePending]
    refine consistent_dropAll h ?_
    intro e he
    obtain ⟨e', he', rfl⟩ := List.mem_map.mp he
    exact describes_pendingUnder h he'
  simp only [invalidatePrefix]
  refine consistent_recordTerminal ?_ _ _
  rw [foldl_invalidateActive]
  exact consistent_removeAll (consistent_recordTerminal hdropped _ _) _

end Excise.ScanCoordinator
