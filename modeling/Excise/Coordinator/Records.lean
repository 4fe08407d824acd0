import Excise.Coordinator.Actor

/-!
# The records an operation leaves

For each operation: which keys are pending after it, which leases are active, and that it
leaves the session and the generation alone. The clients of the coordinator reason through
these and never open an operation.
-/

namespace Excise.ScanCoordinator
set_option autoImplicit false

variable {c : ScanCoordinator}

/-! ## The era of a key -/

/-- `c'` serves the session and the generation of `c`. -/
def SameEra (c c' : ScanCoordinator) : Prop :=
  c'.session = c.session ∧ c'.generation = c.generation

theorem SameEra.refl (c : ScanCoordinator) : SameEra c c := ⟨rfl, rfl⟩

theorem SameEra.trans {c₁ c₂ c₃ : ScanCoordinator} (h : SameEra c₁ c₂) (h' : SameEra c₂ c₃) :
    SameEra c₁ c₃ :=
  ⟨h'.1.trans h.1, h'.2.trans h.2⟩

theorem sameEra_recordTerminal (c : ScanCoordinator) (lifecycle : WorkLifecycle) (count : Nat) :
    SameEra c (c.recordTerminal lifecycle count) := by
  cases lifecycle <;> exact ⟨rfl, rfl⟩

theorem sameEra_removeActive (c : ScanCoordinator) (id : LeaseId) :
    SameEra c (c.removeActive id).1 := by
  unfold removeActive
  split <;> exact ⟨rfl, rfl⟩

theorem sameEra_dropAll (c : ScanCoordinator) (entries : List (WorkKey × PendingWork)) :
    SameEra c (c.dropAll entries) := by
  induction entries generalizing c with
  | nil => exact .refl c
  | cons e es ih => exact ih (c.dropPending e.2.priority e.2.queued e.1)

theorem sameEra_removeAll (c : ScanCoordinator) (ids : List LeaseId) :
    SameEra c (c.removeAll ids) := by
  induction ids generalizing c with
  | nil => exact .refl c
  | cons a as ih => exact (sameEra_removeActive c a).trans (ih _)

theorem sameEra_terminateMatching (c : ScanCoordinator) (terminal : WorkLifecycle)
    (matching : WorkKey → Bool) : SameEra c (c.terminateMatching terminal matching) :=
  ((sameEra_dropAll c _).trans (sameEra_removeAll _ _)).trans (sameEra_recordTerminal _ _ _)

theorem sameEra_schedule (c : ScanCoordinator) (key : WorkKey) (priority : WorkPriority) :
    SameEra c (c.schedule key priority).1 := by
  unfold schedule
  split
  · exact .refl c
  split
  · exact .refl c
  split
  · exact .refl c
  dsimp only
  split
  · split <;> exact ⟨rfl, rfl⟩
  · exact ⟨rfl, rfl⟩

theorem sameEra_leaseQueued (c : ScanCoordinator) (queued : QueuedWork) (focused : Bool) :
    SameEra c (c.leaseQueued queued focused).1 := by
  unfold leaseQueued
  split <;> exact ⟨rfl, rfl⟩

theorem sameEra_finish (c : ScanCoordinator) (lease : WorkLease) (completion : WorkCompletion) :
    SameEra c (c.finish lease completion).1 := by
  unfold finish
  split
  · exact (sameEra_removeActive c lease.id).trans (sameEra_recordTerminal _ _ _)
  · exact .refl c

theorem sameEra_requeue (c : ScanCoordinator) (lease : WorkLease) :
    SameEra c (c.requeue lease).1 := by
  unfold requeue
  split
  · exact (sameEra_removeActive c lease.id).trans ⟨rfl, rfl⟩
  · exact .refl c

/-! ## Pending keys -/

theorem mem_pending_schedule (c : ScanCoordinator) (key : WorkKey) (priority : WorkPriority)
    (k : WorkKey) :
    k ∈ (c.schedule key priority).1.pending ↔
      k ∈ c.pending ∨ (k = key ∧ (c.schedule key priority).2 = .Enqueued) := by
  unfold schedule
  split
  · simp
  split
  · simp
  split
  · simp
  dsimp only
  split
  · rename_i x hx
    split
    · simp
    · have hmem : key ∈ c.pending := (Maps.mem_iff _ _).mpr ⟨x, hx⟩
      simp only [Std.TreeMap.mem_insert, compare_eq_iff_eq, reduceCtorEq, and_false, or_false]
      constructor
      · rintro (rfl | hk)
        · exact hmem
        · exact hk
      · exact Or.inr
  · simp only [addPending, Std.TreeMap.mem_insert, compare_eq_iff_eq, and_true]
    rw [or_comm, eq_comm]

theorem mem_pending_leaseQueued {w : QueuedWork} (hw : c.Selectable w) (focused : Bool)
    (k : WorkKey) :
    k ∈ (c.leaseQueued w focused).1.pending ↔ k ∈ c.pending ∧ k ≠ w.key := by
  obtain ⟨⟨p, hp⟩, -⟩ := hw
  simp only [leaseQueued, hp, dropPending, Std.TreeMap.mem_erase, ne_eq, compare_eq_iff_eq]
  rw [and_comm, eq_comm]

@[simp] theorem finish_pending (c : ScanCoordinator) (lease : WorkLease)
    (completion : WorkCompletion) : (c.finish lease completion).1.pending = c.pending := by
  unfold finish
  split <;> simp

theorem mem_pending_requeue (c : ScanCoordinator) (lease : WorkLease) (k : WorkKey) :
    k ∈ (c.requeue lease).1.pending ↔
      k ∈ c.pending ∨ (k = lease.key ∧ (c.requeue lease).2 = .Requeued) := by
  unfold requeue
  split
  · simp only [addPending, removeActive_pending, Std.TreeMap.mem_insert, compare_eq_iff_eq,
      and_true]
    rw [or_comm, eq_comm]
  · simp

theorem mem_pending_terminateMatching (c : ScanCoordinator) (terminal : WorkLifecycle)
    (matching : WorkKey → Bool) (k : WorkKey) :
    k ∈ (c.terminateMatching terminal matching).pending ↔
      k ∈ c.pending ∧ matching k = false := by
  have hswept : k ∈ (c.pending.toList.filter fun e => matching e.1).map Prod.fst ↔
      k ∈ c.pending ∧ matching k = true := by
    rw [List.mem_map, Maps.mem_iff]
    constructor
    · rintro ⟨e, he, rfl⟩
      obtain ⟨hx, hm⟩ := (mem_pendingMatching c matching).mp he
      exact ⟨⟨e.2, hx⟩, hm⟩
    · rintro ⟨⟨x, hx⟩, hm⟩
      exact ⟨(k, x), (mem_pendingMatching c matching).mpr ⟨hx, hm⟩, rfl⟩
  simp only [terminateMatching, recordTerminal_pending, removeAll_pending, dropAll_pending]
  rw [Maps.mem_iff, Maps.getElem?_eraseAll]
  split
  · rename_i hk
    simp [(hswept.mp hk).2]
  · rename_i hk
    rw [← Maps.mem_iff]
    refine ⟨fun hmem => ⟨hmem, ?_⟩, fun hmem => hmem.1⟩
    rw [Bool.eq_false_iff]
    exact fun hm => hk (hswept.mpr ⟨hmem, hm⟩)

/-! ## Active leases -/

theorem active_finish {lease l : WorkLease} {completion : WorkCompletion} {id : LeaseId}
    (hl : (c.finish lease completion).1.active[id]? = some l) :
    c.active[id]? = some l ∧ ((c.finish lease completion).2 = .Accepted → lease.id ≠ id) := by
  unfold finish at hl ⊢
  split at hl
  · rename_i hactive
    rw [recordTerminal_active] at hl
    obtain ⟨hl, hne⟩ := active_removeActive hl
    exact ⟨hl, fun _ => hne⟩
  · rename_i hstale
    exact ⟨hl, by simp [hstale]⟩

theorem active_requeue {lease l : WorkLease} {id : LeaseId}
    (hl : (c.requeue lease).1.active[id]? = some l) :
    c.active[id]? = some l ∧ ((c.requeue lease).2 = .Requeued → lease.id ≠ id) := by
  unfold requeue at hl ⊢
  split at hl
  · obtain ⟨hl, hne⟩ := @active_removeActive _ lease _ _ hl
    exact ⟨hl, fun _ => hne⟩
  · rename_i hstale
    exact ⟨hl, by simp [hstale]⟩

/-! ## Granting -/

/-- What granting the pending `key` leaves. -/
structure Granted (c c' : ScanCoordinator) (key : WorkKey) (l : WorkLease) : Prop where
  key_eq : l.key = key
  id_eq : l.id.value = c.nextLease
  pending : ∀ k, k ∈ c'.pending ↔ k ∈ c.pending ∧ k ≠ key
  active : ∀ a : LeaseId, c'.active[a]? = if l.id = a then some l else c.active[a]?
  era : SameEra c c'
  nextLease : c'.nextLease = satAdd 64 c.nextLease 1

theorem granted_leaseQueued {w : QueuedWork} (hw : c.Selectable w) (focused : Bool) :
    ∃ l, (c.leaseQueued w focused).2 = some l ∧ l.focused = focused ∧
      Granted c (c.leaseQueued w focused).1 w.key l := by
  have hpending := mem_pending_leaseQueued hw focused
  have hera := sameEra_leaseQueued c w focused
  obtain ⟨⟨p, hp⟩, -⟩ := hw
  rw [leaseQueued, hp] at hpending hera ⊢
  refine ⟨_, rfl, rfl, rfl, rfl, hpending, ?_, hera, rfl⟩
  exact fun a => Maps.getElem?_insert _ _ _ _

theorem leaseExact_granted (h : Filed c) (key : WorkKey) :
    c.leaseExact key = (c, none) ∨
      ∃ l, (c.leaseExact key).2 = some l ∧ Granted c (c.leaseExact key).1 key l := by
  unfold leaseExact
  split
  · exact Or.inl rfl
  · rename_i x hx
    split
    · exact Or.inl rfl
    · rename_i hexec
      have hkey := h.pending_key _ _ hx
      have hsel : c.Selectable x.queued := by
        refine ⟨⟨x.priority, by rw [hkey]; exact hx⟩, ?_⟩
        intro hkind
        simpa [hkind] using hexec
      obtain ⟨l, hl, -, hgranted⟩ := granted_leaseQueued hsel false
      exact Or.inr ⟨l, hl, hkey ▸ hgranted⟩

theorem scanWork_nextScanQueued {w : QueuedWork} {focused : Bool}
    (hw : c.nextScanQueued = some (w, focused)) : w.key.kind.isScanWork = true := by
  simp only [nextScanQueued, Option.or_eq_some_iff] at hw
  rcases hw with hw | ⟨-, hw | ⟨-, hw | ⟨-, hw⟩⟩⟩
  · split at hw
    · exact (ReadyQueues.mem_of_firstScanEligible (eq_some_of_map_flag hw)).2
    · simp at hw
  · exact (ReadyQueues.mem_of_firstScanEligible (eq_some_of_map_flag hw)).2
  · obtain ⟨path, -, hw⟩ := List.exists_of_findSome?_eq_some hw
    obtain ⟨p, -, hw⟩ := List.exists_of_findSome?_eq_some hw
    obtain ⟨_, -, -, hscan⟩ := ReadyQueues.mem_of_firstScanUnder (eq_some_of_map_flag hw)
    exact hscan
  · obtain ⟨p, -, hw⟩ := List.exists_of_findSome?_eq_some hw
    exact (ReadyQueues.mem_of_firstScanEligible (eq_some_of_map_flag hw)).2

theorem leaseNextScan_granted (h : Filed c) :
    c.leaseNextScan = (c, none) ∨
      ∃ w l, c.Selectable w ∧ w.key.kind.isScanWork = true ∧ c.leaseNextScan.2 = some l ∧
        Granted c c.leaseNextScan.1 w.key l := by
  unfold leaseNextScan
  split
  · exact Or.inl rfl
  · rename_i w focused hw
    have hsel := selectable_nextScanQueued h hw
    obtain ⟨l, hl, -, hgranted⟩ := granted_leaseQueued hsel focused
    exact Or.inr ⟨w, l, hsel, scanWork_nextScanQueued hw, hl, hgranted⟩

/-- The request of a client: afterwards its key is leased, or was refused and may wait. -/
theorem acquire_records (h : Filed c) (kind : WorkKind) (path : RelativePath)
    (priority : WorkPriority) :
    SameEra c (c.acquire kind path priority).1 ∧
      match (c.acquire kind path priority).2 with
      | none => ∀ k ∈ (c.acquire kind path priority).1.pending,
          k ∈ c.pending ∨ k = ⟨c.session, c.generation, kind, path⟩
      | some l => l.key = ⟨c.session, c.generation, kind, path⟩ ∧
          ∀ k, k ∈ (c.acquire kind path priority).1.pending ↔
            k ∈ c.pending ∧ k ≠ ⟨c.session, c.generation, kind, path⟩ := by
  generalize hkey : (⟨c.session, c.generation, kind, path⟩ : WorkKey) = key
  have hera := sameEra_schedule c key priority
  have hmem := mem_pending_schedule c key priority
  have hcases := acquire_cases c kind path priority
  rw [hkey] at hcases
  rcases hcases with ⟨hc, -⟩ | hc
  · rw [hc]
    refine ⟨hera, ?_⟩
    intro k hk
    rcases (hmem k).mp hk with hk | ⟨hk, -⟩
    · exact Or.inl hk
    · exact Or.inr hk
  · rw [hc]
    rcases leaseExact_granted (filed_schedule h key priority) key with hnone | ⟨l, hl, hg⟩
    · rw [hnone]
      refine ⟨hera, ?_⟩
      intro k hk
      rcases (hmem k).mp hk with hk | ⟨hk, -⟩
      · exact Or.inl hk
      · exact Or.inr hk
    · rw [hl]
      refine ⟨hera.trans hg.era, hg.key_eq, ?_⟩
      intro k
      rw [hg.pending, hmem]
      constructor
      · rintro ⟨hk | ⟨rfl, -⟩, hne⟩
        · exact ⟨hk, hne⟩
        · exact absurd rfl hne
      · rintro ⟨hk, hne⟩
        exact ⟨Or.inl hk, hne⟩

/-! ## Without counting lease ids

These hold even where lease ids are exhausted and two leases share one: the keys of the
pending and of the active work never depend on it. -/

/-- What an answer to `schedule` says of the key. -/
def Reported (c : ScanCoordinator) (key : WorkKey) : ScheduleOutcome → Prop
  | .Enqueued => key ∉ c.pending ∧ key ∉ c.activeByKey
  | .PriorityRaised | .AlreadyPending => key ∈ c.pending
  | .AlreadyLeased => key ∈ c.activeByKey
  | .StaleSession => key.session ≠ c.session
  | .StaleGeneration => key.generation ≠ c.generation

theorem schedule_reported (c : ScanCoordinator) (key : WorkKey) (priority : WorkPriority) :
    c.Reported key (c.schedule key priority).2 := by
  unfold schedule
  split
  · assumption
  split
  · assumption
  split
  · rename_i hkey
    exact Std.TreeMap.mem_iff_contains.mpr hkey
  rename_i hkey
  dsimp only
  split
  · rename_i x hx
    have hmem : key ∈ c.pending := (Maps.mem_iff _ _).mpr ⟨x, hx⟩
    split
    · exact hmem
    · exact hmem
  · rename_i hpending
    refine ⟨(Maps.not_mem_iff _ _).mpr hpending, ?_⟩
    rw [Std.TreeMap.mem_iff_contains]
    exact hkey

theorem filed_recordTerminal (h : Filed c) (lifecycle : WorkLifecycle) (count : Nat) :
    Filed (c.recordTerminal lifecycle count) := by
  cases lifecycle <;> exact h.of_eq rfl rfl rfl

theorem recordTerminal_activeByKey (c : ScanCoordinator) (lifecycle : WorkLifecycle)
    (count : Nat) : (c.recordTerminal lifecycle count).activeByKey = c.activeByKey := by
  cases lifecycle <;> rfl

theorem filed_finish (h : Filed c) (lease : WorkLease) (completion : WorkCompletion) :
    Filed (c.finish lease completion).1 := by
  unfold finish
  split
  · rename_i hactive
    apply filed_recordTerminal
    refine ⟨by simpa using h.ready, by simpa using h.indexed, by simpa using h.pending_key, ?_⟩
    intro k x hk
    have hnone := h.disjoint k x (by simpa using hk)
    simp only [removeActive, hactive, Maps.getElem?_erase]
    split
    · rfl
    · exact hnone
  · exact h

theorem mem_activeByKey_finish (c : ScanCoordinator) (lease : WorkLease)
    (completion : WorkCompletion) (k : WorkKey) :
    k ∈ (c.finish lease completion).1.activeByKey ↔
      k ∈ c.activeByKey ∧ ((c.finish lease completion).2 = .Accepted → k ≠ lease.key) := by
  unfold finish
  split
  · rename_i hactive
    simp only [recordTerminal_activeByKey, removeActive, hactive, Std.TreeMap.mem_erase, ne_eq,
      compare_eq_iff_eq, forall_const]
    rw [and_comm, eq_comm]
  · simp

theorem mem_activeByKey_leaseQueued {w : QueuedWork} (hw : c.Selectable w) (focused : Bool)
    (k : WorkKey) :
    k ∈ (c.leaseQueued w focused).1.activeByKey ↔ k ∈ c.activeByKey ∨ k = w.key := by
  obtain ⟨⟨p, hp⟩, -⟩ := hw
  simp only [leaseQueued, hp, Std.TreeMap.mem_insert, compare_eq_iff_eq]
  rw [or_comm, eq_comm]

/-- What granting a pending key does to the two key sets. -/
structure Handed (c c' : ScanCoordinator) (key : WorkKey) : Prop where
  filed : Filed c'
  era : SameEra c c'
  waited : key ∈ c.pending
  pending : ∀ k, k ∈ c'.pending ↔ k ∈ c.pending ∧ k ≠ key
  leased : ∀ k, k ∈ c'.activeByKey ↔ k ∈ c.activeByKey ∨ k = key

theorem handed_leaseQueued (h : Filed c) {w : QueuedWork} (hw : c.Selectable w) (focused : Bool) :
    Handed c (c.leaseQueued w focused).1 w.key := by
  have hpending := mem_pending_leaseQueued hw focused
  have hleased := mem_activeByKey_leaseQueued hw focused
  obtain ⟨⟨p, hp⟩, -⟩ := hw
  exact ⟨filed_leaseQueued h hp focused, sameEra_leaseQueued c w focused,
    (Maps.mem_iff _ _).mpr ⟨_, hp⟩, hpending, hleased⟩

theorem leaseNextScan_handed (h : Filed c) :
    c.leaseNextScan = (c, none) ∨
      ∃ l, c.leaseNextScan.2 = some l ∧ l.key.kind.isScanWork = true ∧
        Handed c c.leaseNextScan.1 l.key := by
  unfold leaseNextScan
  split
  · exact Or.inl rfl
  · rename_i w focused hw
    have hsel := selectable_nextScanQueued h hw
    obtain ⟨l, hl, -, hgranted⟩ := granted_leaseQueued hsel focused
    refine Or.inr ⟨l, hl, ?_, ?_⟩
    · rw [hgranted.key_eq]
      exact scanWork_nextScanQueued hw
    · rw [hgranted.key_eq]
      exact handed_leaseQueued h hsel focused

theorem leaseExact_handed (h : Filed c) (key : WorkKey) :
    (c.leaseExact key = (c, none) ∧ (key ∈ c.pending → key.kind = .ExecuteDeletion)) ∨
      Handed c (c.leaseExact key).1 key := by
  unfold leaseExact
  split
  · rename_i hnone
    refine Or.inl ⟨rfl, ?_⟩
    intro hmem
    exact absurd hmem ((Maps.not_mem_iff _ _).mpr hnone)
  · rename_i x hx
    have hkey := h.pending_key _ _ hx
    split
    · rename_i hexec
      refine Or.inl ⟨rfl, ?_⟩
      intro _
      rw [← hkey]
      exact hexec.1
    · rename_i hexec
      have hsel : c.Selectable x.queued := by
        refine ⟨⟨x.priority, by rw [hkey]; exact hx⟩, ?_⟩
        intro hkind
        simpa [hkind] using hexec
      have hgranted := handed_leaseQueued h hsel false
      rw [hkey] at hgranted
      exact Or.inr hgranted

/-- A client that acquires work of another kind leaves the enumeration keys alone, and
nothing of scan work waiting. -/
theorem acquire_handed (h : Filed c) (kind : WorkKind) (path : RelativePath)
    (priority : WorkPriority) :
    Filed (c.acquire kind path priority).1 ∧ SameEra c (c.acquire kind path priority).1 ∧
      (∀ k, k.kind ≠ kind →
        ((k ∈ (c.acquire kind path priority).1.pending ↔ k ∈ c.pending) ∧
          (k ∈ (c.acquire kind path priority).1.activeByKey ↔ k ∈ c.activeByKey))) ∧
      (∀ k ∈ (c.acquire kind path priority).1.pending,
        k ∈ c.pending ∨ k.kind = .ExecuteDeletion) := by
  generalize hkey : (⟨c.session, c.generation, kind, path⟩ : WorkKey) = key
  have hkind : key.kind = kind := by rw [← hkey]
  have hfiled := filed_schedule h key priority
  have hera := sameEra_schedule c key priority
  have hmem := mem_pending_schedule c key priority
  obtain ⟨-, hbyKey, -, -⟩ := schedule_keeps c key priority
  have hcases := acquire_cases c kind path priority
  rw [hkey] at hcases
  have hne : ∀ k : WorkKey, k.kind ≠ kind → k ≠ key := by
    rintro k hk rfl
    exact hk hkind
  have hother : ∀ k : WorkKey, k.kind ≠ kind →
      (k ∈ (c.schedule key priority).1.pending ↔ k ∈ c.pending) := by
    intro k hk
    rw [hmem]
    simp [hne k hk]
  rcases hcases with ⟨hc, hnot⟩ | hc
  · rw [hc]
    refine ⟨hfiled, hera, ?_, ?_⟩
    · intro k hk
      exact ⟨hother k hk, by rw [hbyKey]⟩
    · intro k hk
      rcases (hmem k).mp hk with hk | ⟨-, hk⟩
      · exact Or.inl hk
      · exact absurd hk hnot
  · rw [hc]
    rcases leaseExact_handed hfiled key with ⟨hnone, hrefused⟩ | hg
    · rw [hnone]
      refine ⟨hfiled, hera, ?_, ?_⟩
      · intro k hk
        exact ⟨hother k hk, by rw [hbyKey]⟩
      · intro k hk
        rcases (hmem k).mp hk with hold | ⟨rfl, -⟩
        · exact Or.inl hold
        · exact Or.inr (hrefused hk)
    · refine ⟨hg.filed, hera.trans hg.era, ?_, ?_⟩
      · intro k hk
        rw [hg.pending, hg.leased, hother k hk, hbyKey]
        simp [hne k hk]
      · intro k hk
        obtain ⟨hk, hkey⟩ := (hg.pending k).mp hk
        rcases (hmem k).mp hk with hk | ⟨hk, -⟩
        · exact Or.inl hk
        · exact absurd hk hkey

/-! ## Scan work is of the generation served -/

/-- The indexes agree, and all scan work is of the generation served. -/
structure Serving (c : ScanCoordinator) : Prop where
  consistent : Consistent c
  pending : ∀ k ∈ c.pending, k.kind.isScanWork = true → k.generation = c.generation
  active : ∀ (id : LeaseId) (l : WorkLease), c.active[id]? = some l → l.key.kind.isScanWork = true →
    l.key.generation = c.generation

theorem serving_new (session : ScanSessionId) (generation : ScanGeneration) :
    Serving (new session generation) where
  consistent := consistent_new session generation
  pending := by simp [new]
  active := by simp [new]

theorem Serving.of_records {c' : ScanCoordinator} (hc : Consistent c') (hera : SameEra c c')
    (hpending : ∀ k ∈ c'.pending, k.kind.isScanWork = true → k.generation = c.generation)
    (hactive : ∀ (id : LeaseId) (l : WorkLease), c'.active[id]? = some l →
      l.key.kind.isScanWork = true → l.key.generation = c.generation) : Serving c' where
  consistent := hc
  pending := fun k hk hscan => (hpending k hk hscan).trans hera.2.symm
  active := fun id l hl hscan => (hactive id l hl hscan).trans hera.2.symm

theorem schedule_enqueued {key : WorkKey} {priority : WorkPriority}
    (h : (c.schedule key priority).2 = .Enqueued) : key.generation = c.generation := by
  unfold schedule at h
  split at h
  · cases h
  split at h
  · cases h
  · rename_i hgeneration
    exact not_not.mp hgeneration

theorem Serving.schedule (h : Serving c) (key : WorkKey) (priority : WorkPriority) :
    Serving (c.schedule key priority).1 := by
  refine .of_records (consistent_schedule h.consistent key priority) (sameEra_schedule c key priority)
    (fun k hk hscan => ?_) fun id l hl hscan => ?_
  · rcases (mem_pending_schedule c key priority k).mp hk with hk | ⟨rfl, hnew⟩
    · exact h.pending k hk hscan
    · exact schedule_enqueued hnew
  · rw [(schedule_keeps c key priority).1] at hl
    exact h.active id l hl hscan

theorem Serving.leaseQueued (h : Serving c) {w : QueuedWork} (hw : c.Selectable w)
    (hroom : c.nextLease < satMax 64) (focused : Bool) : Serving (c.leaseQueued w focused).1 := by
  obtain ⟨l, -, -, hgranted⟩ := granted_leaseQueued hw focused
  refine .of_records (consistent_lease h.consistent hw hroom focused) hgranted.era
    (fun k hk => h.pending k ((hgranted.pending k).mp hk).1) fun id l' hl' hscan => ?_
  rw [hgranted.active] at hl'
  split at hl'
  · cases hl'
    rw [hgranted.key_eq] at hscan ⊢
    obtain ⟨⟨p, hp⟩, -⟩ := hw
    exact h.pending _ ((Maps.mem_iff _ _).mpr ⟨_, hp⟩) hscan
  · exact h.active id l' hl' hscan

theorem Serving.finish (h : Serving c) (lease : WorkLease) (completion : WorkCompletion) :
    Serving (c.finish lease completion).1 := by
  refine .of_records (consistent_finish h.consistent lease completion)
    (sameEra_finish c lease completion) (fun k hk => ?_) fun id l hl => h.active id l (active_finish hl).1
  rw [finish_pending] at hk
  exact h.pending k hk

theorem Serving.requeue (h : Serving c) (lease : WorkLease) : Serving (c.requeue lease).1 := by
  refine .of_records (consistent_requeue h.consistent lease) (sameEra_requeue c lease)
    (fun k hk hscan => ?_) fun id l hl => h.active id l (active_requeue hl).1
  rcases (mem_pending_requeue c lease k).mp hk with hk | ⟨rfl, hback⟩
  · exact h.pending k hk hscan
  · have haccepts : accepts (.requeue lease, (c.answer (.requeue lease)).2) lease = true := by
      simp [answer, hback, accepts]
    exact h.active lease.id lease (active_of_accepts haccepts) hscan

theorem Serving.terminateMatching (h : Serving c) (terminal : WorkLifecycle)
    (matching : WorkKey → Bool) : Serving (c.terminateMatching terminal matching) :=
  .of_records (consistent_terminateMatching h.consistent terminal matching)
    (sameEra_terminateMatching c terminal matching)
    (fun k hk => h.pending k ((mem_pending_terminateMatching c terminal matching k).mp hk).1)
    fun id l hl => h.active id l (active_terminateMatching hl).1

/-- No scan work is left of the generation before. -/
theorem Serving.advanceTo (h : Serving c) (generation : ScanGeneration) :
    Serving (c.advanceTo generation).1 := by
  refine ⟨consistent_advanceTo h.consistent generation, ?_, ?_⟩
  · unfold ScanCoordinator.advanceTo
    split
    · exact h.pending
    · intro k hk hscan
      have hkept := (mem_pending_terminateMatching _ _ _ k).mp hk
      exact absurd (hscan.symm.trans hkept.2) (by simp)
  · unfold ScanCoordinator.advanceTo
    split
    · exact h.active
    · intro id l hl hscan
      exact absurd (hscan.symm.trans (active_terminateMatching hl).2) (by simp)

theorem Serving.advance (h : Serving c) (generation : ScanGeneration) :
    Serving (c.advance generation).1 := by
  unfold ScanCoordinator.advance
  split
  · exact h
  · exact h.advanceTo generation

theorem Serving.acquire (h : Serving c) (kind : WorkKind) (path : RelativePath)
    (priority : WorkPriority)
    (hroom : (c.acquire kind path priority).2.isSome → c.nextLease < satMax 64) :
    Serving (c.acquire kind path priority).1 := by
  obtain ⟨hera, hrecords⟩ := acquire_records h.consistent.filed kind path priority
  obtain ⟨hconsistent, hspec⟩ := acquire_spec h.consistent kind path priority hroom
  refine .of_records hconsistent hera (fun k hk hscan => ?_) fun id l hl hscan => ?_
  · cases hlease : (c.acquire kind path priority).2 with
    | none =>
      rw [hlease] at hrecords
      rcases hrecords k hk with hk | rfl
      · exact h.pending k hk hscan
      · rfl
    | some lease =>
      rw [hlease] at hrecords
      exact h.pending k ((hrecords.2 k).mp hk).1 hscan
  · cases hlease : (c.acquire kind path priority).2 with
    | none =>
      rw [hlease] at hspec
      rw [hspec.1] at hl
      exact h.active id l hl hscan
    | some lease =>
      rw [hlease] at hspec hrecords
      rw [hspec.active] at hl
      split at hl
      · cases hl
        rw [hrecords.1]
      · exact h.active id l hl hscan

end Excise.ScanCoordinator
