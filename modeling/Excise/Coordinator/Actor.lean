import Excise.Coordinator.Conservation

/-!
# The session actor

The two requests `run_actor` of `scan_coordinator.rs` composes itself: `acquire` schedules a
key and leases exactly it, and `advance` accepts the current generation as well as a newer
one. `active_kept` completes `active_answer`: a call ends only what `ends` says.
-/

namespace Excise.ScanCoordinator
set_option autoImplicit false

variable {c : ScanCoordinator}

def acquire (c : ScanCoordinator) (kind : WorkKind) (path : RelativePath)
    (priority : WorkPriority) : ScanCoordinator × Option WorkLease :=
  let key : WorkKey := ⟨c.session, c.generation, kind, path⟩
  match c.schedule key priority with
  | (scheduled, .Enqueued) | (scheduled, .PriorityRaised) | (scheduled, .AlreadyPending) =>
    scheduled.leaseExact key
  | (scheduled, .AlreadyLeased) | (scheduled, .StaleSession) | (scheduled, .StaleGeneration) =>
    (scheduled, none)

def advance (c : ScanCoordinator) (generation : ScanGeneration) : ScanCoordinator × Bool :=
  if c.generation = generation then (c, true) else c.advanceTo generation

/-- What leasing exactly one key does to the active leases. -/
structure Leased (c c' : ScanCoordinator) (kind : WorkKind) (l : WorkLease) : Prop where
  kind_eq : l.key.kind = kind
  id_eq : l.id.value = c.nextLease
  active : ∀ a : LeaseId, c'.active[a]? = if l.id = a then some l else c.active[a]?
  nextLease : c'.nextLease = satAdd 64 c.nextLease 1

theorem leaseExact_spec (h : Consistent c) (key : WorkKey) :
    c.leaseExact key = (c, none) ∨
      ∃ l, (c.leaseExact key).2 = some l ∧ Leased c (c.leaseExact key).1 key.kind l := by
  unfold leaseExact
  split
  · exact Or.inl rfl
  · rename_i x hx
    split
    · exact Or.inl rfl
    · have hkey := h.pending_key _ _ hx
      have hx' : c.pending[x.queued.key]? = some x := by rw [hkey]; exact hx
      refine Or.inr ⟨⟨⟨c.nextLease⟩, x.queued.key, x.priority, false⟩, ?_, ?_⟩
      · simp [leaseQueued, hx']
      · rw [leaseQueued, hx']
        refine ⟨by simp [hkey], rfl, ?_, rfl⟩
        exact fun a => Maps.getElem?_insert _ _ _ _

/-- The schedule answer stops a request, or the exact key is leased next. -/
theorem acquire_cases (c : ScanCoordinator) (kind : WorkKind) (path : RelativePath)
    (priority : WorkPriority) :
    (c.acquire kind path priority =
        ((c.schedule ⟨c.session, c.generation, kind, path⟩ priority).1, none) ∧
      (c.schedule ⟨c.session, c.generation, kind, path⟩ priority).2 ≠ .Enqueued) ∨
    c.acquire kind path priority =
      (c.schedule ⟨c.session, c.generation, kind, path⟩ priority).1.leaseExact
        ⟨c.session, c.generation, kind, path⟩ := by
  unfold acquire
  dsimp only
  split <;> rename_i heq <;> rw [heq] <;> simp

theorem room_of_acquire (kind : WorkKind) (path : RelativePath) (priority : WorkPriority)
    (h : (c.acquire kind path priority).1.nextLease < satMax 64) : c.nextLease < satMax 64 := by
  rw [← (schedule_keeps c ⟨c.session, c.generation, kind, path⟩ priority).2.2.2]
  rcases acquire_cases c kind path priority with ⟨hc, -⟩ | hc
  · rw [hc] at h
    exact h
  · rw [hc] at h
    exact room_of_answer (.leaseExact ⟨c.session, c.generation, kind, path⟩) h

theorem acquire_spec (h : Consistent c) (kind : WorkKind) (path : RelativePath)
    (priority : WorkPriority)
    (hroom : (c.acquire kind path priority).2.isSome → c.nextLease < satMax 64) :
    Consistent (c.acquire kind path priority).1 ∧
      match (c.acquire kind path priority).2 with
      | none => (c.acquire kind path priority).1.active = c.active ∧
          (c.acquire kind path priority).1.nextLease = c.nextLease
      | some l => Leased c (c.acquire kind path priority).1 kind l := by
  have hsched := consistent_schedule h ⟨c.session, c.generation, kind, path⟩ priority
  obtain ⟨hactive, -, -, hnext⟩ := schedule_keeps c ⟨c.session, c.generation, kind, path⟩ priority
  have hcases := acquire_cases c kind path priority
  generalize c.schedule ⟨c.session, c.generation, kind, path⟩ priority = scheduled at *
  rcases hcases with ⟨hc, -⟩ | hc
  · rw [hc]
    exact ⟨hsched, hactive, hnext⟩
  · rw [hc] at hroom ⊢
    have hanswer := consistent_answer hsched (.leaseExact ⟨c.session, c.generation, kind, path⟩) (by
      simpa [answer, Answer.granted, hnext] using hroom)
    rcases leaseExact_spec hsched ⟨c.session, c.generation, kind, path⟩ with hnone | ⟨l, hl, hspec⟩
    · rw [hnone]
      exact ⟨hsched, hactive, hnext⟩
    · refine ⟨hanswer, ?_⟩
      rw [hl]
      refine ⟨hspec.kind_eq, hspec.id_eq.trans hnext, ?_, by rw [hspec.nextLease, hnext]⟩
      intro a
      rw [hspec.active, hactive]

theorem advance_nextLease (c : ScanCoordinator) (generation : ScanGeneration) :
    (c.advance generation).1.nextLease = c.nextLease := by
  unfold advance
  split
  · rfl
  · exact advanceTo_nextLease c generation

theorem advance_generation {generation : ScanGeneration} (h : (c.advance generation).2 = true) :
    (c.advance generation).1.generation = generation := by
  unfold advance advanceTo at h ⊢
  split
  · rename_i hsame
    exact hsame
  · rename_i hother
    rw [if_neg hother] at h
    split
    · rename_i holder
      rw [if_pos holder] at h
      cases h
    · rfl

theorem active_kept_terminateMatching {terminal : WorkLifecycle} {matching : WorkKey → Bool}
    {id : LeaseId} {l : WorkLease} (hl : c.active[id]? = some l) (hm : matching l.key = false) :
    (c.terminateMatching terminal matching).active[id]? = some l := by
  simp [terminateMatching, getElem?_removeMatching, hl, Option.filter_eq_some_iff, hm]

theorem active_kept_advanceTo {generation : ScanGeneration} {id : LeaseId} {l : WorkLease}
    (hl : c.active[id]? = some l)
    (hends : ends (.advanceTo generation, .advanced (c.advanceTo generation).2) l = false) :
    (c.advanceTo generation).1.active[id]? = some l := by
  unfold advanceTo at hends ⊢
  split
  · exact hl
  · rename_i hnewer
    rw [if_neg hnewer] at hends
    exact active_kept_terminateMatching hl hends

/-- A call takes away no active lease but those it ends. -/
theorem active_kept (h : Consistent c) (call : Call) {id : LeaseId} {l : WorkLease}
    (hl : c.active[id]? = some l) (hends : ends (call, (c.answer call).2) l = false) :
    (c.answer call).1.active[id]? = some l := by
  have hlease : (call = .leaseNext ∨ call = .leaseNextScan ∨ ∃ key, call = .leaseExact key) →
      (c.answer call).1.active[id]? = some l := by
    intro hcall
    rcases lease_cases h hcall with hnone | ⟨w, focused, hw, heq⟩
    · rw [hnone]
      exact hl
    · obtain ⟨l', -, hid, hactive, -⟩ := leaseQueued_granted hw focused
      have hne : l'.id ≠ id := by
        rintro rfl
        exact absurd hid (h.fresh _ _ hl).ne
      rw [heq]
      simp only [hactive, if_neg hne, hl]
  -- a result that names another lease leaves this one alone
  have hother : ∀ lease : WorkLease, c.active[lease.id]? = some lease → lease ≠ l →
      (c.removeActive lease.id).1.active[id]? = some l := by
    intro lease hactive hne
    rw [getElem?_removeActive, if_neg, hl]
    intro heq
    rw [heq] at hactive
    exact hne (Option.some.inj (hactive.symm.trans hl))
  cases call with
  | schedule key priority =>
    simpa only [answer, Prod.map_fst, id_eq, (schedule_keeps c key priority).1] using hl
  | focus path => exact hl
  | leaseNext => exact hlease (Or.inl rfl)
  | leaseNextScan => exact hlease (Or.inr (Or.inl rfl))
  | leaseExact key => exact hlease (Or.inr (Or.inr ⟨key, rfl⟩))
  | finish lease completion =>
    simp only [answer, finish] at hends ⊢
    split at hends
    · rename_i hlease
      simp only [Prod.map_snd, ends, decide_eq_false_iff_not] at hends
      simpa [hlease] using hother lease hlease hends
    · rename_i hstale
      simpa [hstale] using hl
  | requeue lease =>
    simp only [answer, requeue] at hends ⊢
    split at hends
    · rename_i hlease
      simp only [Prod.map_snd, ends, decide_eq_false_iff_not] at hends
      simpa [hlease, addPending] using hother lease hlease hends
    · rename_i hstale
      simpa [hstale] using hl
  | cancelAll | failAll | invalidateAll => simp [ends] at hends
  | cancelScanWork => exact active_kept_terminateMatching hl hends
  | failScanWork => exact active_kept_terminateMatching hl hends
  | invalidateScanWork => exact active_kept_terminateMatching hl hends
  | invalidatePrefix generation pre =>
    simp only [answer, Prod.map_fst, id_eq, invalidatePrefix, recordTerminal_active,
      foldl_invalidateActive, getElem?_removeMatching, foldl_invalidatePending, dropAll_active, hl]
    simpa [Option.filter_eq_some_iff, ends] using hends
  | advanceTo generation => exact active_kept_advanceTo hl hends
  | advanceGeneration =>
    simp only [answer, advanceGeneration] at hends ⊢
    split at hends
    · rename_i hmax
      simpa [hmax] using hl
    · rename_i hmax
      rw [if_neg hmax]
      refine active_kept_advanceTo hl ?_
      simpa [answer, advanceTo, lt_next_generation hmax, ends] using hends

end Excise.ScanCoordinator
