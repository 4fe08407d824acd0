import Excise.Coordinator.Invariant

/-!
# No work item is lost or counted twice

Between two generation advances the items in hand and the terminal counters move together:
`balanced_answer` is the law of one call and `conservation` of a whole stretch. Lease ids are
never reused, so a lease is accepted at most once and never after the call that ended it.
-/

namespace Excise
set_option autoImplicit false

def TerminalWorkCounts.total (t : TerminalWorkCounts) : Nat :=
  t.succeeded + t.failed + t.cancelled + t.invalidated

/-- No counter has reached the largest value of its type. -/
structure TerminalWorkCounts.Below (t : TerminalWorkCounts) : Prop where
  succeeded : t.succeeded < satMax 64
  failed : t.failed < satMax 64
  cancelled : t.cancelled < satMax 64
  invalidated : t.invalidated < satMax 64

namespace ScanCoordinator
variable {c : ScanCoordinator}

/-- Pending plus active items. -/
def load (c : ScanCoordinator) : Nat := c.pending.size + c.active.size

/-- From `c` to `c'` with `gained` new items: unless a counter saturates, nothing is lost. -/
def Balanced (c c' : ScanCoordinator) (gained : Nat) : Prop :=
  c'.terminal.Below → c.terminal.Below ∧ c.terminal.total ≤ c'.terminal.total ∧
    c.load + gained + c.terminal.total = c'.load + c'.terminal.total

theorem Balanced.refl (c : ScanCoordinator) : Balanced c c 0 := fun h => ⟨h, le_rfl, rfl⟩

theorem Balanced.trans {a b d : ScanCoordinator} {m n : Nat} (hab : Balanced a b m)
    (hbd : Balanced b d n) : Balanced a d (m + n) := by
  intro hd
  obtain ⟨hb, hle, hbd⟩ := hbd hd
  obtain ⟨ha, hle', hab⟩ := hab hb
  exact ⟨ha, by omega, by omega⟩

theorem Balanced.of_terminal_eq {c' : ScanCoordinator} {gained : Nat}
    (hterminal : c'.terminal = c.terminal) (hload : c.load + gained = c'.load) :
    Balanced c c' gained := by
  intro h
  rw [hterminal] at h ⊢
  exact ⟨h, le_rfl, by rw [hload]⟩

theorem recordTerminal_total {lifecycle : WorkLifecycle} {count : Nat}
    (hfinal : lifecycle ≠ .Pending ∧ lifecycle ≠ .Leased)
    (hbelow : (c.recordTerminal lifecycle (satAdd 64 0 count)).terminal.Below) :
    c.terminal.Below ∧
      (c.recordTerminal lifecycle (satAdd 64 0 count)).terminal.total =
        c.terminal.total + count := by
  obtain ⟨hs, hf, hc, hi⟩ := hbelow
  cases lifecycle with
  | Pending => exact absurd rfl hfinal.1
  | Leased => exact absurd rfl hfinal.2
  | _ =>
    simp only [recordTerminal, satAdd, TerminalWorkCounts.total] at hs hf hc hi ⊢
    exact ⟨⟨by omega, by omega, by omega, by omega⟩, by omega⟩

/-- `count` items left `c` for `c'` and are then recorded under one terminal state. -/
theorem balanced_recordTerminal {c' : ScanCoordinator} {lifecycle : WorkLifecycle} {count : Nat}
    (hfinal : lifecycle ≠ .Pending ∧ lifecycle ≠ .Leased) (hterminal : c'.terminal = c.terminal)
    (hload : c.load = c'.load + count) :
    Balanced c (c'.recordTerminal lifecycle (satAdd 64 0 count)) 0 := by
  intro hbelow
  obtain ⟨hbelow, htotal⟩ := recordTerminal_total hfinal hbelow
  have hsame : (c'.recordTerminal lifecycle (satAdd 64 0 count)).load = c'.load := by simp [load]
  rw [← hterminal]
  exact ⟨hbelow, by omega, by omega⟩

/-! ## The law of one call -/

theorem balanced_schedule (key : WorkKey) (priority : WorkPriority) :
    Balanced c (c.schedule key priority).1
      (if (c.schedule key priority).2 = .Enqueued then 1 else 0) := by
  unfold schedule
  split
  · exact Balanced.refl c
  split
  · exact Balanced.refl c
  split
  · exact Balanced.refl c
  dsimp only
  split
  · rename_i x hx
    split
    · exact Balanced.refl c
    · refine Balanced.of_terminal_eq rfl ?_
      simp [load, Maps.size_insert_of_mem ((Maps.mem_iff _ _).mpr ⟨x, hx⟩)]
  · rename_i hpending
    refine Balanced.of_terminal_eq rfl ?_
    simp only [load, addPending, Maps.size_insert_of_not_mem ((Maps.not_mem_iff _ _).mpr hpending),
      if_true]
    omega

theorem balanced_leaseQueued (h : Consistent c) {w : QueuedWork} (hw : c.Selectable w)
    (focused : Bool) : Balanced c (c.leaseQueued w focused).1 0 := by
  obtain ⟨⟨p, hp⟩, -⟩ := hw
  have hnew : (⟨c.nextLease⟩ : LeaseId) ∉ c.active := by
    intro hmem
    obtain ⟨l, hl⟩ := (Maps.mem_iff _ _).mp hmem
    exact absurd (h.fresh _ l hl) (Nat.lt_irrefl _)
  have herase := Maps.size_erase_of_mem ((Maps.mem_iff _ _).mpr ⟨_, hp⟩)
  rw [leaseQueued, hp]
  refine Balanced.of_terminal_eq rfl ?_
  simp only [load, dropPending, Maps.size_insert_of_not_mem hnew]
  omega

theorem balanced_finish (lease : WorkLease) (completion : WorkCompletion) :
    Balanced c (c.finish lease completion).1 0 := by
  unfold finish
  split
  · rename_i hl
    have hsize := size_removeActive c lease.id hl
    have hone : satAdd 64 0 1 = 1 := satAdd_of_le (by decide)
    rw [← hone]
    refine balanced_recordTerminal ?_ (removeActive_terminal c lease.id) ?_
    · cases completion <;> simp [WorkCompletion.lifecycle]
    · simp only [load, removeActive_pending]
      omega
  · exact Balanced.refl c

theorem balanced_requeue (h : Consistent c) (lease : WorkLease) :
    Balanced c (c.requeue lease).1 0 := by
  unfold requeue
  split
  · rename_i hl
    have hsize := size_removeActive c lease.id hl
    have hnot : lease.key ∉ c.pending := by
      rw [Maps.mem_iff]
      rintro ⟨x, hx⟩
      have hkey := h.key_of_active _ _ hl
      simp [h.disjoint _ _ hx] at hkey
    refine Balanced.of_terminal_eq (by simp [addPending]) ?_
    simp only [load, addPending, removeActive_pending, Maps.size_insert_of_not_mem hnot]
    omega
  · exact Balanced.refl c

theorem balanced_terminateAll (terminal : WorkLifecycle)
    (hfinal : terminal ≠ .Pending ∧ terminal ≠ .Leased) :
    Balanced c (c.terminateAll terminal) 0 := by
  have hcount : satAdd 64 c.pending.size c.active.size = satAdd 64 0 c.load := by
    simp [satAdd, load]
  unfold terminateAll
  rw [hcount]
  exact balanced_recordTerminal hfinal rfl (by simp [load])

theorem balanced_terminateMatching (terminal : WorkLifecycle)
    (hfinal : terminal ≠ .Pending ∧ terminal ≠ .Leased) (matching : WorkKey → Bool) :
    Balanced c (c.terminateMatching terminal matching) 0 := by
  have hpending : (c.pending.toList.filter fun e => matching e.1).length +
      (Maps.eraseAll c.pending
        ((c.pending.toList.filter fun e => matching e.1).map Prod.fst)).size =
      c.pending.size := by
    have hsize := Maps.size_eraseAll (m := c.pending)
      ((Maps.nodup_keys c.pending).sublist
        ((List.filter_sublist (p := fun e => matching e.1)).map Prod.fst)) (by
      intro k hk
      obtain ⟨e, he, rfl⟩ := List.mem_map.mp hk
      exact (Maps.mem_iff _ _).mpr ⟨e.2, ((mem_pendingMatching c matching).mp he).1⟩)
    simp only [List.length_map] at hsize
    omega
  have hactive := size_removeMatching
    (c.dropAll (c.pending.toList.filter fun e => matching e.1)) matching
  rw [dropAll_active] at hactive
  have hcount : ∀ a b : Nat, satAdd 64 a b = satAdd 64 0 (a + b) := by simp [satAdd]
  unfold terminateMatching
  dsimp only
  rw [hcount]
  refine balanced_recordTerminal hfinal (by simp) ?_
  simp only [load, removeAll_pending, dropAll_pending]
  omega

theorem foldl_invalidatePending_count (entries : List (WorkPriority × QueuedWork)) (n : Nat)
    (hn : n ≤ satMax 64) :
    ∃ k, (entries.foldl invalidatePending (c, n)).1.pending.size + k = c.pending.size ∧
      (entries.foldl invalidatePending (c, n)).2 = satAdd 64 n k := by
  induction entries generalizing c n with
  | nil => exact ⟨0, rfl, (satAdd_zero hn).symm⟩
  | cons e es ih =>
    simp only [List.foldl_cons, invalidatePending]
    by_cases hmem : e.2.key ∈ c.pending
    · have hsize := Maps.size_erase_of_mem hmem
      rw [if_pos (Std.TreeMap.mem_iff_contains.mp hmem)]
      obtain ⟨k, hk, heq⟩ := ih (c := c.dropPending e.1 e.2 e.2.key) _ (satAdd_le 64 n 1)
      refine ⟨1 + k, ?_, by rw [heq, satAdd_satAdd]⟩
      simp only [dropPending] at hk ⊢
      omega
    · have hsame : (c.dropPending e.1 e.2 e.2.key).pending.size = c.pending.size := by
        simp only [dropPending, Std.TreeMap.size_erase]
        rw [if_neg (fun hc => hmem (Std.TreeMap.mem_iff_contains.mpr hc))]
      rw [if_neg (fun hc => hmem (Std.TreeMap.mem_iff_contains.mpr hc)), ← hsame]
      exact ih (c := c.dropPending e.1 e.2 e.2.key) n hn

theorem foldl_invalidateActive_count (ids : List LeaseId) (n : Nat) (hn : n ≤ satMax 64) :
    ∃ k, (ids.foldl invalidateActive (c, n)).1.active.size + k = c.active.size ∧
      (ids.foldl invalidateActive (c, n)).2 = satAdd 64 n k := by
  induction ids generalizing c n with
  | nil => exact ⟨0, rfl, (satAdd_zero hn).symm⟩
  | cons a as ih =>
    simp only [List.foldl_cons, invalidateActive, removeActive_lease]
    cases hl : c.active[a]? with
    | none =>
      have hsame : (c.removeActive a).1 = c := by simp [removeActive, hl]
      rw [hsame]
      exact ih n hn
    | some l =>
      have hsize := size_removeActive c a hl
      obtain ⟨k, hk, heq⟩ := ih (c := (c.removeActive a).1) _ (satAdd_le 64 n 1)
      refine ⟨1 + k, ?_, by simp only [Option.isSome_some, if_true, heq, satAdd_satAdd]⟩
      simp only [Option.isSome_some, if_true]
      omega

theorem balanced_invalidatePrefix (generation : ScanGeneration) (pre : RelativePath) :
    Balanced c (c.invalidatePrefix generation pre).1 0 := by
  simp only [invalidatePrefix]
  obtain ⟨k, hk, hcount⟩ := foldl_invalidatePending_count (c := c)
    (c.queues.pendingUnder generation pre) 0 (Nat.zero_le _)
  have hdropped := foldl_invalidatePending (c := c) (c.queues.pendingUnder generation pre) 0
  generalize (c.queues.pendingUnder generation pre).foldl invalidatePending (c, 0) = pending
    at hk hcount hdropped ⊢
  have hfirst : Balanced c (pending.1.recordTerminal .Invalidated pending.2) 0 := by
    rw [hcount]
    refine balanced_recordTerminal (by simp) (by simp [hdropped]) ?_
    simp only [load]
    rw [hdropped, dropAll_active, ← hdropped]
    omega
  refine hfirst.trans (n := 0) ?_
  generalize pending.1.recordTerminal .Invalidated pending.2 = counted
  obtain ⟨k, hk, hcount⟩ := foldl_invalidateActive_count (c := counted)
    (counted.activeMatching (underPrefix generation pre)) 0 (Nat.zero_le _)
  have hremoved := foldl_invalidateActive (c := counted)
    (counted.activeMatching (underPrefix generation pre)) 0
  rw [hcount]
  refine balanced_recordTerminal (by simp) (by rw [hremoved, removeAll_terminal]) ?_
  simp only [load]
  rw [hremoved, removeAll_pending, ← hremoved]
  omega

/-- An accepted generation advance. -/
def advanced : Answer → Bool
  | .advanced moved => moved
  | .generation next => next.isSome
  | _ => false

def enqueued (h : List (Call × Answer)) : Nat := h.countP fun e => e.2 = .scheduled .Enqueued

theorem balanced_answer (h : Consistent c) (call : Call)
    (hstays : advanced (c.answer call).2 = false) :
    Balanced c (c.answer call).1 (enqueued [(call, (c.answer call).2)]) := by
  have hlease : (call = .leaseNext ∨ call = .leaseNextScan ∨ ∃ key, call = .leaseExact key) →
      Balanced c (c.answer call).1 (enqueued [(call, (c.answer call).2)]) := by
    intro hcall
    rcases lease_cases h hcall with hnone | ⟨w, focused, hw, heq⟩
    · rw [hnone]
      exact Balanced.refl c
    · rw [heq]
      exact balanced_leaseQueued h hw focused
  cases call with
  | schedule key priority =>
    have hsched := balanced_schedule (c := c) key priority
    simpa [enqueued, answer, List.countP_singleton] using hsched
  | focus path => exact Balanced.of_terminal_eq rfl rfl
  | leaseNext => exact hlease (Or.inl rfl)
  | leaseNextScan => exact hlease (Or.inr (Or.inl rfl))
  | leaseExact key => exact hlease (Or.inr (Or.inr ⟨key, rfl⟩))
  | finish lease completion => exact balanced_finish lease completion
  | requeue lease => exact balanced_requeue h lease
  | cancelAll => exact balanced_terminateAll .Cancelled (by simp)
  | failAll => exact balanced_terminateAll .Failed (by simp)
  | invalidateAll => exact balanced_terminateAll .Invalidated (by simp)
  | cancelScanWork => exact balanced_terminateMatching .Cancelled (by simp) isEnumerate
  | failScanWork => exact balanced_terminateMatching .Failed (by simp) isEnumerate
  | invalidateScanWork => exact balanced_terminateMatching .Invalidated (by simp) isEnumerate
  | invalidatePrefix generation pre => exact balanced_invalidatePrefix generation pre
  | advanceTo generation =>
    simp only [answer, advanceTo] at hstays ⊢
    split at hstays
    · rename_i hle
      rw [if_pos hle]
      exact Balanced.refl c
    · simp [advanced] at hstays
  | advanceGeneration =>
    simp only [answer, advanceGeneration] at hstays ⊢
    split at hstays
    · rename_i hmax
      rw [if_pos hmax]
      exact Balanced.refl c
    · simp [advanced] at hstays

/-! ## Leases -/

/-- The call took `lease` back as a result: it was finished or requeued. -/
def accepts : Call × Answer → WorkLease → Bool
  | (.finish l _, .finished .Accepted), lease => l = lease
  | (.requeue l, .requeued .Requeued), lease => l = lease
  | _, _ => false

/-- The call ended `lease` if it was active: accepted as a result, cancelled, failed,
invalidated, or superseded by a generation advance. -/
def ends : Call × Answer → WorkLease → Bool
  | (.finish l _, .finished .Accepted), lease => l = lease
  | (.requeue l, .requeued .Requeued), lease => l = lease
  | (.cancelAll, _), _ | (.failAll, _), _ | (.invalidateAll, _), _ => true
  | (.cancelScanWork, _), lease | (.failScanWork, _), lease | (.invalidateScanWork, _), lease =>
    isEnumerate lease.key
  | (.invalidatePrefix generation pre, _), lease => underPrefix generation pre lease.key
  | (.advanceTo _, .advanced true), lease => lease.key.kind.isScanWork
  | (.advanceGeneration, .generation (some _)), lease => lease.key.kind.isScanWork
  | _, _ => false

theorem ends_of_accepts {e : Call × Answer} {lease : WorkLease} (h : accepts e lease = true) :
    ends e lease = true := by
  unfold accepts at h
  split at h
  · exact h
  · exact h
  · simp at h

theorem active_of_accepts {call : Call} {lease : WorkLease}
    (h : accepts (call, (c.answer call).2) lease = true) : c.active[lease.id]? = some lease := by
  cases call with
  | finish l completion =>
    simp only [answer, finish] at h
    split at h
    · simp_all [accepts]
    · simp [accepts] at h
  | requeue l =>
    simp only [answer, requeue] at h
    split at h
    · simp_all [accepts]
    · simp [accepts] at h
  | _ => simp [accepts] at h

theorem id_of_granted (h : Consistent c) {call : Call} {l : WorkLease}
    (hg : (c.answer call).2.granted = some l) : l.id.value = c.nextLease := by
  have hlease : (call = .leaseNext ∨ call = .leaseNextScan ∨ ∃ key, call = .leaseExact key) →
      l.id.value = c.nextLease := by
    intro hcall
    rcases lease_cases h hcall with hnone | ⟨w, focused, hw, heq⟩
    · simp [hnone, Answer.granted] at hg
    · obtain ⟨l', hl', hid, -⟩ := leaseQueued_granted hw focused
      rw [heq] at hg
      obtain rfl := Option.some.inj (hl'.symm.trans hg)
      exact hid
  cases call with
  | leaseNext => exact hlease (Or.inl rfl)
  | leaseNextScan => exact hlease (Or.inr (Or.inl rfl))
  | leaseExact key => exact hlease (Or.inr (Or.inr ⟨key, rfl⟩))
  | _ => simp [answer, Answer.granted] at hg

theorem active_terminateMatching {terminal : WorkLifecycle} {matching : WorkKey → Bool}
    {id : LeaseId} {l : WorkLease}
    (hl : (c.terminateMatching terminal matching).active[id]? = some l) :
    c.active[id]? = some l ∧ matching l.key = false := by
  simp only [terminateMatching, recordTerminal_active, getElem?_removeMatching, dropAll_active,
    Option.filter_eq_some_iff] at hl
  simpa using hl

theorem active_invalidatePrefix {generation : ScanGeneration} {pre : RelativePath} {id : LeaseId}
    {l : WorkLease} (hl : (c.invalidatePrefix generation pre).1.active[id]? = some l) :
    c.active[id]? = some l ∧ underPrefix generation pre l.key = false := by
  simp only [invalidatePrefix, recordTerminal_active, foldl_invalidateActive,
    getElem?_removeMatching, foldl_invalidatePending, dropAll_active,
    Option.filter_eq_some_iff] at hl
  simpa using hl

theorem active_removeActive {lease l : WorkLease} {id : LeaseId}
    (hl : (c.removeActive lease.id).1.active[id]? = some l) :
    c.active[id]? = some l ∧ lease.id ≠ id := by
  rw [getElem?_removeActive] at hl
  split at hl
  · simp at hl
  · rename_i hne
    exact ⟨hl, hne⟩

theorem active_advanceTo {generation : ScanGeneration} {id : LeaseId} {l : WorkLease}
    (hl : (c.advanceTo generation).1.active[id]? = some l) :
    c.active[id]? = some l ∧
      ((c.advanceTo generation).2 = true → l.key.kind.isScanWork = false) := by
  unfold advanceTo at hl ⊢
  split at hl
  · rename_i hle
    exact ⟨hl, by simp [hle]⟩
  · obtain ⟨hl, hscan⟩ := active_terminateMatching hl
    exact ⟨hl, fun _ => hscan⟩

theorem lt_next_generation {g : ScanGeneration} (h : g.value.toNat ≠ satMax 64) :
    ¬(⟨g.value + 1⟩ : ScanGeneration) ≤ g := by
  have hlt := g.value.toNat_lt
  have hnext : (g.value + 1).toNat = g.value.toNat + 1 := by
    rw [UInt64.toNat_add, UInt64.toNat_one]
    unfold satMax at h
    omega
  intro hle
  have hle' : (g.value + 1).toNat ≤ g.value.toNat := hle
  omega

/-- A lease is active after a call because the call granted it, with the next id, or because
it was active before and the call did not end it. -/
theorem active_answer (h : Consistent c) (call : Call) {id : LeaseId} {l : WorkLease}
    (hl : (c.answer call).1.active[id]? = some l) :
    ((c.answer call).2.granted = some l ∧ l.id.value = c.nextLease) ∨
      (c.active[id]? = some l ∧ ends (call, (c.answer call).2) l = false) := by
  have hlease : (call = .leaseNext ∨ call = .leaseNextScan ∨ ∃ key, call = .leaseExact key) →
      ((c.answer call).2.granted = some l ∧ l.id.value = c.nextLease) ∨
        (c.active[id]? = some l ∧ ends (call, (c.answer call).2) l = false) := by
    intro hcall
    have hends : ∀ answer, ends (call, answer) l = false := by
      rcases hcall with rfl | rfl | ⟨key, rfl⟩ <;> intro answer <;> rfl
    rcases lease_cases h hcall with hnone | ⟨w, focused, hw, heq⟩
    · rw [hnone] at hl
      exact Or.inr ⟨hl, hends _⟩
    · obtain ⟨l', hl', hid, hactive, -⟩ := leaseQueued_granted hw focused
      rw [heq] at hl ⊢
      simp only [hactive] at hl
      split at hl
      · obtain rfl := Option.some.inj hl
        exact Or.inl ⟨hl', hid⟩
      · exact Or.inr ⟨hl, hends _⟩
  cases call with
  | schedule key priority =>
    simp only [answer, Prod.map_fst, id_eq, (schedule_keeps c key priority).1] at hl
    exact Or.inr ⟨hl, rfl⟩
  | focus path => exact Or.inr ⟨hl, rfl⟩
  | leaseNext => exact hlease (Or.inl rfl)
  | leaseNextScan => exact hlease (Or.inr (Or.inl rfl))
  | leaseExact key => exact hlease (Or.inr (Or.inr ⟨key, rfl⟩))
  | finish lease completion =>
    simp only [answer, finish] at hl ⊢
    split at hl
    · rename_i hlease
      simp only [Prod.map_fst, id_eq, recordTerminal_active] at hl
      obtain ⟨hl, hne⟩ := active_removeActive hl
      refine Or.inr ⟨hl, ?_⟩
      simp only [hlease, if_true, Prod.map_snd, ends, decide_eq_false_iff_not]
      rintro rfl
      exact hne (h.active_id _ _ hl)
    · rename_i hstale
      exact Or.inr ⟨hl, by simp [hstale, ends]⟩
  | requeue lease =>
    simp only [answer, requeue] at hl ⊢
    split at hl
    · rename_i hlease
      obtain ⟨hl, hne⟩ := active_removeActive hl
      refine Or.inr ⟨hl, ?_⟩
      simp only [hlease, if_true, Prod.map_snd, ends, decide_eq_false_iff_not]
      rintro rfl
      exact hne (h.active_id _ _ hl)
    · rename_i hstale
      exact Or.inr ⟨hl, by simp [hstale, ends]⟩
  | cancelAll | failAll | invalidateAll =>
    simp [answer, cancelAll, failAll, invalidateAll, terminateAll] at hl
  | cancelScanWork => exact Or.inr (active_terminateMatching hl)
  | failScanWork => exact Or.inr (active_terminateMatching hl)
  | invalidateScanWork => exact Or.inr (active_terminateMatching hl)
  | invalidatePrefix generation pre => exact Or.inr (active_invalidatePrefix hl)
  | advanceTo generation =>
    obtain ⟨hl, hscan⟩ := active_advanceTo hl
    refine Or.inr ⟨hl, ?_⟩
    simp only [answer, Prod.map_snd]
    cases hmoved : (c.advanceTo generation).2 with
    | false => rfl
    | true => exact hscan hmoved
  | advanceGeneration =>
    simp only [answer, advanceGeneration] at hl ⊢
    split at hl
    · rename_i hmax
      exact Or.inr ⟨hl, by simp [hmax, ends]⟩
    · rename_i hmax
      obtain ⟨hl, hscan⟩ := active_advanceTo hl
      refine Or.inr ⟨hl, ?_⟩
      rw [if_neg hmax]
      exact hscan (by simp [advanceTo, lt_next_generation hmax])

/-- What a trace says about the leases of the state it ends in. -/
structure Owned (h : List (Call × Answer)) (c : ScanCoordinator) : Prop where
  granted_lt : ∀ e ∈ h, ∀ l, e.2.granted = some l → l.id.value < c.nextLease
  granted : ∀ id l, c.ActiveLease id l → ∃ e ∈ h, e.2.granted = some l
  not_ended : ∀ id l, c.ActiveLease id l → ∀ before e after, h = before ++ e :: after →
    (∃ g ∈ before, g.2.granted = some l) → ends e l = false

theorem owned_answer {h : List (Call × Answer)} (hc : Consistent c) (ho : Owned h c)
    (call : Call) (hroom : (c.answer call).2.granted.isSome → c.nextLease < satMax 64) :
    Owned (h ++ [(call, (c.answer call).2)]) (c.answer call).1 := by
  have hnext := nextLease_answer c call
  have hmono : c.nextLease ≤ (c.answer call).1.nextLease := by
    rw [hnext]
    split
    · rename_i hg
      rw [satAdd_of_le (hroom hg)]
      omega
    · exact le_rfl
  refine ⟨?_, ?_, ?_⟩
  · intro e he l hl
    rcases List.mem_append.mp he with he | he
    · exact lt_of_lt_of_le (ho.granted_lt e he l hl) hmono
    · obtain rfl := List.mem_singleton.mp he
      have hsome : (c.answer call).2.granted.isSome := Option.isSome_of_eq_some hl
      rw [hnext, if_pos hsome, satAdd_of_le (hroom hsome), id_of_granted hc hl]
      exact Nat.lt_succ_self _
  · intro id l hl
    rcases active_answer hc call hl with ⟨hg, -⟩ | ⟨hl, -⟩
    · exact ⟨_, List.mem_append_right h (List.mem_singleton_self _), hg⟩
    · obtain ⟨e, he, hg⟩ := ho.granted id l hl
      exact ⟨e, by simp [he], hg⟩
  · intro id l hl before e after hsplit hgranted
    -- a lease granted just now has a new id, so no earlier call granted it
    have hbefore : (∃ g ∈ before, g ∈ h ∧ g.2.granted = some l) →
        c.ActiveLease id l ∧ ends (call, (c.answer call).2) l = false := by
      rintro ⟨g, -, hmem, hg⟩
      rcases active_answer hc call hl with ⟨-, hid⟩ | hold
      · exact absurd hid (ho.granted_lt g hmem l hg).ne
      · exact hold
    rcases after.eq_nil_or_concat with rfl | ⟨after, last, rfl⟩
    · obtain ⟨rfl, heq⟩ := List.append_inj' hsplit rfl
      obtain rfl := (List.cons.inj heq).1
      obtain ⟨g, hmem, hg⟩ := hgranted
      exact (hbefore ⟨g, hmem, hmem, hg⟩).2
    · rw [List.concat_eq_append, ← List.cons_append, ← List.append_assoc] at hsplit
      obtain ⟨rfl, -⟩ := List.append_inj' hsplit rfl
      obtain ⟨g, hmem, hg⟩ := hgranted
      have hold := hbefore ⟨g, hmem, List.mem_append_left _ hmem, hg⟩
      exact ho.not_ended id l hold.1 before e after rfl ⟨g, hmem, hg⟩

/-! ## Whole runs -/

section Runs
variable {session : ScanSessionId} {generation : ScanGeneration}

theorem grants_trace_le (before after : List Call) :
    grants (machine.trace (new session generation) before) ≤
      grants (machine.trace (new session generation) (before ++ after)) := by
  rw [machine.trace_append]
  simp [grants, List.countP_append]

theorem balanced_run {before stretch : List Call}
    (hgrants : grants (machine.trace (new session generation) (before ++ stretch)) < 2 ^ 64)
    (hstays : ∀ e ∈ machine.trace (machine.run (new session generation) before) stretch,
      advanced e.2 = false) :
    Balanced (machine.run (new session generation) before)
      (machine.run (new session generation) (before ++ stretch))
      (enqueued (machine.trace (machine.run (new session generation) before) stretch)) := by
  induction stretch generalizing before with
  | nil =>
    rw [List.append_nil]
    exact Balanced.refl _
  | cons call calls ih =>
    have hc := consistent_run (lt_of_le_of_lt (grants_trace_le before (call :: calls)) hgrants)
    have hone := balanced_answer hc call (hstays _ List.mem_cons_self)
    have hsnoc : machine.run (new session generation) (before ++ [call]) =
        ((machine.run (new session generation) before).answer call).1 := by
      rw [machine.run_append]
      rfl
    have hrest := @ih (before ++ [call]) (by simpa using hgrants) (by
      intro e he
      rw [hsnoc] at he
      exact hstays e (List.mem_cons_of_mem _ he))
    rw [hsnoc, List.append_assoc, List.singleton_append] at hrest
    have hall := hone.trans hrest
    rwa [enqueued, enqueued, ← List.countP_append] at hall

theorem owned_run {calls : List Call}
    (hgrants : grants (machine.trace (new session generation) calls) < 2 ^ 64) :
    Owned (machine.trace (new session generation) calls)
      (machine.run (new session generation) calls) := by
  refine (run_rule (Q := Owned) ?_ ?_ hgrants).2.2
  · exact ⟨by simp, by simp [ActiveLease, new], by simp [ActiveLease, new]⟩
  · exact fun h c call hc hroom ho => owned_answer hc ho call hroom

/-- An accepted result was granted before and had not been ended since. -/
theorem owned_of_accepts {calls : List Call} {before after : List (Call × Answer)}
    {e : Call × Answer} {lease : WorkLease}
    (hgrants : grants (machine.trace (new session generation) calls) < 2 ^ 64)
    (htrace : machine.trace (new session generation) calls = before ++ e :: after)
    (haccepts : accepts e lease = true) :
    (∃ g ∈ before, g.2.granted = some lease) ∧
      ∀ earlier e' later, before = earlier ++ e' :: later →
        (∃ g ∈ earlier, g.2.granted = some lease) → ends e' lease = false := by
  obtain ⟨call, answer⟩ := e
  obtain ⟨pre, post, rfl, rfl, rfl⟩ := machine.trace_split htrace
  have ho := owned_run (lt_of_le_of_lt (grants_trace_le pre (call :: post)) hgrants)
  have hactive := active_of_accepts (c := machine.run (new session generation) pre) haccepts
  exact ⟨ho.granted _ _ hactive, ho.not_ended _ _ hactive⟩

end Runs

/-- Over any stretch of a run without a generation advance, items in hand plus enqueued items
equal items in hand afterwards plus the increase of the terminal counters; and a lease is
accepted at most once in the whole run, only after it was granted, and never after a call
that ended it. -/
theorem conservation_and_single_acceptance (session : ScanSessionId) (generation : ScanGeneration)
    (calls : List Call)
    (hgrants : grants (machine.trace (new session generation) calls) < 2 ^ 64) :
    (∀ before stretch, calls = before ++ stretch →
      ∀ start finish, start = machine.run (new session generation) before →
      finish = machine.run start stretch →
      (∀ e ∈ machine.trace start stretch, advanced e.2 = false) → finish.terminal.Below →
      start.terminal.total ≤ finish.terminal.total ∧
        start.load + enqueued (machine.trace start stretch) =
          finish.load + (finish.terminal.total - start.terminal.total)) ∧
    ∀ before e after lease,
      machine.trace (new session generation) calls = before ++ e :: after →
      accepts e lease = true →
      (∃ g ∈ before, g.2.granted = some lease) ∧
        (∀ e' ∈ before ++ after, accepts e' lease = false) ∧
        ∀ earlier e' later, before = earlier ++ e' :: later →
          (∃ g ∈ earlier, g.2.granted = some lease) → ends e' lease = false := by
  refine ⟨?_, ?_⟩
  · rintro before stretch rfl start finish rfl rfl hstays hbelow
    have hbalanced := balanced_run hgrants hstays
    rw [machine.run_append] at hbalanced
    obtain ⟨-, hle, heq⟩ := hbalanced hbelow
    exact ⟨hle, by omega⟩
  · intro before e after lease htrace haccepts
    obtain ⟨hgranted, hlive⟩ := owned_of_accepts hgrants htrace haccepts
    refine ⟨hgranted, ?_, hlive⟩
    -- two acceptances: the later one would come after a call that ended the lease
    intro e' he'
    by_contra haccepts'
    rw [Bool.not_eq_false] at haccepts'
    rcases List.mem_append.mp he' with he' | he'
    · obtain ⟨earlier, later, rfl⟩ := List.append_of_mem he'
      have htrace' : machine.trace (new session generation) calls =
          earlier ++ e' :: (later ++ e :: after) := by simpa using htrace
      have hfirst := (owned_of_accepts hgrants htrace' haccepts').1
      simpa [ends_of_accepts haccepts'] using hlive earlier e' later rfl hfirst
    · obtain ⟨earlier, later, rfl⟩ := List.append_of_mem he'
      have htrace' : machine.trace (new session generation) calls =
          (before ++ e :: earlier) ++ e' :: later := by simpa using htrace
      have hlater := (owned_of_accepts hgrants htrace' haccepts').2
      simpa [ends_of_accepts haccepts] using hlater before e earlier rfl hgranted

/-- A directory is leased, requeued, leased again and cancelled. -/
def requeueRun : List Call :=
  [.schedule (childKey .EnumerateDirectory ⟨[97], by decide⟩) .Background, .leaseNext,
    .requeue ⟨⟨0⟩, childKey .EnumerateDirectory ⟨[97], by decide⟩, .Background, false⟩,
    .leaseNext, .cancelAll]

theorem conservation_and_single_acceptance_requeue :
    (new ⟨7⟩ ⟨0⟩).load + enqueued (machine.trace (new ⟨7⟩ ⟨0⟩) requeueRun) =
        (machine.run (new ⟨7⟩ ⟨0⟩) requeueRun).load +
          ((machine.run (new ⟨7⟩ ⟨0⟩) requeueRun).terminal.total - 0) ∧
      (machine.run (new ⟨7⟩ ⟨0⟩) requeueRun).terminal = ⟨0, 0, 1, 0⟩ :=
  ⟨((conservation_and_single_acceptance ⟨7⟩ ⟨0⟩ requeueRun (by decide)).1 [] requeueRun rfl _ _ rfl
    rfl (by decide) ⟨by decide, by decide, by decide, by decide⟩).2, by decide⟩

end ScanCoordinator

end Excise
