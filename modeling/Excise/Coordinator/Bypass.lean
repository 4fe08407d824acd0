import Excise.Coordinator.Prefix

/-!
# Background work is bypassed a bounded number of times

The burst counter is at least the number of grants that passed a waiting background item by since
it became the oldest. Once the counter reaches the burst the next grant outside the safety lane is
that item.
-/

namespace Excise
set_option autoImplicit false

/-- The least element with a property is the first one a set yields. -/
theorem ReadyQueues.find_first {s : WorkSet} {test : QueuedWork → Bool} {w : QueuedWork} (hw : w ∈ s)
    (htest : test w = true) (hleast : ∀ w' ∈ s, w ≤ w') : s.toList.find? test = some w := by
  have hmem := (Maps.mem_set_toList s w).mpr hw
  cases hfind : s.toList.find? test with
  | none => exact absurd htest (List.find?_eq_none.mp hfind w hmem)
  | some w' =>
    obtain ⟨-, front, back, hsplit, hfront⟩ := List.find?_eq_some_iff_append.mp hfind
    have hordered := set_toList_ordered s
    have hin := (Maps.mem_set_toList s w').mp (List.mem_of_find?_eq_some hfind)
    rw [hsplit] at hmem hordered
    rcases List.mem_append.mp hmem with hmem | hmem
    · have hfailed := hfront w hmem
      rw [htest] at hfailed
      cases hfailed
    · rcases List.mem_cons.mp hmem with rfl | hmem
      · rfl
      · have hlt := (List.pairwise_cons.mp (List.pairwise_append.mp hordered).2.1).1 w hmem
        exact absurd hlt (not_lt.mpr (hleast w' hin))

namespace ScanCoordinator

variable {c : ScanCoordinator} {w : QueuedWork}

/-- `w` is pending background scan work and of all pending background items the oldest. -/
structure OldestBackground (c : ScanCoordinator) (w : QueuedWork) : Prop where
  pending : c.pending[w.key]? = some ⟨.Background, w⟩
  scanWork : w.key.kind.isScanWork = true
  oldest : ∀ (k : WorkKey) (x : PendingWork), c.pending[k]? = some x → x.priority = .Background →
    x.queued = w ∨ w.sequence < x.queued.sequence

/-- The calls of the continuation; an exact lease takes no background item. -/
def Permitted (c : ScanCoordinator) : Call → Prop
  | .schedule _ _ | .focus _ | .finish _ _ | .requeue _ | .leaseNext | .leaseNextScan => True
  | .leaseExact key => ∀ x : PendingWork, c.pending[key]? = some x → x.priority ≠ .Background
  | _ => False

instance (c : ScanCoordinator) (w : QueuedWork) : Decidable (c.OldestBackground w) :=
  decidable_of_iff (c.pending[w.key]? = some ⟨.Background, w⟩ ∧ w.key.kind.isScanWork = true ∧
      ∀ e ∈ c.pending.toList, e.2.priority = .Background →
        e.2.queued = w ∨ w.sequence < e.2.queued.sequence)
    ⟨fun h => ⟨h.1, h.2.1, fun k x hx => h.2.2 (k, x) ((Maps.mem_toList _ _ _).mpr hx)⟩,
      fun h => ⟨h.pending, h.scanWork, fun e he => h.oldest e.1 e.2 ((Maps.mem_toList _ _ _).mp he)⟩⟩

instance (c : ScanCoordinator) : (call : Call) → Decidable (c.Permitted call)
  | .schedule _ _ | .focus _ | .finish _ _ | .requeue _ | .leaseNext | .leaseNextScan => isTrue trivial
  | .leaseExact key => decidable_of_iff (∀ x ∈ c.pending[key]?, x.priority ≠ .Background) Iff.rfl
  | .cancelAll | .failAll | .invalidateAll | .cancelScanWork | .failScanWork | .invalidateScanWork
  | .invalidatePrefix _ _ | .advanceTo _ | .advanceGeneration => isFalse id

/-- A grant by `lease_next` or `lease_next_scan`, outside the safety lane, of another item. -/
def bypasses (w : QueuedWork) : Call × Answer → Bool
  | (.leaseNext, .leased (some l)) | (.leaseNextScan, .leased (some l)) =>
    l.priority ≠ .Safety && l.key ≠ w.key
  | _ => false

theorem OldestBackground.le (h : OldestBackground c w) (hf : Filed c) {w' : QueuedWork}
    (hw' : w' ∈ c.queues.queue .Background) : w ≤ w' := by
  rcases h.oldest _ _ ((hf.ready _ _).mp hw') rfl with heq | hlt
  · exact le_of_eq heq.symm
  · refine le_of_lt (show toLex (w.sequence, w.key) < toLex (w'.sequence, w'.key) from ?_)
    exact Prod.Lex.toLex_lt_toLex.mpr (Or.inl hlt)

theorem OldestBackground.find (h : OldestBackground c w) (hf : Filed c) {test : QueuedWork → Bool}
    (htest : test w = true) :
    (c.queues.byPriority[WorkPriority.Background]?.bind fun queue => queue.toList.find? test)
      = some w := by
  have hmem := (hf.ready .Background w).mpr h.pending
  have hleast := fun w' (hw' : w' ∈ c.queues.queue .Background) => h.le hf hw'
  unfold ReadyQueues.queue at hmem hleast
  cases hqueue : c.queues.byPriority[WorkPriority.Background]? with
  | none =>
    rw [hqueue] at hmem
    exact absurd hmem Std.TreeSet.not_mem_emptyc
  | some queue =>
    rw [hqueue] at hmem hleast
    exact ReadyQueues.find_first hmem htest hleast

/-- It is the background item both selections prefer. -/
theorem OldestBackground.firstEligible (h : OldestBackground c w) (hf : Filed c) (executing : Bool) :
    c.queues.firstEligible .Background executing = some w := by
  refine h.find hf ?_
  have hkind : w.key.kind ≠ .ExecuteDeletion := by
    intro hkind
    have hscan := h.scanWork
    rw [hkind] at hscan
    cases hscan
  simp [ReadyQueues.eligible, hkind]

theorem OldestBackground.firstScanEligible (h : OldestBackground c w) (hf : Filed c) :
    c.queues.firstScanEligible .Background = some w := h.find hf h.scanWork

/-- What is selected in its place is a safety item, or the burst is not over and the counter will
go up. -/
def PassesBy (c : ScanCoordinator) (w' : QueuedWork) (focused : Bool) : Prop :=
  ∃ p, c.pending[w'.key]? = some ⟨p, w'⟩ ∧ (p = .Safety ∨
    (c.nonBackgroundLeases < foregroundLeaseBurst ∧ ¬(p = .Background ∧ focused = false)))

theorem passesBy_nextQueued (h : OldestBackground c w) (hf : Filed c) {w' : QueuedWork}
    {focused : Bool} (hw' : c.nextQueued = some (w', focused)) (hother : w' ≠ w) :
    c.PassesBy w' focused := by
  have hfirst := h.firstEligible hf c.activeDeletionExecution.isSome
  have hpending {p : WorkPriority}
      (hp : c.queues.firstEligible p c.activeDeletionExecution.isSome = some w') :
      c.pending[w'.key]? = some ⟨p, w'⟩ := (hf.ready _ _).mp (ReadyQueues.mem_of_firstEligible hp).1
  simp only [nextQueued, Option.or_eq_some_iff] at hw'
  rcases hw' with hw' | ⟨-, hw' | ⟨hburst, hw'⟩⟩
  · exact ⟨.Safety, hpending (eq_some_of_map_flag hw'), Or.inl rfl⟩
  · -- the burst is over: it would be the item itself
    split at hw'
    · rw [hfirst] at hw'
      cases hw'
      exact absurd rfl hother
    · cases hw'
  · have hcount : c.nonBackgroundLeases < foregroundLeaseBurst := by
      by_contra hover
      rw [if_pos (not_lt.mp hover), hfirst] at hburst
      cases hburst
    rcases hw' with hw' | ⟨-, hw' | ⟨-, hw'⟩⟩
    · exact ⟨.Foreground, hpending (eq_some_of_map_flag hw'), Or.inr ⟨hcount, by simp⟩⟩
    · obtain ⟨w'', hw'', heq⟩ := Option.map_eq_some_iff.mp hw'
      cases heq
      obtain ⟨⟨p, hp⟩, -⟩ := selectable_nextFocusedQueued hf hw''
      exact ⟨p, hp, Or.inr ⟨hcount, by simp⟩⟩
    · simp only [List.findSome?_cons, hfirst, Option.map_some] at hw'
      split at hw'
      · rename_i hreducer
        cases hw'
        exact ⟨.Reducer, hpending (eq_some_of_map_flag hreducer), Or.inr ⟨hcount, by simp⟩⟩
      · cases hw'
        exact absurd rfl hother

theorem passesBy_nextScanQueued (h : OldestBackground c w) (hf : Filed c) {w' : QueuedWork}
    {focused : Bool} (hw' : c.nextScanQueued = some (w', focused)) (hother : w' ≠ w) :
    c.PassesBy w' focused := by
  have hfirst := h.firstScanEligible hf
  have hpending {p : WorkPriority} (hp : c.queues.firstScanEligible p = some w') :
      c.pending[w'.key]? = some ⟨p, w'⟩ := (hf.ready _ _).mp (ReadyQueues.mem_of_firstScanEligible hp).1
  simp only [nextScanQueued, Option.or_eq_some_iff] at hw'
  rcases hw' with hw' | ⟨hburst, hw'⟩
  · split at hw'
    · rw [hfirst] at hw'
      cases hw'
      exact absurd rfl hother
    · cases hw'
  · have hcount : c.nonBackgroundLeases < foregroundLeaseBurst := by
      by_contra hover
      rw [if_pos (not_lt.mp hover), hfirst] at hburst
      cases hburst
    rcases hw' with hw' | ⟨-, hw' | ⟨-, hw'⟩⟩
    · exact ⟨.Foreground, hpending (eq_some_of_map_flag hw'), Or.inr ⟨hcount, by simp⟩⟩
    · obtain ⟨path, -, hw'⟩ := List.exists_of_findSome?_eq_some hw'
      obtain ⟨p, -, hw'⟩ := List.exists_of_findSome?_eq_some hw'
      obtain ⟨w'', hw'', heq⟩ := Option.map_eq_some_iff.mp hw'
      cases heq
      obtain ⟨⟨p', hp'⟩, -⟩ := selectable_firstScanUnder hf hw''
      exact ⟨p', hp', Or.inr ⟨hcount, by simp⟩⟩
    · simp only [List.findSome?_cons, hfirst, Option.map_some] at hw'
      split at hw'
      · rename_i hreducer
        cases hw'
        exact ⟨.Reducer, hpending (eq_some_of_map_flag hreducer), Or.inr ⟨hcount, by simp⟩⟩
      · cases hw'
        exact absurd rfl hother

/-! ## The counter along a continuation -/

theorem bypasses_lease {call : Call} (hcall : call = .leaseNext ∨ call = .leaseNextScan)
    (lease : Option WorkLease) :
    bypasses w (call, .leased lease) =
      match lease with
      | some l => l.priority ≠ .Safety && l.key ≠ w.key
      | none => false := by
  rcases hcall with rfl | rfl <;> cases lease <;> rfl

/-- A grant that passes the item by comes before the burst is over and counts; any other leaves the
counter no smaller, unless it takes the item. -/
theorem leaseQueued_count (hp : c.pending[w.key]? = some ⟨.Background, w⟩) {w' : QueuedWork}
    {focused : Bool} (hpass : w' ≠ w → c.PassesBy w' focused) {call : Call}
    (hcall : call = .leaseNext ∨ call = .leaseNextScan) {n : Nat} (hn : n ≤ foregroundLeaseBurst)
    (hcount : n ≤ c.nonBackgroundLeases) :
    let more := if bypasses w (call, .leased (c.leaseQueued w' focused).2) then 1 else 0
    n + more ≤ foregroundLeaseBurst ∧
      ((c.leaseQueued w' focused).1.pending[w.key]? = some ⟨.Background, w⟩ →
        n + more ≤ (c.leaseQueued w' focused).1.nonBackgroundLeases) := by
  dsimp only
  rw [bypasses_lease hcall]
  by_cases hother : w' = w
  · -- the item itself is granted
    subst hother
    simp only [leaseQueued, hp]
    refine ⟨by simpa using hn, ?_⟩
    intro hstill
    simp [dropPending] at hstill
  · obtain ⟨p, hp', hcase⟩ := hpass hother
    have hkey : w'.key ≠ w.key := by
      intro heq
      rw [heq, hp] at hp'
      cases hp'
      exact hother rfl
    simp only [leaseQueued, hp']
    rcases hcase with rfl | ⟨hburst, hcounts⟩
    · refine ⟨by simpa using hn, fun _ => ?_⟩
      simpa using hcount
    · have hnext : satAdd 8 c.nonBackgroundLeases 1 = c.nonBackgroundLeases + 1 :=
        satAdd_of_le (lt_of_lt_of_le hburst (by decide))
      have hreset : ¬((decide (p = WorkPriority.Background) && !focused) = true) := by
        simpa using hcounts
      rw [if_neg hreset]
      by_cases hsafety : p = .Safety
      · subst hsafety
        refine ⟨by simpa using hn, fun _ => ?_⟩
        simpa using hcount
      · rw [if_pos hsafety, hnext]
        have hmore : (decide (p ≠ WorkPriority.Safety) && decide (w'.key ≠ w.key)) = true := by
          simp [hsafety, hkey]
        rw [if_pos hmore]
        exact ⟨by omega, fun _ => by omega⟩

theorem schedule_nonBackgroundLeases (c : ScanCoordinator) (key : WorkKey) (priority : WorkPriority) :
    (c.schedule key priority).1.nonBackgroundLeases = c.nonBackgroundLeases := by
  unfold schedule
  split_ifs <;> try rfl
  dsimp only
  split
  · split_ifs <;> rfl
  · rfl

/-- An exact lease of an item that is not background work never lowers the counter. -/
theorem le_leaseExact {key : WorkKey} (hf : Filed c) (hpermitted : c.Permitted (.leaseExact key))
    {n : Nat} (hn : n ≤ foregroundLeaseBurst) (hcount : n ≤ c.nonBackgroundLeases) :
    n ≤ (c.leaseExact key).1.nonBackgroundLeases := by
  unfold leaseExact
  cases hx : c.pending[key]? with
  | none => exact hcount
  | some x =>
    dsimp only
    split_ifs
    · exact hcount
    · have hkey := hf.pending_key key x hx
      have hbackground := hpermitted x hx
      have hburst : foregroundLeaseBurst ≤ satMax 8 := by decide
      simp only [leaseQueued, hkey, hx]
      split_ifs with hreset
      · simp [hbackground] at hreset
      · unfold satAdd
        omega
      · exact hcount

theorem bypass_answer (h : Consistent c) (hw : c.OldestBackground w) {call : Call}
    (hpermitted : c.Permitted call) {n : Nat} (hn : n ≤ foregroundLeaseBurst)
    (hcount : n ≤ c.nonBackgroundLeases) :
    let more := if bypasses w (call, (c.answer call).2) then 1 else 0
    n + more ≤ foregroundLeaseBurst ∧
      ((c.answer call).1.pending[w.key]? = some ⟨.Background, w⟩ →
        n + more ≤ (c.answer call).1.nonBackgroundLeases) := by
  have hquiet (hnone : bypasses w (call, (c.answer call).2) = false)
      (hle : n ≤ (c.answer call).1.nonBackgroundLeases) :
      let more := if bypasses w (call, (c.answer call).2) then 1 else 0
      n + more ≤ foregroundLeaseBurst ∧
        ((c.answer call).1.pending[w.key]? = some ⟨.Background, w⟩ →
          n + more ≤ (c.answer call).1.nonBackgroundLeases) := by
    rw [hnone]
    exact ⟨hn, fun _ => hle⟩
  cases call with
  | schedule key priority =>
    exact hquiet rfl (le_of_le_of_eq hcount (schedule_nonBackgroundLeases c key priority).symm)
  | focus path => exact hquiet rfl hcount
  | finish lease completion =>
    refine hquiet rfl (le_of_le_of_eq hcount (Eq.symm ?_))
    show (c.finish lease completion).1.nonBackgroundLeases = _
    unfold finish
    split_ifs
    · exact ((sameSettings_removeActive c lease.id).trans
        (sameSettings_recordTerminal _ _ _)).nonBackgroundLeases
    · rfl
  | requeue lease =>
    refine hquiet rfl (le_of_le_of_eq hcount (Eq.symm ?_))
    show (c.requeue lease).1.nonBackgroundLeases = _
    unfold requeue
    split_ifs
    · exact (sameSettings_removeActive c lease.id).nonBackgroundLeases
    · rfl
  | leaseNext =>
    show let more := if bypasses w (Call.leaseNext, .leased c.leaseNext.2) then 1 else 0
      n + more ≤ foregroundLeaseBurst ∧ (c.leaseNext.1.pending[w.key]? = _ →
        n + more ≤ c.leaseNext.1.nonBackgroundLeases)
    unfold leaseNext
    split
    · exact ⟨hn, fun _ => hcount⟩
    · rename_i w' focused hnext
      exact leaseQueued_count hw.pending (passesBy_nextQueued hw h.filed hnext) (Or.inl rfl) hn hcount
  | leaseNextScan =>
    show let more := if bypasses w (Call.leaseNextScan, .leased c.leaseNextScan.2) then 1 else 0
      n + more ≤ foregroundLeaseBurst ∧ (c.leaseNextScan.1.pending[w.key]? = _ →
        n + more ≤ c.leaseNextScan.1.nonBackgroundLeases)
    unfold leaseNextScan
    split
    · exact ⟨hn, fun _ => hcount⟩
    · rename_i w' focused hnext
      exact leaseQueued_count hw.pending (passesBy_nextScanQueued hw h.filed hnext) (Or.inr rfl) hn
        hcount
  | leaseExact key => exact hquiet rfl (le_leaseExact h.filed hpermitted hn hcount)
  | _ => exact hpermitted.elim

/-- The calls of a continuation, each made while `w` waits. -/
def Waiting (w : QueuedWork) (c : ScanCoordinator) (call : Call) : Prop :=
  c.Permitted call ∧ c.OldestBackground w

instance (w : QueuedWork) (c : ScanCoordinator) (call : Call) : Decidable (Waiting w c call) :=
  inferInstanceAs (Decidable (_ ∧ _))

theorem bypass_run {calls : List Call} (h : Consistent c)
    (hgrants : c.nextLease + grants (machine.trace c calls) < 2 ^ 64)
    (hwaiting : machine.Along (Waiting w) c calls) {n : Nat} (hn : n ≤ foregroundLeaseBurst)
    (hcount : c.pending[w.key]? = some ⟨.Background, w⟩ → n ≤ c.nonBackgroundLeases) :
    n + (machine.trace c calls).countP (bypasses w) ≤ foregroundLeaseBurst := by
  induction calls generalizing c n with
  | nil => exact hn
  | cons call calls ih =>
    obtain ⟨⟨hpermitted, hw⟩, hrest⟩ := hwaiting
    have htrace : machine.trace c (call :: calls) =
        (call, (c.answer call).2) :: machine.trace (c.answer call).1 calls := rfl
    rw [htrace] at hgrants ⊢
    rw [grants, List.countP_cons, ← grants] at hgrants
    obtain ⟨hstep, hkept⟩ := bypass_answer h hw hpermitted hn (hcount hw.pending)
    have hroom : (c.answer call).2.granted.isSome → c.nextLease < satMax 64 := by
      intro hg
      rw [if_pos hg] at hgrants
      rw [satMax]
      omega
    have hnext := nextLease_answer c call
    have htail := ih (consistent_answer h call hroom) (by
      rw [hnext]
      split
      · rename_i hg
        rw [if_pos hg] at hgrants
        rw [satAdd_of_le (hroom hg)]
        omega
      · omega) hrest hstep hkept
    rw [List.countP_cons]
    omega

/-- From any reachable state in which a background scan item waits as the oldest, at most four
grants of `lease_next` and `lease_next_scan` outside the safety lane go to other items as long as
it waits: the next one is its own. -/
theorem background_bypass_bounded (session : ScanSessionId) (generation : ScanGeneration)
    (before calls : List Call) (w : QueuedWork)
    (hgrants : grants (machine.trace (new session generation) (before ++ calls)) < 2 ^ 64)
    (hwaiting : machine.Along (Waiting w) (machine.run (new session generation) before) calls) :
    (machine.trace (machine.run (new session generation) before) calls).countP (bypasses w)
      ≤ foregroundLeaseBurst := by
  rw [machine.trace_append, grants, List.countP_append, ← grants, ← grants] at hgrants
  obtain ⟨h, hnext, -⟩ := @run_rule (fun _ _ => True) session generation trivial
    (fun _ _ _ _ _ _ => trivial) before (by omega)
  have hrun := bypass_run (n := 0) h (by rw [hnext]; exact hgrants) hwaiting (Nat.zero_le _)
    fun _ => Nat.zero_le _
  rwa [Nat.zero_add] at hrun

/-- Six foreground items arrive while `b` waits; the fifth lease is its own. -/
def burstCalls : List Call :=
  [.schedule (childKey .RefreshSubtree ⟨[99], by decide⟩) .Foreground,
    .schedule (childKey .RefreshSubtree ⟨[100], by decide⟩) .Foreground, .leaseNext,
    .schedule (childKey .RefreshSubtree ⟨[101], by decide⟩) .Foreground, .leaseNextScan,
    .schedule (childKey .RefreshSubtree ⟨[102], by decide⟩) .Foreground,
    .schedule (childKey .RefreshSubtree ⟨[103], by decide⟩) .Foreground, .leaseNext, .leaseNextScan,
    .schedule (childKey .RefreshSubtree ⟨[104], by decide⟩) .Foreground, .leaseNext]

theorem background_bypass_bounded_burst :
    (machine.trace (machine.run (new ⟨7⟩ ⟨0⟩)
      [.schedule (childKey .EnumerateDirectory ⟨[98], by decide⟩) .Background]) burstCalls).countP
        (bypasses ⟨0, childKey .EnumerateDirectory ⟨[98], by decide⟩⟩) ≤ foregroundLeaseBurst :=
  background_bypass_bounded ⟨7⟩ ⟨0⟩ [.schedule (childKey .EnumerateDirectory ⟨[98], by decide⟩) .Background]
    burstCalls ⟨0, childKey .EnumerateDirectory ⟨[98], by decide⟩⟩ (by decide +kernel) (by decide +kernel)

end ScanCoordinator

end Excise
