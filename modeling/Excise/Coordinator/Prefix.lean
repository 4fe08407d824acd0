import Excise.Coordinator.Conservation

/-!
# Invalidating a subtree

The range scans of the per-path index stop at the first path outside the prefix. Since a subtree
is an interval of the path order they miss nothing, so each of them reads `itemsUnder`, and an
invalidation removes and counts what stands under the prefix and nothing else.
-/

namespace Excise
set_option autoImplicit false

/-- Once the property is lost it stays lost: taking while it holds is filtering. -/
theorem takeWhile_eq_filter_of_pairwise {α : Type} {p : α → Bool} {l : List α}
    (h : l.Pairwise fun a b => p b = true → p a = true) : l.takeWhile p = l.filter p := by
  induction l with
  | nil => rfl
  | cons a l ih =>
    obtain ⟨ha, hl⟩ := List.pairwise_cons.mp h
    by_cases hp : p a = true
    · rw [List.takeWhile_cons_of_pos hp, List.filter_cons_of_pos hp, ih hl]
    · have hnone : l.filter p = [] := by
        rw [List.filter_eq_nil_iff]
        exact fun b hb hpb => hp (ha b hb hpb)
      rw [List.takeWhile_cons_of_neg hp, List.filter_cons_of_neg hp, hnone]

namespace ReadyQueues

variable {q : ReadyQueues} {p : WorkPriority} {pre : RelativePath}

/-- The descendants of a path are contiguous from it on. -/
theorem pathsUnder_eq_filter (paths : PathIndex) (pre : RelativePath) :
    pathsUnder paths pre = paths.toList.filter fun e => e.1.startsWith pre := by
  have hordered : (paths.toList.filter fun e => decide (pre ≤ e.1)).Pairwise fun a b =>
      b.1.startsWith pre = true → a.1.startsWith pre = true := by
    rw [List.pairwise_filter]
    have hkeys := paths.ordered_keys_toList
    refine hkeys.imp ?_
    intro a b hab ha _ hunder
    rw [decide_eq_true_eq] at ha
    by_contra hout
    have hne : pre ≠ a.1 := fun heq => hout (heq ▸ a.1.startsWith_refl)
    have hlt := RelativePath.lt_of_startsWith_of_not (lt_of_le_of_ne ha hne)
      (Bool.not_eq_true _ ▸ hout) hunder
    exact lt_asymm hlt (compare_lt_iff_lt.mp hab)
  unfold pathsUnder
  rw [takeWhile_eq_filter_of_pairwise hordered, List.filter_filter]
  apply List.filter_congr
  intro e _
  cases hunder : e.1.startsWith pre with
  | false => rfl
  | true => simpa using RelativePath.le_of_startsWith hunder

/-- The items of one priority at or below a path, in the order of the per-path index. -/
def itemsUnder (q : ReadyQueues) (p : WorkPriority) (pre : RelativePath) : List QueuedWork :=
  ((q.byPath[p]?.getD ∅).toList.filter fun e => e.1.startsWith pre).flatMap fun e => e.2.toList

theorem find_under (test : QueuedWork → Bool) :
    (q.byPath[p]?.bind fun paths =>
      (pathsUnder paths pre).findSome? fun e => e.2.toList.find? test) =
      (q.itemsUnder p pre).find? test := by
  unfold itemsUnder
  rw [List.find?_flatMap]
  cases hpaths : q.byPath[p]? with
  | none =>
    have hempty : (∅ : PathIndex).toList = [] := rfl
    rw [Option.bind_none, Option.getD_none, hempty]
    rfl
  | some paths =>
    rw [Option.bind_some, Option.getD_some, pathsUnder_eq_filter]

theorem firstUnder_eq (executing : Bool) :
    q.firstUnder p pre executing = (q.itemsUnder p pre).find? (eligible executing) :=
  find_under _

theorem firstScanUnder_eq :
    q.firstScanUnder p pre = (q.itemsUnder p pre).find? fun w => w.key.kind.isScanWork :=
  find_under _

theorem pendingUnder_eq (generation : ScanGeneration) :
    q.pendingUnder generation pre = WorkPriority.all.flatMap fun p =>
      ((q.itemsUnder p pre).filter fun w => w.key.generation = generation).map (Prod.mk p) := by
  unfold pendingUnder itemsUnder
  congr 1
  funext p
  cases hpaths : q.byPath[p]? with
  | none => simp
  | some paths =>
    dsimp only [Option.getD_some]
    rw [pathsUnder_eq_filter, List.filter_flatMap, List.map_flatMap]

/-- Both ready indexes hold the same items, those of the path index under their own paths. -/
structure Aligned (q : ReadyQueues) : Prop where
  filed : ∀ p path w, w ∈ q.bucket p path ↔ path = w.key.path ∧ w ∈ q.queue p

theorem mem_itemsUnder (h : q.Aligned) {w : QueuedWork} :
    w ∈ q.itemsUnder p pre ↔ w ∈ q.queue p ∧ w.key.path.startsWith pre = true := by
  unfold itemsUnder
  rw [List.mem_flatMap]
  constructor
  · rintro ⟨⟨path, entries⟩, he, hw⟩
    obtain ⟨he, hunder⟩ := List.mem_filter.mp he
    have hbucket : w ∈ q.bucket p path := by
      rw [bucket, (Maps.mem_toList _ _ _).mp he]
      exact (Maps.mem_set_toList _ _).mp hw
    obtain ⟨rfl, hqueue⟩ := (h.filed p path w).mp hbucket
    exact ⟨hqueue, hunder⟩
  · rintro ⟨hqueue, hunder⟩
    have hbucket := (h.filed p w.key.path w).mpr ⟨rfl, hqueue⟩
    unfold bucket at hbucket
    cases hentries : (q.byPath[p]?.getD ∅)[w.key.path]? with
    | none =>
      rw [hentries, Option.getD_none] at hbucket
      exact absurd hbucket Std.TreeSet.not_mem_emptyc
    | some entries =>
      rw [hentries, Option.getD_some] at hbucket
      exact ⟨(w.key.path, entries),
        List.mem_filter.mpr ⟨(Maps.mem_toList _ _ _).mpr hentries, hunder⟩,
        (Maps.mem_set_toList _ _).mpr hbucket⟩

/-- By path, and by sequence where the paths agree. -/
def Before (a b : QueuedWork) : Prop := a.key.path < b.key.path ∨ (a.key.path = b.key.path ∧ a < b)

theorem Before.irrefl (a : QueuedWork) : ¬Before a a := by
  rintro (h | ⟨-, h⟩)
  · exact lt_irrefl _ h
  · exact lt_irrefl _ h

theorem set_toList_ordered (s : WorkSet) : s.toList.Pairwise fun a b => a < b :=
  s.ordered_toList.imp compare_lt_iff_lt.mp

theorem itemsUnder_ordered (h : q.Aligned) : (q.itemsUnder p pre).Pairwise Before := by
  have hfiled : ∀ e ∈ (q.byPath[p]?.getD ∅).toList, ∀ w ∈ e.2.toList, w.key.path = e.1 := by
    intro e he w hw
    have hbucket : w ∈ q.bucket p e.1 := by
      rw [bucket, (Maps.mem_toList _ _ _).mp he]
      exact (Maps.mem_set_toList _ _).mp hw
    exact ((h.filed p e.1 w).mp hbucket).1.symm
  unfold itemsUnder
  rw [List.pairwise_flatMap]
  constructor
  · intro e he
    have he := List.mem_of_mem_filter he
    refine List.Pairwise.imp_of_mem ?_ (set_toList_ordered e.2)
    intro a b ha hb hab
    exact Or.inr ⟨(hfiled e he a ha).trans (hfiled e he b hb).symm, hab⟩
  · rw [List.pairwise_filter]
    have hkeys := (q.byPath[p]?.getD ∅).ordered_keys_toList
    refine List.Pairwise.imp_of_mem ?_ hkeys
    intro e e' he he' hlt _ _ a ha b hb
    refine Or.inl ?_
    rw [hfiled e he a ha, hfiled e' he' b hb]
    exact compare_lt_iff_lt.mp hlt

/-- The answer is the first item with the property, or there is none. -/
def FirstOf (P : QueuedWork → Prop) : Option QueuedWork → Prop
  | none => ∀ w, ¬P w
  | some w => P w ∧ ∀ w', P w' → w' = w ∨ Before w w'

theorem find_itemsUnder (h : q.Aligned) (test : QueuedWork → Bool) :
    FirstOf (fun w => w ∈ q.queue p ∧ w.key.path.startsWith pre = true ∧ test w = true)
      ((q.itemsUnder p pre).find? test) := by
  have hmem {w : QueuedWork} (hw : w ∈ q.queue p) (hunder : w.key.path.startsWith pre = true) :
      w ∈ q.itemsUnder p pre := (mem_itemsUnder h).mpr ⟨hw, hunder⟩
  cases hfind : (q.itemsUnder p pre).find? test with
  | none =>
    rintro w ⟨hw, hunder, htest⟩
    exact List.find?_eq_none.mp hfind w (hmem hw hunder) htest
  | some w =>
    obtain ⟨htest, front, back, hsplit, hfront⟩ := List.find?_eq_some_iff_append.mp hfind
    obtain ⟨hw, hunder⟩ := (mem_itemsUnder h).mp (List.mem_of_find?_eq_some hfind)
    refine ⟨⟨hw, hunder, htest⟩, ?_⟩
    rintro w' ⟨hw', hunder', htest'⟩
    have hordered := @itemsUnder_ordered q p pre h
    have hmem' := hmem hw' hunder'
    rw [hsplit] at hordered hmem'
    rcases List.mem_append.mp hmem' with hin | hin
    · -- what stands in front of the answer fails the test
      have hfailed := hfront w' hin
      rw [htest'] at hfailed
      cases hfailed
    · rcases List.mem_cons.mp hin with rfl | hin
      · exact Or.inl rfl
      · exact Or.inr ((List.pairwise_cons.mp (List.pairwise_append.mp hordered).2.1).1 w' hin)

theorem mem_pendingUnder (h : q.Aligned) {generation : ScanGeneration} {w : QueuedWork} :
    (p, w) ∈ q.pendingUnder generation pre ↔
      w ∈ q.queue p ∧ w.key.path.startsWith pre = true ∧ w.key.generation = generation := by
  rw [pendingUnder_eq, List.mem_flatMap]
  constructor
  · rintro ⟨p', -, hw⟩
    obtain ⟨w', hw', heq⟩ := List.mem_map.mp hw
    cases heq
    obtain ⟨hw', hgeneration⟩ := List.mem_filter.mp hw'
    obtain ⟨hqueue, hunder⟩ := (mem_itemsUnder h).mp hw'
    exact ⟨hqueue, hunder, of_decide_eq_true hgeneration⟩
  · rintro ⟨hqueue, hunder, hgeneration⟩
    refine ⟨p, by cases p <;> decide, List.mem_map_of_mem (List.mem_filter.mpr ⟨?_, ?_⟩)⟩
    · exact (mem_itemsUnder h).mpr ⟨hqueue, hunder⟩
    · exact decide_eq_true hgeneration

theorem nodup_pendingUnder (h : q.Aligned) (generation : ScanGeneration) :
    (q.pendingUnder generation pre).Nodup := by
  rw [pendingUnder_eq, List.nodup_flatMap]
  constructor
  · intro p _
    have hnodup : (q.itemsUnder p pre).Nodup := by
      refine (itemsUnder_ordered h).imp ?_
      rintro a _ hab rfl
      exact Before.irrefl a hab
    exact (hnodup.sublist List.filter_sublist).map fun _ _ heq => (Prod.mk.inj heq).2
  · refine List.Pairwise.imp ?_ (show WorkPriority.all.Pairwise (· ≠ ·) by decide)
    intro p p' hne e he he'
    obtain ⟨_, -, rfl⟩ := List.mem_map.mp he
    obtain ⟨_, -, heq⟩ := List.mem_map.mp he'
    exact hne (Prod.mk.inj heq).1.symm

end ReadyQueues

namespace ScanCoordinator

variable {c : ScanCoordinator}

theorem Consistent.aligned (h : Consistent c) : c.queues.Aligned := by
  constructor
  intro p path w
  rw [h.indexed, h.ready]

/-- The pending items the scan returns are those under the prefix. -/
theorem mem_pendingUnder_keys (h : Consistent c) {generation : ScanGeneration} {pre : RelativePath}
    (k : WorkKey) :
    k ∈ (c.queues.pendingUnder generation pre).map (fun e => e.2.key) ↔
      k ∈ c.pending ∧ underPrefix generation pre k = true := by
  rw [List.mem_map, Maps.mem_iff]
  unfold underPrefix
  rw [Bool.and_eq_true, decide_eq_true_eq]
  constructor
  · rintro ⟨⟨p, w⟩, he, rfl⟩
    obtain ⟨hw, hunder, hgeneration⟩ := (ReadyQueues.mem_pendingUnder h.aligned).mp he
    exact ⟨⟨_, (h.ready p w).mp hw⟩, hgeneration, hunder⟩
  · rintro ⟨⟨x, hx⟩, hgeneration, hunder⟩
    have hkey := h.pending_key k x hx
    subst hkey
    exact ⟨(x.priority, x.queued), (ReadyQueues.mem_pendingUnder h.aligned).mpr
      ⟨(h.ready _ _).mpr hx, hunder, hgeneration⟩, rfl⟩

theorem nodup_pendingUnder_keys (h : Consistent c) (generation : ScanGeneration)
    (pre : RelativePath) :
    ((c.queues.pendingUnder generation pre).map fun e => e.2.key).Nodup := by
  refine (ReadyQueues.nodup_pendingUnder h.aligned generation).map_on ?_
  rintro ⟨p, w⟩ he ⟨p', w'⟩ he' hkey
  have hw := (h.ready p w).mp ((ReadyQueues.mem_pendingUnder h.aligned).mp he).1
  have hw' := (h.ready p' w').mp ((ReadyQueues.mem_pendingUnder h.aligned).mp he').1
  dsimp only at hkey
  rw [hkey, hw', Option.some.injEq] at hw
  cases hw
  rfl

/-- How many pending items and active leases an invalidation is meant for. -/
def pendingUnderPrefix (c : ScanCoordinator) (generation : ScanGeneration) (pre : RelativePath) : Nat :=
  c.pending.toList.countP fun e => underPrefix generation pre e.1

def activeUnderPrefix (c : ScanCoordinator) (generation : ScanGeneration) (pre : RelativePath) : Nat :=
  c.active.toList.countP fun e => underPrefix generation pre e.2.key

theorem length_pendingUnder (h : Consistent c) (generation : ScanGeneration) (pre : RelativePath) :
    (c.queues.pendingUnder generation pre).length = c.pendingUnderPrefix generation pre := by
  have hperm : ((c.queues.pendingUnder generation pre).map fun e => e.2.key).Perm
      ((c.pending.toList.filter fun e => underPrefix generation pre e.1).map Prod.fst) := by
    refine (List.perm_ext_iff_of_nodup (nodup_pendingUnder_keys h generation pre) ?_).mpr ?_
    · exact (Maps.nodup_keys c.pending).sublist (List.filter_sublist.map Prod.fst)
    · intro k
      rw [mem_pendingUnder_keys h, Maps.mem_iff, List.mem_map]
      constructor
      · rintro ⟨⟨x, hx⟩, hunder⟩
        exact ⟨(k, x), (mem_pendingMatching c _).mpr ⟨hx, hunder⟩, rfl⟩
      · rintro ⟨⟨k', x⟩, he, rfl⟩
        obtain ⟨hx, hunder⟩ := (mem_pendingMatching c _).mp he
        exact ⟨⟨x, hx⟩, hunder⟩
  have hlength := hperm.length_eq
  rw [List.length_map, List.length_map] at hlength
  rw [hlength, pendingUnderPrefix, List.countP_eq_length_filter]

/-- The first loop: what it leaves and how often it counts. -/
theorem invalidatePending_spec (h : Consistent c) (generation : ScanGeneration)
    (pre : RelativePath) {r : ScanCoordinator × Nat}
    (hr : (c.queues.pendingUnder generation pre).foldl invalidatePending (c, 0) = r) :
    r.1 = c.dropAll ((c.queues.pendingUnder generation pre).map fun e => (e.2.key, ⟨e.1, e.2⟩)) ∧
      r.2 = satAdd 64 0 (c.pendingUnderPrefix generation pre) := by
  subst hr
  have hdropped := foldl_invalidatePending (c := c) (c.queues.pendingUnder generation pre) 0
  refine ⟨hdropped, ?_⟩
  obtain ⟨k, hk, hcount⟩ := foldl_invalidatePending_count (c := c)
    (c.queues.pendingUnder generation pre) 0 (Nat.zero_le _)
  have hkeys : ((c.queues.pendingUnder generation pre).map
      fun e => ((e.2.key, ⟨e.1, e.2⟩) : WorkKey × PendingWork)).map Prod.fst =
      (c.queues.pendingUnder generation pre).map fun e => e.2.key := by
    rw [List.map_map]
    rfl
  have hsize := Maps.size_eraseAll (m := c.pending) (nodup_pendingUnder_keys h generation pre)
    fun k hk => ((mem_pendingUnder_keys h k).mp hk).1
  rw [hdropped, dropAll_pending, hkeys] at hk
  rw [List.length_map, length_pendingUnder h] at hsize
  rw [hcount, show k = c.pendingUnderPrefix generation pre by omega]

/-- The second loop. -/
theorem invalidateActive_spec (c : ScanCoordinator) (generation : ScanGeneration)
    (pre : RelativePath) {r : ScanCoordinator × Nat}
    (hr : (c.activeMatching (underPrefix generation pre)).foldl invalidateActive (c, 0) = r) :
    r.1 = c.removeAll (c.activeMatching (underPrefix generation pre)) ∧
      r.2 = satAdd 64 0 (c.activeUnderPrefix generation pre) := by
  subst hr
  have hremoved := foldl_invalidateActive (c := c) (c.activeMatching (underPrefix generation pre)) 0
  refine ⟨hremoved, ?_⟩
  obtain ⟨k, hk, hcount⟩ := foldl_invalidateActive_count (c := c)
    (c.activeMatching (underPrefix generation pre)) 0 (Nat.zero_le _)
  have hsize := size_removeMatching c (underPrefix generation pre)
  have hlength : (c.activeMatching (underPrefix generation pre)).length
      = c.activeUnderPrefix generation pre := by
    rw [activeMatching, List.length_map, activeUnderPrefix, List.countP_eq_length_filter]
  rw [hremoved] at hk
  rw [hcount, show k = c.activeUnderPrefix generation pre by omega]

/-- What an invalidation never touches. -/
structure SameSettings (c c' : ScanCoordinator) : Prop where
  session : c'.session = c.session
  generation : c'.generation = c.generation
  nextSequence : c'.nextSequence = c.nextSequence
  nextLease : c'.nextLease = c.nextLease
  focusPaths : c'.focusPaths = c.focusPaths
  focusEpoch : c'.focusEpoch = c.focusEpoch
  nonBackgroundLeases : c'.nonBackgroundLeases = c.nonBackgroundLeases

theorem SameSettings.refl (c : ScanCoordinator) : SameSettings c c := ⟨rfl, rfl, rfl, rfl, rfl, rfl, rfl⟩

theorem SameSettings.trans {a b d : ScanCoordinator} (hab : SameSettings a b)
    (hbd : SameSettings b d) : SameSettings a d :=
  ⟨hbd.session.trans hab.session, hbd.generation.trans hab.generation,
    hbd.nextSequence.trans hab.nextSequence, hbd.nextLease.trans hab.nextLease,
    hbd.focusPaths.trans hab.focusPaths, hbd.focusEpoch.trans hab.focusEpoch,
    hbd.nonBackgroundLeases.trans hab.nonBackgroundLeases⟩

theorem sameSettings_recordTerminal (c : ScanCoordinator) (lifecycle : WorkLifecycle) (count : Nat) :
    SameSettings c (c.recordTerminal lifecycle count) := by
  cases lifecycle <;> exact ⟨rfl, rfl, rfl, rfl, rfl, rfl, rfl⟩

theorem sameSettings_removeActive (c : ScanCoordinator) (id : LeaseId) :
    SameSettings c (c.removeActive id).1 := by
  unfold removeActive
  split
  · exact SameSettings.refl c
  · exact ⟨rfl, rfl, rfl, rfl, rfl, rfl, rfl⟩

theorem sameSettings_dropAll (c : ScanCoordinator) (entries : List (WorkKey × PendingWork)) :
    SameSettings c (c.dropAll entries) := by
  induction entries generalizing c with
  | nil => exact SameSettings.refl c
  | cons e es ih =>
    have hone : SameSettings c (c.dropPending e.2.priority e.2.queued e.1) :=
      ⟨rfl, rfl, rfl, rfl, rfl, rfl, rfl⟩
    exact hone.trans (ih _)

theorem sameSettings_removeAll (c : ScanCoordinator) (ids : List LeaseId) :
    SameSettings c (c.removeAll ids) := by
  induction ids generalizing c with
  | nil => exact SameSettings.refl c
  | cons a as ih => exact (sameSettings_removeActive c a).trans (ih _)

/-- `c'` is `c` without the pending items and the active leases under the prefix; the two counters
of the answer, which saturate like the terminal count, are their numbers. -/
structure PrefixInvalidated (c c' : ScanCoordinator) (generation : ScanGeneration)
    (pre : RelativePath) (count : Invalidation) : Prop where
  pending : ∀ k : WorkKey,
    c'.pending[k]? = if underPrefix generation pre k then none else c.pending[k]?
  active : ∀ id : LeaseId,
    c'.active[id]? = c.active[id]?.filter fun l => !underPrefix generation pre l.key
  activeByKey : ∀ k : WorkKey,
    c'.activeByKey[k]? = if underPrefix generation pre k then none else c.activeByKey[k]?
  queueOrder : ∀ p, (c'.queues.queue p).toList =
    (c.queues.queue p).toList.filter fun w => !underPrefix generation pre w.key
  pathOrder : ∀ p path, (c'.queues.bucket p path).toList =
    (c.queues.bucket p path).toList.filter fun w => !underPrefix generation pre w.key
  counted : count = ⟨satAdd 64 0 (c.pendingUnderPrefix generation pre),
    satAdd 64 0 (c.activeUnderPrefix generation pre)⟩
  terminal : c'.terminal = { c.terminal with
    invalidated := satAdd 64 (satAdd 64 c.terminal.invalidated count.pending) count.active }
  settings : SameSettings c c'

/-- A set with some of the elements has them in the same order. -/
theorem toList_eq_filter {s s' : WorkSet} {keep : QueuedWork → Bool}
    (h : ∀ w, w ∈ s' ↔ w ∈ s ∧ keep w = true) : s'.toList = s.toList.filter keep := by
  have hs := ReadyQueues.set_toList_ordered s
  have hs' := ReadyQueues.set_toList_ordered s'
  have hfiltered := hs.filter keep
  have hnodup {l : List QueuedWork} (hl : l.Pairwise fun a b => a < b) : l.Nodup :=
    hl.imp fun hab => ne_of_lt hab
  refine List.Perm.eq_of_pairwise (fun a b _ _ hab hba => absurd hab (lt_asymm hba)) hs' hfiltered ?_
  refine (List.perm_ext_iff_of_nodup (hnodup hs') (hnodup hfiltered)).mpr fun w => ?_
  rw [Maps.mem_set_toList, List.mem_filter, Maps.mem_set_toList]
  exact h w

theorem pending_invalidatePrefix (h : Consistent c) (generation : ScanGeneration)
    (pre : RelativePath) (k : WorkKey) :
    (c.invalidatePrefix generation pre).1.pending[k]? =
      if underPrefix generation pre k then none else c.pending[k]? := by
  have hkeys : ((c.queues.pendingUnder generation pre).map
      fun e => ((e.2.key, ⟨e.1, e.2⟩) : WorkKey × PendingWork)).map Prod.fst =
      (c.queues.pendingUnder generation pre).map fun e => e.2.key := by
    rw [List.map_map]
    rfl
  simp only [invalidatePrefix, recordTerminal_pending, foldl_invalidateActive, removeAll_pending,
    foldl_invalidatePending, dropAll_pending, hkeys, Maps.getElem?_eraseAll, mem_pendingUnder_keys h]
  cases hunder : underPrefix generation pre k with
  | false => simp
  | true =>
    by_cases hmem : k ∈ c.pending
    · simp [hmem]
    · simp [hmem]

theorem recordTerminal_invalidated (c : ScanCoordinator) (count : Nat) :
    (c.recordTerminal .Invalidated count).terminal =
      { c.terminal with invalidated := satAdd 64 c.terminal.invalidated count } := rfl

theorem invalidatePrefix_spec (h : Consistent c) (generation : ScanGeneration)
    (pre : RelativePath) :
    PrefixInvalidated c (c.invalidatePrefix generation pre).1 generation pre
      (c.invalidatePrefix generation pre).2 := by
  have h' := consistent_invalidatePrefix h generation pre
  have hpending := pending_invalidatePrefix h generation pre
  have hactive : ∀ id : LeaseId, (c.invalidatePrefix generation pre).1.active[id]? =
      c.active[id]?.filter fun l => !underPrefix generation pre l.key := by
    intro id
    simp only [invalidatePrefix, recordTerminal_active, foldl_invalidateActive,
      getElem?_removeMatching, foldl_invalidatePending, dropAll_active]
  have hqueue : ∀ p w, w ∈ (c.invalidatePrefix generation pre).1.queues.queue p ↔
      w ∈ c.queues.queue p ∧ (!underPrefix generation pre w.key) = true := by
    intro p w
    rw [h'.ready, hpending, h.ready]
    cases underPrefix generation pre w.key <;> simp
  have hparts : (c.invalidatePrefix generation pre).2 =
        ⟨satAdd 64 0 (c.pendingUnderPrefix generation pre),
          satAdd 64 0 (c.activeUnderPrefix generation pre)⟩ ∧
      (c.invalidatePrefix generation pre).1.terminal = { c.terminal with
        invalidated := satAdd 64 (satAdd 64 c.terminal.invalidated
          (c.invalidatePrefix generation pre).2.pending)
          (c.invalidatePrefix generation pre).2.active } ∧
      SameSettings c (c.invalidatePrefix generation pre).1 := by
    obtain ⟨dropped, n, hdropped⟩ : ∃ dropped n,
        (c.queues.pendingUnder generation pre).foldl invalidatePending (c, 0) = (dropped, n) :=
      ⟨_, _, rfl⟩
    obtain ⟨hfirst, rfl⟩ := invalidatePending_spec h generation pre hdropped
    have hfirst : dropped = c.dropAll _ := hfirst
    obtain ⟨removed, m, hremoved⟩ : ∃ removed m,
        ((dropped.recordTerminal .Invalidated (satAdd 64 0 (c.pendingUnderPrefix generation pre))).activeMatching
          (underPrefix generation pre)).foldl invalidateActive
          (dropped.recordTerminal .Invalidated
            (satAdd 64 0 (c.pendingUnderPrefix generation pre)), 0) = (removed, m) :=
      ⟨_, _, rfl⟩
    obtain ⟨hsecond, rfl⟩ := invalidateActive_spec _ generation pre hremoved
    have hsecond : removed = removeAll _ _ := hsecond
    have hsame : (dropped.recordTerminal .Invalidated
        (satAdd 64 0 (c.pendingUnderPrefix generation pre))).activeUnderPrefix generation pre
        = c.activeUnderPrefix generation pre := by
      rw [activeUnderPrefix, recordTerminal_active, hfirst, dropAll_active]
      rfl
    rw [hsame] at hremoved
    have hresult : c.invalidatePrefix generation pre =
        (removed.recordTerminal .Invalidated (satAdd 64 0 (c.activeUnderPrefix generation pre)),
          ⟨satAdd 64 0 (c.pendingUnderPrefix generation pre),
            satAdd 64 0 (c.activeUnderPrefix generation pre)⟩) := by
      unfold invalidatePrefix
      rw [hdropped]
      dsimp only
      rw [hremoved]
    rw [hresult]
    refine ⟨rfl, ?_, ?_⟩
    · rw [recordTerminal_invalidated, hsecond, removeAll_terminal, recordTerminal_invalidated, hfirst,
        dropAll_terminal]
    · show SameSettings c (removed.recordTerminal .Invalidated _)
      refine SameSettings.trans ?_ (sameSettings_recordTerminal removed _ _)
      rw [hsecond]
      refine SameSettings.trans ?_ (sameSettings_removeAll _ _)
      refine SameSettings.trans ?_ (sameSettings_recordTerminal dropped _ _)
      rw [hfirst]
      exact sameSettings_dropAll c _
  obtain ⟨hcounted, hterminal, hsettings⟩ := hparts
  refine ⟨hpending, hactive, ?_, fun p => toList_eq_filter (hqueue p), ?_, hcounted, hterminal,
    hsettings⟩
  · intro k
    have hiff (id : LeaseId) : (c.invalidatePrefix generation pre).1.activeByKey[k]? = some id ↔
        underPrefix generation pre k = false ∧ c.activeByKey[k]? = some id := by
      constructor
      · intro hk
        obtain ⟨l, hl, rfl⟩ := h'.active_of_key k id hk
        obtain ⟨hl, hout⟩ := active_invalidatePrefix hl
        exact ⟨hout, h.key_of_active id l hl⟩
      · rintro ⟨hout, hk⟩
        obtain ⟨l, hl, rfl⟩ := h.active_of_key k id hk
        refine h'.key_of_active id l ?_
        rw [hactive, hl, Option.filter_some, hout]
        rfl
    ext id
    rw [hiff]
    cases underPrefix generation pre k <;> simp
  · intro p path
    refine toList_eq_filter fun w => ?_
    rw [h'.aligned.filed, h.aligned.filed, hqueue, and_assoc]

/-- What `underPrefix` means: the generation, and a path equal to the prefix or below it. -/
theorem underPrefix_iff {generation : ScanGeneration} {pre : RelativePath} {k : WorkKey} :
    underPrefix generation pre k = true ↔
      k.generation = generation ∧ pre.components <+: k.path.components := by
  unfold underPrefix
  rw [Bool.and_eq_true, decide_eq_true_eq, RelativePath.startsWith_iff]

/-- In every reachable state an invalidation takes what stands under its prefix and no more, and
the range scans return the first, and all, of the ready items under a prefix. -/
theorem invalidate_prefix_exact (session : ScanSessionId) (initial : ScanGeneration)
    (calls : List Call) (hgrants : grants (machine.trace (new session initial) calls) < 2 ^ 64)
    (generation : ScanGeneration) (pre : RelativePath) :
    let c := machine.run (new session initial) calls
    PrefixInvalidated c (c.invalidatePrefix generation pre).1 generation pre
      (c.invalidatePrefix generation pre).2 ∧
    (∀ p executing, ReadyQueues.FirstOf
      (fun w => w ∈ c.queues.queue p ∧ pre.components <+: w.key.path.components ∧
        (w.key.kind = .ExecuteDeletion → executing = false)) (c.queues.firstUnder p pre executing)) ∧
    (∀ p, ReadyQueues.FirstOf
      (fun w => w ∈ c.queues.queue p ∧ pre.components <+: w.key.path.components ∧
        w.key.kind.isScanWork = true) (c.queues.firstScanUnder p pre)) ∧
    (c.queues.pendingUnder generation pre).Nodup ∧
    ∀ p w, (p, w) ∈ c.queues.pendingUnder generation pre ↔
      w ∈ c.queues.queue p ∧ underPrefix generation pre w.key = true := by
  intro c
  have h : Consistent c := consistent_run hgrants
  refine ⟨invalidatePrefix_spec h generation pre, ?_, ?_,
    ReadyQueues.nodup_pendingUnder h.aligned generation, ?_⟩
  · intro p executing
    rw [ReadyQueues.firstUnder_eq]
    have hfirst := @ReadyQueues.find_itemsUnder _ p pre h.aligned
      (ReadyQueues.eligible executing)
    have heligible (w : QueuedWork) : ReadyQueues.eligible executing w = true ↔
        (w.key.kind = .ExecuteDeletion → executing = false) := by
      cases executing <;> simp [ReadyQueues.eligible]
    simpa only [heligible, RelativePath.startsWith_iff] using hfirst
  · intro p
    rw [ReadyQueues.firstScanUnder_eq]
    have hfirst := @ReadyQueues.find_itemsUnder _ p pre h.aligned
      fun w => w.key.kind.isScanWork
    simpa only [RelativePath.startsWith_iff] using hfirst
  · intro p w
    rw [ReadyQueues.mem_pendingUnder h.aligned, underPrefix_iff, RelativePath.startsWith_iff, and_comm
      (a := w.key.generation = generation)]

/-- `a`, `a/b` and `a-b`, which sorts between the two as a string, with `a/b` leased. -/
def nestedCalls : List Call :=
  [.schedule ⟨⟨7⟩, ⟨0⟩, .EnumerateDirectory, ⟨[⟨[97], valid_a⟩, ⟨[98], valid_b⟩]⟩⟩ .Foreground,
    .leaseNext,
    .schedule ⟨⟨7⟩, ⟨0⟩, .EnumerateDirectory, ⟨[⟨[97], valid_a⟩]⟩⟩ .Background,
    .schedule ⟨⟨7⟩, ⟨0⟩, .EnumerateDirectory, ⟨[⟨[97, 45, 98], by decide⟩]⟩⟩ .Background]

theorem invalidate_prefix_exact_nested :
    let c := machine.run (new ⟨7⟩ ⟨0⟩) nestedCalls
    (c.invalidatePrefix ⟨0⟩ ⟨[⟨[97], by decide⟩]⟩).2 = ⟨1, 1⟩ ∧
      PrefixInvalidated c (c.invalidatePrefix ⟨0⟩ ⟨[⟨[97], by decide⟩]⟩).1 ⟨0⟩ ⟨[⟨[97], by decide⟩]⟩
        (c.invalidatePrefix ⟨0⟩ ⟨[⟨[97], by decide⟩]⟩).2 :=
  ⟨by decide +kernel, (invalidate_prefix_exact ⟨7⟩ ⟨0⟩ nestedCalls (by decide +kernel) _ _).1⟩

end ScanCoordinator

end Excise
