import Excise.Scanner.Scheduler
import Mathlib.Algebra.BigOperators.Fin

/-!
# The journal and the coordinator agree

A task is found again under the path the coordinator leases: `taskKey` and
`RelativePath.below` are inverse. `Agrees` relates the journal, the coordinator's two key
sets and the leases the actor has handed out.
-/

namespace Excise
set_option autoImplicit false

/-! ## Task paths -/

theorem stripPrefix_append (root rest : NativePath) :
    stripPrefix root (root ++ rest) = some rest := by
  simp [stripPrefix]

theorem eq_append_of_stripPrefix {root path rest : NativePath}
    (h : stripPrefix root path = some rest) : path = root ++ rest := by
  unfold stripPrefix at h
  split at h
  · rename_i hpre
    obtain ⟨t, rfl⟩ := List.isPrefixOf_iff_prefix.mp hpre
    simp only [List.drop_left, Option.some.injEq] at h
    rw [h]
  · cases h

theorem RelativePath.fromPath_bytes (path : RelativePath) :
    fromPath (path.components.map Component.bytes) = some path := by
  obtain ⟨components⟩ := path
  induction components with
  | nil => rfl
  | cons c cs ih =>
    simp only [List.map_cons, fromPath, c.valid, dite_true]
    rw [ih]
    rfl

theorem RelativePath.bytes_of_fromPath {cs : NativePath} {path : RelativePath}
    (h : fromPath cs = some path) : path.components.map Component.bytes = cs := by
  induction cs generalizing path with
  | nil =>
    obtain rfl := Option.some.inj h
    rfl
  | cons c cs ih =>
    simp only [fromPath] at h
    split at h
    · obtain ⟨rest, hrest, rfl⟩ := Option.map_eq_some_iff.mp h
      simp [ih hrest]
    · cases h

theorem RelativePath.below_injective {root : NativePath} {p q : RelativePath}
    (h : p.below root = q.below root) : p = q := by
  have hbytes := List.append_cancel_left h
  have hp := fromPath_bytes p
  rw [hbytes, fromPath_bytes] at hp
  exact (Option.some.inj hp).symm

theorem taskKey_below (session : ScanSessionId) (generation : ScanGeneration) (root : NativePath)
    (p : RelativePath) :
    taskKey session generation root (p.below root) =
      .ok ⟨session, generation, .EnumerateDirectory, p⟩ := by
  simp [taskKey, RelativePath.below, stripPrefix_append, RelativePath.fromPath_bytes]

theorem taskKey_ok {session : ScanSessionId} {generation : ScanGeneration} {root path : NativePath}
    {key : WorkKey} (h : taskKey session generation root path = .ok key) :
    ∃ p : RelativePath, path = p.below root ∧
      key = ⟨session, generation, .EnumerateDirectory, p⟩ := by
  unfold taskKey at h
  split at h
  · cases h
  · rename_i relative hrelative
    split at h
    · cases h
    · rename_i p hp
      refine ⟨p, ?_, (Except.ok.inj h).symm⟩
      rw [RelativePath.below, RelativePath.bytes_of_fromPath hp]
      exact eq_append_of_stripPrefix hrelative

theorem taskKey_error {session : ScanSessionId} {generation : ScanGeneration}
    {root path : NativePath} {error : SchedulerError}
    (h : taskKey session generation root path = .error error) :
    error = .escapedRoot ∨ error = .invalidPath := by
  unfold taskKey at h
  split at h
  · exact Or.inl (Except.error.inj h).symm
  · split at h
    · exact Or.inr (Except.error.inj h).symm
    · cases h

namespace TaskQueue

theorem validateTaskPath_below (root : NativePath) (p : RelativePath) :
    validateTaskPath root (p.below root) = .ok () := by
  simp [validateTaskPath, RelativePath.below, stripPrefix_append, RelativePath.fromPath_bytes]

/-! ## The journal as a set of paths -/

def paths (q : TaskQueue) : List NativePath := (q.tasks ++ q.spill).map DirectoryTask.path

/-- One task more; nothing else moved. -/
structure Gains (q q' : TaskQueue) (path : NativePath) : Prop where
  paths : List.Perm q'.paths (path :: q.paths)
  root : q'.root = q.root

theorem schedule_ok {q q' : TaskQueue} {task : DirectoryTask} {io : Option String}
    (h : q.schedule task io = .ok q') :
    Gains q q' task.path ∧ q'.pending = q.pending + 1 := by
  unfold schedule at h
  cases hvalid : validateTaskPath q.root task.path with
  | error e =>
    rw [hvalid] at h
    cases h
  | ok u =>
    simp only [hvalid, bind, Except.bind] at h
    split at h
    · cases h
    split at h
    · obtain rfl := Except.ok.inj h
      refine ⟨⟨?_, rfl⟩, rfl⟩
      simp only [paths, List.append_assoc, List.singleton_append, List.map_append, List.map_cons]
      exact List.perm_middle
    · split at h
      · cases h
      · obtain rfl := Except.ok.inj h
        refine ⟨⟨?_, rfl⟩, rfl⟩
        simp only [paths, ← List.append_assoc, List.map_append, List.map_cons, List.map_nil]
        exact List.perm_append_singleton _ _

theorem eraseP_perm {tasks : List DirectoryTask} {path : NativePath} {task : DirectoryTask}
    (h : tasks.find? (·.path = path) = some task) :
    task.path = path ∧ List.Perm (tasks.map DirectoryTask.path)
      (path :: (tasks.eraseP (·.path = path)).map DirectoryTask.path) := by
  induction tasks with
  | nil => cases h
  | cons t ts ih =>
    by_cases ht : t.path = path
    · simp only [List.find?_cons, ht, decide_true, Option.some.injEq] at h
      subst h
      refine ⟨ht, ?_⟩
      simp [ht]
    · simp only [List.find?_cons, ht, decide_false] at h
      obtain ⟨hpath, hperm⟩ := ih h
      refine ⟨hpath, ?_⟩
      simp only [List.eraseP_cons, ht, decide_false, List.map_cons, cond_false]
      exact (hperm.cons t.path).trans (List.Perm.swap path t.path _)

/-- A task that is queued is found while no flag is set, unless the spill cannot be read. -/
theorem takePath_queued {q : TaskQueue} {p : RelativePath} (hmem : p.below q.root ∈ q.paths)
    (hpending : q.pending ≠ 0) (io : Option String) :
    (∃ error, q.takePath (p.below q.root) false io = .error error) ∨
      ∃ q' task, q.takePath (p.below q.root) false io = .ok (q', some task) ∧
        task.path = p.below q.root ∧ Gains q' q (p.below q.root) ∧ q'.pending = q.pending := by
  have hvalid := validateTaskPath_below q.root p
  unfold takePath
  simp only [Bool.false_or, hpending, decide_false, Bool.false_eq_true, if_false]
  split
  · rename_i task htask
    obtain ⟨hpath, hperm⟩ := eraseP_perm htask
    refine Or.inr ⟨{ q with tasks := q.tasks.eraseP (·.path = p.below q.root) }, task,
      by simp [bind, Except.bind, hpath, hvalid], hpath, ⟨?_, rfl⟩, rfl⟩
    simp only [paths, List.map_append]
    exact hperm.append_right _
  · rename_i hnone
    split
    · rename_i error
      exact Or.inl ⟨error, rfl⟩
    · split
      · rename_i task htask
        obtain ⟨hpath, hperm⟩ := eraseP_perm htask
        refine Or.inr ⟨{ q with spill := q.spill.eraseP (·.path = p.below q.root) }, task,
          by simp [bind, Except.bind, hpath, hvalid], hpath, ⟨?_, rfl⟩, rfl⟩
        simp only [paths, List.map_append]
        exact (hperm.append_left _).trans List.perm_middle
      · rename_i hspill
        exfalso
        obtain ⟨task, htask, hpath⟩ := List.mem_map.mp hmem
        rcases List.mem_append.mp htask with htask | htask
        · exact List.find?_eq_none.mp hnone task htask (by simpa using hpath)
        · exact List.find?_eq_none.mp hspill task htask (by simpa using hpath)

end TaskQueue

/-! ## Agreement -/

namespace Scheduler
variable {n : Nat} {s : Scheduler n}

def enumKey (s : Scheduler n) (p : RelativePath) : WorkKey :=
  ⟨s.session, s.generation, .EnumerateDirectory, p⟩

def outstanding (active : Fin n → Option WorkLease) : Nat :=
  ∑ i, if (active i).isSome then 1 else 0

structure Agrees (s : Scheduler n) : Prop where
  filed : s.coordinator.Filed
  session : s.coordinator.session = s.session
  generation : s.coordinator.generation = s.generation
  root : s.queue.root = s.root
  waiting : ∀ k ∈ s.coordinator.pending, k.kind.isScanWork = true →
    k = s.enumKey k.path ∧ k.path.below s.root ∈ s.queue.paths
  queued : ∀ path ∈ s.queue.paths, ∃ p, path = p.below s.root ∧ s.enumKey p ∈ s.coordinator.pending
  distinct : s.queue.paths.Nodup
  held : ∀ i l, s.active i = some l →
    l.key = s.enumKey l.key.path ∧ l.key ∈ s.coordinator.activeByKey
  owner : ∀ k ∈ s.coordinator.activeByKey, k.kind = .EnumerateDirectory →
    ∃ i l, s.active i = some l ∧ l.key = k
  exclusive : ∀ i j l l', s.active i = some l → s.active j = some l' → l.key = l'.key → i = j
  counted : s.queue.pending = s.queue.paths.length + outstanding s.active

theorem Agrees.of_same {s' : Scheduler n} (h : Agrees s) (hc : s'.coordinator = s.coordinator)
    (hq : s'.queue = s.queue) (ha : s'.active = s.active) (hroot : s'.root = s.root)
    (hsession : s'.session = s.session) (hgeneration : s'.generation = s.generation) :
    Agrees s' := by
  cases s'
  subst hc hq ha hroot hsession hgeneration
  exact ⟨h.filed, h.session, h.generation, h.root, h.waiting, h.queued, h.distinct, h.held,
    h.owner, h.exclusive, h.counted⟩

theorem outstanding_update_some {active : Fin n → Option WorkLease} {i : Fin n} {l : WorkLease}
    (hi : active i = none) :
    outstanding (Function.update active i (some l)) = outstanding active + 1 := by
  have hrest : ∀ j ∈ Finset.univ.erase i,
      (if (Function.update active i (some l) j).isSome then 1 else 0) =
        if (active j).isSome then 1 else 0 := by
    intro j hj
    rw [Function.update_of_ne (Finset.ne_of_mem_erase hj)]
  rw [outstanding, outstanding, ← Finset.add_sum_erase _ _ (Finset.mem_univ i),
    ← Finset.add_sum_erase _ (fun j => if (active j).isSome then 1 else 0) (Finset.mem_univ i),
    Finset.sum_congr rfl hrest]
  simp [hi, Nat.add_comm]

theorem outstanding_update_none {active : Fin n → Option WorkLease} {i : Fin n} {l : WorkLease}
    (hi : active i = some l) :
    outstanding active = outstanding (Function.update active i none) + 1 := by
  have hback : Function.update (Function.update active i none) i (some l) = active := by
    rw [Function.update_idem, ← hi, Function.update_eq_self]
  rw [← outstanding_update_some (l := l) (Function.update_self i none active), hback]

/-! ## What keeps the agreement -/

/-- The coordinator answered someone who has no part in enumeration. -/
theorem Agrees.of_coordinator (h : Agrees s) {c : ScanCoordinator} (hf : c.Filed)
    (hera : ScanCoordinator.SameEra s.coordinator c)
    (hout : ∀ k ∈ c.pending, k.kind.isScanWork = true → k ∈ s.coordinator.pending)
    (hin : ∀ k ∈ s.coordinator.pending, k.kind = .EnumerateDirectory → k ∈ c.pending)
    (hleased : ∀ k : WorkKey, k.kind = .EnumerateDirectory →
      (k ∈ c.activeByKey ↔ k ∈ s.coordinator.activeByKey)) :
    Agrees { s with coordinator := c } where
  filed := hf
  session := hera.1.trans h.session
  generation := hera.2.trans h.generation
  root := h.root
  waiting k hk hscan := h.waiting k (hout k hk hscan) hscan
  queued path hpath := by
    obtain ⟨p, rfl, hp⟩ := h.queued path hpath
    exact ⟨p, rfl, hin _ hp rfl⟩
  distinct := h.distinct
  held i l hl := by
    obtain ⟨hkey, hmem⟩ := h.held i l hl
    refine ⟨hkey, (hleased _ ?_).mpr hmem⟩
    rw [hkey]
    rfl
  owner k hk hkind := h.owner k ((hleased k hkind).mp hk) hkind
  exclusive := h.exclusive
  counted := h.counted

theorem agrees_focus (h : Agrees s) (p : RelativePath) :
    Agrees { s with coordinator := s.coordinator.focus p } :=
  h.of_coordinator (h.filed.of_eq rfl rfl rfl) ⟨rfl, rfl⟩ (fun _ hk _ => hk) (fun _ hk _ => hk)
    (fun _ _ => Iff.rfl)

theorem agrees_acquire (h : Agrees s) {kind : WorkKind} (hkind : kind ≠ .EnumerateDirectory)
    (path : RelativePath) (priority : WorkPriority) :
    Agrees { s with coordinator := (s.coordinator.acquire kind path priority).1 } := by
  obtain ⟨hf, hera, hother, hnew⟩ := ScanCoordinator.acquire_handed h.filed kind path priority
  refine h.of_coordinator hf hera ?_ ?_ ?_
  · intro k hk hscan
    rcases hnew k hk with hk | hk
    · exact hk
    · rw [hk] at hscan
      cases hscan
  · intro k hk henum
    exact (hother k (henum ▸ hkind.symm)).1.mpr hk
  · intro k henum
    exact (hother k (henum ▸ hkind.symm)).2

theorem agrees_finishOther (h : Agrees s) {lease : WorkLease}
    (hkind : lease.key.kind ≠ .EnumerateDirectory) (completion : WorkCompletion) :
    Agrees { s with coordinator := (s.coordinator.finish lease completion).1 } := by
  refine h.of_coordinator (ScanCoordinator.filed_finish h.filed lease completion)
    (ScanCoordinator.sameEra_finish _ lease completion) ?_ ?_ ?_
  · intro k hk _
    simpa using hk
  · intro k hk _
    simpa using hk
  · intro k henum
    rw [ScanCoordinator.mem_activeByKey_finish]
    refine and_iff_left ?_
    rintro - rfl
    exact hkind henum

/-- A task whose key is pending or leased already is dropped. -/
theorem agrees_known (h : Agrees s) {key : WorkKey}
    (hout : (s.coordinator.schedule key .Background).2 ≠ .Enqueued) :
    Agrees { s with coordinator := (s.coordinator.schedule key .Background).1 } := by
  have hmem := ScanCoordinator.mem_pending_schedule s.coordinator key .Background
  obtain ⟨-, hbyKey, -, -⟩ := ScanCoordinator.schedule_keeps s.coordinator key .Background
  refine h.of_coordinator (ScanCoordinator.filed_schedule h.filed key .Background)
    (ScanCoordinator.sameEra_schedule _ key .Background) ?_ ?_ ?_
  · intro k hk _
    rcases (hmem k).mp hk with hk | ⟨-, hk⟩
    · exact hk
    · exact absurd hk hout
  · intro k hk _
    exact (hmem k).mpr (Or.inl hk)
  · intro k _
    rw [hbyKey]

/-- A new task is registered, then journalled. -/
theorem agrees_of_admitted (h : Agrees s) {p : RelativePath} {q : TaskQueue}
    (hout : (s.coordinator.schedule (s.enumKey p) .Background).2 = .Enqueued)
    (hgains : TaskQueue.Gains s.queue q (p.below s.root)) (hpending : q.pending = s.queue.pending + 1) :
    Agrees { s with
      coordinator := (s.coordinator.schedule (s.enumKey p) .Background).1, queue := q } := by
  have hmem := ScanCoordinator.mem_pending_schedule s.coordinator (s.enumKey p) .Background
  have hera := ScanCoordinator.sameEra_schedule s.coordinator (s.enumKey p) .Background
  have hnew := ScanCoordinator.schedule_reported s.coordinator (s.enumKey p) .Background
  rw [hout] at hnew
  obtain ⟨-, hbyKey, -, -⟩ := ScanCoordinator.schedule_keeps s.coordinator (s.enumKey p) .Background
  have hfresh : p.below s.root ∉ s.queue.paths := by
    intro hqueued
    obtain ⟨p', hp, hp'⟩ := h.queued _ hqueued
    rw [RelativePath.below_injective hp] at hnew
    exact hnew.1 hp'
  exact {
    filed := ScanCoordinator.filed_schedule h.filed _ _
    session := hera.1.trans h.session
    generation := hera.2.trans h.generation
    root := hgains.root.trans h.root
    waiting := by
      intro k hk hscan
      rcases (hmem k).mp hk with hk | ⟨rfl, -⟩
      · obtain ⟨hkey, hqueued⟩ := h.waiting k hk hscan
        exact ⟨hkey, hgains.paths.symm.subset (List.mem_cons_of_mem _ hqueued)⟩
      · exact ⟨rfl, hgains.paths.symm.subset List.mem_cons_self⟩
    queued := by
      intro path hpath
      rcases List.mem_cons.mp (hgains.paths.subset hpath) with rfl | hpath
      · exact ⟨p, rfl, (hmem _).mpr (Or.inr ⟨rfl, hout⟩)⟩
      · obtain ⟨p', rfl, hp'⟩ := h.queued path hpath
        exact ⟨p', rfl, (hmem _).mpr (Or.inl hp')⟩
    distinct := hgains.paths.nodup_iff.mpr (List.nodup_cons.mpr ⟨hfresh, h.distinct⟩)
    held := by
      intro i l hl
      obtain ⟨hkey, hleased⟩ := h.held i l hl
      refine ⟨hkey, ?_⟩
      simp only [hbyKey]
      exact hleased
    owner := by
      intro k hk hkind
      simp only [hbyKey] at hk
      exact h.owner k hk hkind
    exclusive := h.exclusive
    counted := by
      have hlength := hgains.paths.length_eq
      have hcounted := h.counted
      simp only [List.length_cons] at hlength
      simp only [hpending]
      omega }

/-- The coordinator leases a key, its task leaves the journal and a worker takes both. -/
theorem agrees_hand (h : Agrees s) {c : ScanCoordinator} {l : WorkLease} {q : TaskQueue}
    {i : Fin n} (hhanded : ScanCoordinator.Handed s.coordinator c l.key)
    (hscan : l.key.kind.isScanWork = true)
    (hgains : TaskQueue.Gains q s.queue (l.key.path.below s.root))
    (hpending : q.pending = s.queue.pending) (hi : s.active i = none) :
    Agrees { s with coordinator := c, queue := q, active := Function.update s.active i (some l) } := by
  obtain ⟨hkey, -⟩ := h.waiting _ hhanded.waited hscan
  have hnodup := List.nodup_cons.mp (hgains.paths.nodup_iff.mp h.distinct)
  have hcases : ∀ {j : Fin n} {l' : WorkLease}, Function.update s.active i (some l) j = some l' →
      (j = i ∧ l' = l) ∨ (j ≠ i ∧ s.active j = some l') := by
    intro j l' hl'
    by_cases hj : j = i
    · subst hj
      rw [Function.update_self] at hl'
      exact Or.inl ⟨rfl, (Option.some.inj hl').symm⟩
    · rw [Function.update_of_ne hj] at hl'
      exact Or.inr ⟨hj, hl'⟩
  have hunheld : ∀ {j : Fin n} {l' : WorkLease}, s.active j = some l' → l'.key ≠ l.key := by
    intro j l' hl' heq
    have hleased := (h.held j l' hl').2
    rw [heq, Maps.mem_iff] at hleased
    obtain ⟨x, hx⟩ := (Maps.mem_iff _ _).mp hhanded.waited
    obtain ⟨id, hid⟩ := hleased
    rw [h.filed.disjoint _ x hx] at hid
    cases hid
  exact {
    filed := hhanded.filed
    session := hhanded.era.1.trans h.session
    generation := hhanded.era.2.trans h.generation
    root := hgains.root.symm.trans h.root
    waiting := by
      intro k hk hkscan
      obtain ⟨hk, hne⟩ := (hhanded.pending k).mp hk
      obtain ⟨hk', hqueued⟩ := h.waiting k hk hkscan
      refine ⟨hk', ?_⟩
      rcases List.mem_cons.mp (hgains.paths.subset hqueued) with hsame | hqueued
      · have hp := RelativePath.below_injective hsame
        exact absurd (hk'.trans ((congrArg s.enumKey hp).trans hkey.symm)) hne
      · exact hqueued
    queued := by
      intro path hpath
      obtain ⟨p, rfl, hp⟩ := h.queued path (hgains.paths.symm.subset (List.mem_cons_of_mem _ hpath))
      refine ⟨p, rfl, (hhanded.pending _).mpr ⟨hp, ?_⟩⟩
      intro heq
      rw [← heq] at hnodup
      exact hnodup.1 hpath
    distinct := hnodup.2
    held := by
      intro j l' hl'
      rcases hcases hl' with ⟨-, rfl⟩ | ⟨-, hl'⟩
      · exact ⟨hkey, (hhanded.leased _).mpr (Or.inr rfl)⟩
      · obtain ⟨hkey', hleased⟩ := h.held j l' hl'
        exact ⟨hkey', (hhanded.leased _).mpr (Or.inl hleased)⟩
    owner := by
      intro k hk hkind
      rcases (hhanded.leased k).mp hk with hk | rfl
      · obtain ⟨j, l', hl', hkey'⟩ := h.owner k hk hkind
        refine ⟨j, l', ?_, hkey'⟩
        have hj : j ≠ i := by
          rintro rfl
          rw [hi] at hl'
          cases hl'
        simp only [Function.update_of_ne hj]
        exact hl'
      · exact ⟨i, l, Function.update_self i (some l) s.active, rfl⟩
    exclusive := by
      intro j j' l₁ l₂ h₁ h₂ heq
      rcases hcases h₁ with ⟨rfl, rfl⟩ | ⟨-, hold₁⟩
      · rcases hcases h₂ with ⟨rfl, -⟩ | ⟨-, hold₂⟩
        · rfl
        · exact absurd heq.symm (hunheld hold₂)
      · rcases hcases h₂ with ⟨-, rfl⟩ | ⟨-, hold₂⟩
        · exact absurd heq (hunheld hold₁)
        · exact h.exclusive j j' l₁ l₂ hold₁ hold₂ heq
    counted := by
      have hlength := hgains.paths.length_eq
      have hcounted := h.counted
      have hmore := outstanding_update_some (l := l) hi
      simp only [List.length_cons] at hlength
      simp only [hpending, hmore]
      omega }

theorem agrees_complete (h : Agrees s) {i : Fin n} {l : WorkLease} (hi : s.active i = some l)
    {completion : WorkCompletion}
    (hout : (s.coordinator.finish l completion).2 = .Accepted) :
    Agrees { s with
      coordinator := (s.coordinator.finish l completion).1
      active := Function.update s.active i none
      queue := s.queue.complete } := by
  have hera := ScanCoordinator.sameEra_finish s.coordinator l completion
  have hleased : ∀ k, k ∈ (s.coordinator.finish l completion).1.activeByKey ↔
      k ∈ s.coordinator.activeByKey ∧ k ≠ l.key := by
    intro k
    rw [ScanCoordinator.mem_activeByKey_finish]
    simp [hout]
  have hcases : ∀ {j : Fin n} {l' : WorkLease}, Function.update s.active i none j = some l' →
      j ≠ i ∧ s.active j = some l' := by
    intro j l' hl'
    by_cases hj : j = i
    · subst hj
      rw [Function.update_self] at hl'
      cases hl'
    · rw [Function.update_of_ne hj] at hl'
      exact ⟨hj, hl'⟩
  exact {
    filed := ScanCoordinator.filed_finish h.filed l completion
    session := hera.1.trans h.session
    generation := hera.2.trans h.generation
    root := h.root
    waiting := by
      intro k hk hscan
      simp only [ScanCoordinator.finish_pending] at hk
      exact h.waiting k hk hscan
    queued := by
      intro path hpath
      obtain ⟨p, hp, hmem⟩ := h.queued path hpath
      refine ⟨p, hp, ?_⟩
      simp only [ScanCoordinator.finish_pending]
      exact hmem
    distinct := h.distinct
    held := by
      intro j l' hl'
      obtain ⟨hj, hl'⟩ := hcases hl'
      obtain ⟨hkey, hmem⟩ := h.held j l' hl'
      refine ⟨hkey, (hleased _).mpr ⟨hmem, ?_⟩⟩
      intro heq
      exact hj (h.exclusive j i l' l hl' hi heq)
    owner := by
      intro k hk hkind
      obtain ⟨hk, hne⟩ := (hleased k).mp hk
      obtain ⟨j, l', hl', rfl⟩ := h.owner k hk hkind
      refine ⟨j, l', ?_, rfl⟩
      have hj : j ≠ i := by
        rintro rfl
        rw [hi] at hl'
        exact hne (congrArg WorkLease.key (Option.some.inj hl').symm)
      simp only [Function.update_of_ne hj]
      exact hl'
    exclusive := by
      intro j j' l₁ l₂ h₁ h₂ heq
      exact h.exclusive j j' l₁ l₂ (hcases h₁).2 (hcases h₂).2 heq
    counted := by
      have hcounted := h.counted
      have hless := outstanding_update_none hi
      simp only [TaskQueue.complete, TaskQueue.paths] at hcounted ⊢
      omega }

end Scheduler

end Excise
