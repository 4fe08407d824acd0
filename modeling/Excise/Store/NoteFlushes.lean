import Excise.Lib.CappedSet
import Excise.Store.StoreHandle

/-!
# When the handle flushes its notes

The handle collects what the scan could not read and sends it ahead of its next command. At every
moment the engine that has worked off the queue and recorded the pending notes is the engine that
recorded each report when it was made.
-/

namespace Excise
set_option autoImplicit false

/-! ## Recording a set of notes -/

namespace ActiveGeneration

def tracked (a : ActiveGeneration) : CappedSet RelativePath :=
  ⟨a.unreadableDirectories, a.unreadableDirectoriesOverflowed⟩

def setTracked (t : CappedSet RelativePath) (a : ActiveGeneration) : ActiveGeneration :=
  { a with unreadableDirectories := t.items, unreadableDirectoriesOverflowed := t.overflowed }

theorem recordUnreadable_eq (a : ActiveGeneration) (path : RelativePath) (cap : Nat) :
    a.recordUnreadable path cap = a.setTracked (a.tracked.record cap path) := by
  unfold recordUnreadable CappedSet.record setTracked tracked
  dsimp only
  split
  · rfl
  · split
    · rfl
    · rename_i hopen _
      rw [Bool.not_eq_true] at hopen
      rw [← hopen]

theorem foldl_recordUnreadable (a : ActiveGeneration) (paths : List RelativePath) (cap : Nat) :
    paths.foldl (fun a path => a.recordUnreadable path cap) a =
      a.setTracked (a.tracked.recordSet cap paths.toFinset) := by
  have hfold : ∀ (paths : List RelativePath) (a : ActiveGeneration),
      paths.foldl (fun a path => a.recordUnreadable path cap) a =
        a.setTracked (paths.foldl (CappedSet.record cap) a.tracked) := by
    intro paths
    induction paths with
    | nil => exact fun a => rfl
    | cons path paths ih =>
      intro a
      rw [List.foldl_cons, List.foldl_cons, ih, recordUnreadable_eq]
      rfl
  rw [hfold]
  congr 1
  have hall := CappedSet.foldl_record cap a.tracked paths ∅
  rwa [CappedSet.recordSet_empty, Finset.empty_union] at hall

end ActiveGeneration

namespace StoreEngine

/-- What the notes make of the active generation. -/
def noted (notes : StoreNotes) (a : ActiveGeneration) : ActiveGeneration :=
  { a.setTracked (a.tracked.recordSet ScanStore.maxTrackedUnreadableDirectories
      notes.unreadableDirectories) with
    unrecordedPathCount := satAdd 64 a.unrecordedPathCount notes.unrecordedPaths }

theorem recordNotes_eq (notes : StoreNotes) (s : ScanStore) :
    recordNotes notes s = { s with active := s.active.map (noted notes) } := by
  have hfold : ∀ (paths : List RelativePath) (s : ScanStore),
      paths.foldl (fun s path => ScanStore.recordUnreadableDirectory path s) s =
        { s with
          active := s.active.map fun a => paths.foldl (fun a path =>
            a.recordUnreadable path ScanStore.maxTrackedUnreadableDirectories) a } := by
    intro paths
    induction paths with
    | nil =>
      intro s
      simp
    | cons path paths ih =>
      intro s
      rw [List.foldl_cons, ih]
      unfold ScanStore.recordUnreadableDirectory
      dsimp only
      rw [Option.map_map]
      rfl
  unfold recordNotes
  rw [hfold]
  unfold ScanStore.recordUnrecordedPaths
  dsimp only
  rw [Option.map_map]
  congr 2
  funext a
  rw [Function.comp_apply, ActiveGeneration.foldl_recordUnreadable, Finset.sort_toFinset]
  rfl

/-- What the store tracks of the active generation. -/
def trackedOf (s : ScanStore) : Option (CappedSet RelativePath) :=
  s.active.map ActiveGeneration.tracked

theorem trackedOf_recordUnreadableDirectory (path : RelativePath) (s : ScanStore) :
    trackedOf (ScanStore.recordUnreadableDirectory path s) = (trackedOf s).map fun t =>
      t.record ScanStore.maxTrackedUnreadableDirectories path := by
  unfold trackedOf ScanStore.recordUnreadableDirectory
  dsimp only
  rw [Option.map_map, Option.map_map]
  congr 1
  funext a
  rw [Function.comp_apply, ActiveGeneration.recordUnreadable_eq]
  rfl

/-- A report of its own, which adds nothing to the unrecorded paths. -/
def recordReport (path : RelativePath) (s : ScanStore) : ScanStore :=
  ScanStore.recordUnreadableDirectory path (ScanStore.recordUnrecordedPaths 0 s)

/-- A report added to the notes, or left out because they are full. -/
theorem recordNotes_collect (notes : StoreNotes) (path : RelativePath) (s : ScanStore) :
    recordNotes { notes with
        unreadableDirectories := CappedSet.collect ScanStore.maxTrackedUnreadableDirectories path
          notes.unreadableDirectories } s = recordReport path (recordNotes notes s) := by
  rw [recordNotes_eq, recordNotes_eq]
  unfold recordReport ScanStore.recordUnreadableDirectory ScanStore.recordUnrecordedPaths
  dsimp only
  rw [Option.map_map, Option.map_map]
  congr 2
  funext a
  rw [Function.comp_apply, Function.comp_apply, ActiveGeneration.recordUnreadable_eq]
  unfold noted
  rw [CappedSet.recordSet_collect (le_refl _)]
  unfold ActiveGeneration.setTracked ActiveGeneration.tracked
  dsimp only
  rw [satAdd_zero (satAdd_le 64 a.unrecordedPathCount notes.unrecordedPaths)]

theorem recordNotes_unrecorded (notes : StoreNotes) (s : ScanStore) :
    recordNotes { notes with unrecordedPaths := satAdd 64 notes.unrecordedPaths 1 } s =
      ScanStore.recordUnrecordedPaths 1 (recordNotes notes s) := by
  have hcount (c : Nat) : satAdd 64 c (satAdd 64 notes.unrecordedPaths 1) =
      satAdd 64 (satAdd 64 c notes.unrecordedPaths) 1 := by
    unfold satAdd
    omega
  rw [recordNotes_eq, recordNotes_eq]
  unfold ScanStore.recordUnrecordedPaths
  dsimp only
  rw [Option.map_map]
  congr 2
  funext a
  unfold noted
  rw [Function.comp_apply, hcount]

/-- The notes that wait for the next command, recorded. -/
def recordPending (notes : StoreNotes) (s : ScanStore) : ScanStore :=
  if notes.isEmpty then s else recordNotes notes s

theorem collect_ne_empty (path : RelativePath) (s : Finset RelativePath) :
    CappedSet.collect ScanStore.maxTrackedUnreadableDirectories path s ≠ ∅ := by
  unfold CappedSet.collect
  split
  · exact Finset.insert_ne_empty path s
  · rename_i hfull
    rintro rfl
    exact hfull (Nat.zero_le _)

theorem recordPending_collect (notes : StoreNotes) (path : RelativePath) (s : ScanStore) :
    recordPending { notes with
        unreadableDirectories := CappedSet.collect ScanStore.maxTrackedUnreadableDirectories path
          notes.unreadableDirectories } s = recordReport path (recordPending notes s) := by
  have hfull : (StoreNotes.mk notes.unrecordedPaths
      (CappedSet.collect ScanStore.maxTrackedUnreadableDirectories path
        notes.unreadableDirectories)).isEmpty ≠ true := by
    rw [Ne, StoreHandle.isEmpty_iff]
    intro h
    exact collect_ne_empty path _ (congrArg StoreNotes.unreadableDirectories h)
  unfold recordPending
  rw [if_neg hfull]
  split
  · rename_i hempty
    rw [StoreHandle.isEmpty_iff.mp hempty]
    have hone : CappedSet.collect ScanStore.maxTrackedUnreadableDirectories path
        StoreNotes.empty.unreadableDirectories = {path} := if_pos (Nat.zero_le _)
    rw [hone]
    unfold recordNotes
    dsimp only
    rw [Finset.sort_singleton]
    rfl
  · exact recordNotes_collect notes path s

theorem recordPending_unrecorded (notes : StoreNotes) (s : ScanStore) :
    recordPending { notes with unrecordedPaths := satAdd 64 notes.unrecordedPaths 1 } s =
      ScanStore.recordUnrecordedPaths 1 (recordPending notes s) := by
  have hfull : (StoreNotes.mk (satAdd 64 notes.unrecordedPaths 1)
      notes.unreadableDirectories).isEmpty ≠ true := by
    rw [Ne, StoreHandle.isEmpty_iff]
    intro h
    have hzero : satAdd 64 notes.unrecordedPaths 1 = 0 := congrArg StoreNotes.unrecordedPaths h
    unfold satAdd satMax at hzero
    omega
  unfold recordPending
  rw [if_neg hfull]
  split
  · rename_i hempty
    rw [StoreHandle.isEmpty_iff.mp hempty]
    unfold recordNotes
    dsimp only [StoreNotes.empty]
    rw [Finset.sort_empty]
    rfl
  · exact recordNotes_unrecorded notes s

end StoreEngine

/-! ## The owner and the thread -/

/-- What the owner does with the notes, and the thread taking the next command. -/
inductive OwnerStep where
  | unreadable (path : RelativePath)
  | unrecorded
  | send (command : StoreCommand)
  | work

/-- The thread's engine, unless the handle still has it, and how many decisions were applied. -/
structure StoreThread where
  handle : StoreHandle
  engine : StoreEngine
  decisions : Nat

namespace StoreThread

/-- A change to the store alone. -/
def onStore (f : ScanStore → ScanStore) (e : StoreEngine × Nat) : StoreEngine × Nat :=
  ({ e.1 with store := f e.1.store }, e.2)

variable (env : Nat → EngineIo)

/-- Which decision is next once the command was applied; notes meet nothing outside the store. -/
def decided (command : StoreCommand) (k : Nat) : Nat :=
  match command with
  | .Notes _ => k
  | _ => k + 1

/-- `env k` is what the `k`-th decision meets. -/
def apply (e : StoreEngine × Nat) (command : StoreCommand) : StoreEngine × Nat :=
  ((e.1.apply (env e.2) command).1, decided command e.2)

def isInline : Backend → Bool
  | .Inline _ _ => true
  | _ => false

/-- A step, unless the command cannot be sent. -/
def step (s : StoreThread) : OwnerStep → Option StoreThread
  | .unreadable path => some { s with handle := s.handle.recordUnreadableDirectory path }
  | .unrecorded => some { s with handle := s.handle.recordUnrecordedPath }
  | .send command =>
    match s.handle.send (env s.decisions) command with
    | .error _ _ => none
    | .ok () handle =>
      some
        { s with
          handle := handle
          decisions :=
            if isInline s.handle.backend then decided command s.decisions else s.decisions }
  | .work =>
    match s.handle.backend with
    | .Threaded (command :: commands) results disconnected =>
      some
        { handle := { s.handle with
            backend := .Threaded commands
              (results ++ (s.engine.apply (env s.decisions) command).2.toList) disconnected }
          engine := (apply env (s.engine, s.decisions) command).1
          decisions := (apply env (s.engine, s.decisions) command).2 }
    | _ => some s

def run (s : StoreThread) (steps : List OwnerStep) : Option StoreThread := steps.foldlM (step env) s

/-- The engine that applied the commands so far. -/
def applied (s : StoreThread) : StoreEngine × Nat :=
  match s.handle.backend with
  | .Inline engine _ => (engine, s.decisions)
  | _ => (s.engine, s.decisions)

def queue (s : StoreThread) : List StoreCommand :=
  match s.handle.backend with
  | .Threaded commands _ _ => commands
  | _ => []

/-- The engine once the queue is worked off and the pending notes are recorded. -/
def settled (s : StoreThread) : StoreEngine × Nat :=
  onStore (StoreEngine.recordPending s.handle.notes) (s.queue.foldl (apply env) s.applied)

/-- Every report recorded when it is made. -/
def direct (e : StoreEngine × Nat) : OwnerStep → StoreEngine × Nat
  | .unreadable path => onStore (StoreEngine.recordReport path) e
  | .unrecorded => onStore (ScanStore.recordUnrecordedPaths 1) e
  | .send command => apply env e command
  | .work => e

variable {env} {s s' : StoreThread}

theorem notes_recordUnreadableDirectory (h : StoreHandle) (path : RelativePath) :
    (h.recordUnreadableDirectory path).notes = { h.notes with
      unreadableDirectories := CappedSet.collect ScanStore.maxTrackedUnreadableDirectories path
        h.notes.unreadableDirectories } := by
  unfold StoreHandle.recordUnreadableDirectory CappedSet.collect
  split <;> rfl

theorem backend_recordUnreadableDirectory (h : StoreHandle) (path : RelativePath) :
    (h.recordUnreadableDirectory path).backend = h.backend := by
  unfold StoreHandle.recordUnreadableDirectory
  split <;> rfl

theorem settled_unreadable (s : StoreThread) (path : RelativePath) :
    settled env { s with handle := s.handle.recordUnreadableDirectory path } =
      direct env (s.settled env) (.unreadable path) := by
  unfold settled queue applied direct onStore
  dsimp only
  rw [notes_recordUnreadableDirectory, backend_recordUnreadableDirectory,
    StoreEngine.recordPending_collect]

theorem settled_unrecorded (s : StoreThread) :
    settled env { s with handle := s.handle.recordUnrecordedPath } =
      direct env (s.settled env) .unrecorded := by
  unfold settled direct onStore StoreHandle.recordUnrecordedPath
  dsimp only
  rw [StoreEngine.recordPending_unrecorded]
  rfl

theorem isInline_sendOne {io : EngineIo} {command : StoreCommand} {h h' : StoreHandle}
    (hs : StoreHandle.sendOne io command h = .ok () h') :
    isInline h'.backend = isInline h.backend := by
  unfold StoreHandle.sendOne at hs
  split at hs
  · rename_i hbackend
    cases hs
    rw [hbackend]
    rfl
  · rename_i hbackend
    split at hs
    · cases hs
    · split at hs
      · cases hs
      · cases hs
        rw [hbackend]
        rfl
  · cases hs

/-- One command in the queue, or applied at once. -/
theorem settled_sendOne {engine : StoreEngine} {k : Nat} {command : StoreCommand}
    {h h' : StoreHandle} (hnotes : h.notes = .empty)
    (hs : StoreHandle.sendOne (env k) command h = .ok () h') :
    settled env ⟨h', engine, if isInline h.backend then decided command k else k⟩ =
      apply env (settled env ⟨h, engine, k⟩) command := by
  have hquiet (f : StoreEngine × Nat) : onStore (StoreEngine.recordPending .empty) f = f := rfl
  unfold StoreHandle.sendOne at hs
  split at hs
  · rename_i running results hbackend
    cases hs
    unfold settled queue applied
    simp only [hbackend, hnotes, hquiet]
    rfl
  · rename_i commands results disconnected hbackend
    split at hs
    · cases hs
    · split at hs
      · cases hs
      · cases hs
        unfold settled queue applied
        simp only [hbackend, hnotes, hquiet]
        rw [List.foldl_append]
        rfl
  · cases hs

theorem settled_notes {engine : StoreEngine} {k : Nat} {h h' : StoreHandle}
    (hfull : h.notes.isEmpty = false)
    (hs : StoreHandle.sendOne (env k) (.Notes h.notes) { h with notes := .empty } = .ok () h') :
    settled env ⟨h', engine, k⟩ = settled env ⟨h, engine, k⟩ := by
  have hone := @settled_sendOne env engine k _ _ _ rfl hs
  have hpending (f : StoreEngine × Nat) : apply env f (.Notes h.notes) =
      onStore (StoreEngine.recordPending h.notes) f := by
    unfold apply onStore StoreEngine.recordPending
    rw [hfull]
    rfl
  rw [show decided (.Notes h.notes) k = k from rfl, ite_self] at hone
  rw [hone, hpending]
  rfl

/-- Sending settles the notes and applies the command. -/
theorem settled_send {command : StoreCommand} (h : s.step env (.send command) = some s') :
    s'.settled env = apply env (s.settled env) command := by
  unfold step StoreHandle.send at h
  dsimp only at h
  by_cases hempty : s.handle.notes.isEmpty = true
  · rw [if_pos hempty] at h
    split at h
    · cases h
    · rename_i handle hs
      cases h
      exact settled_sendOne (StoreHandle.isEmpty_iff.mp hempty) hs
  · rw [if_neg hempty] at h
    split at h
    · cases h
    · rename_i handle hs
      cases h
      split at hs
      · cases hs
      · rename_i between hnotes
        have hsettled := @settled_notes env s.engine _ _ _ (Bool.eq_false_iff.mpr hempty) hnotes
        have hkind : isInline between.backend = isInline s.handle.backend :=
          (isInline_sendOne hnotes).trans rfl
        rw [← hkind, settled_sendOne (StoreHandle.sendOne_ok hnotes).1 hs, hsettled]

theorem settled_work (h : s.step env .work = some s') : s'.settled env = s.settled env := by
  unfold step at h
  dsimp only at h
  split at h
  · rename_i command commands results disconnected hbackend
    cases h
    unfold settled queue applied
    simp only [hbackend]
    rfl
  · cases h
    rfl

theorem settled_step {o : OwnerStep} (h : s.step env o = some s') :
    s'.settled env = direct env (s.settled env) o := by
  cases o with
  | unreadable path =>
    cases h
    exact settled_unreadable s path
  | unrecorded =>
    cases h
    exact settled_unrecorded s
  | send command => exact settled_send h
  | work => exact settled_work h

theorem settled_run {steps : List OwnerStep} (h : s.run env steps = some s') :
    s'.settled env = steps.foldl (direct env) (s.settled env) := by
  unfold run at h
  induction steps generalizing s with
  | nil =>
    cases h
    rfl
  | cons o steps ih =>
    rw [List.foldlM_cons] at h
    obtain ⟨between, hstep, hrest⟩ := Option.bind_eq_some_iff.mp h
    rw [List.foldl_cons, ← settled_step hstep]
    exact ih hrest

theorem applied_of_flushed (hnotes : s.handle.notes = .empty) (hqueue : s.queue = []) :
    s.settled env = s.applied := by
  unfold settled
  rw [hnotes, hqueue]
  rfl

/-! ## Flushes between the reports -/

/-- The handle's notes after these reports. -/
def reported (h : StoreHandle) (paths : List RelativePath) : StoreHandle :=
  paths.foldl (fun h path => h.recordUnreadableDirectory path) h

/-- The notes are handed over after each group. -/
def recordGroups (h : StoreHandle) (groups : List (List RelativePath)) (store : ScanStore) :
    ScanStore :=
  groups.foldl (fun store paths =>
    StoreEngine.recordPending (reported { h with notes := .empty } paths).notes store) store

def recordInOrder (paths : List RelativePath) (store : ScanStore) : ScanStore :=
  paths.foldl (fun store path => ScanStore.recordUnreadableDirectory path store) store

theorem recordPending_reported (h : StoreHandle) (paths : List RelativePath) (store : ScanStore) :
    StoreEngine.recordPending (reported h paths).notes store =
      paths.foldl (fun store path => StoreEngine.recordReport path store)
        (StoreEngine.recordPending h.notes store) := by
  unfold reported
  induction paths generalizing h with
  | nil => rfl
  | cons path paths ih =>
    rw [List.foldl_cons, List.foldl_cons, ih, notes_recordUnreadableDirectory,
      StoreEngine.recordPending_collect]

theorem trackedOf_reports (paths : List RelativePath) (store : ScanStore) :
    StoreEngine.trackedOf (paths.foldl (fun s path => StoreEngine.recordReport path s) store) =
      StoreEngine.trackedOf (recordInOrder paths store) := by
  have hreport (path : RelativePath) (s : ScanStore) :
      StoreEngine.trackedOf (StoreEngine.recordReport path s) = (StoreEngine.trackedOf s).map
        fun t => t.record ScanStore.maxTrackedUnreadableDirectories path := by
    unfold StoreEngine.recordReport
    rw [StoreEngine.trackedOf_recordUnreadableDirectory]
    unfold StoreEngine.trackedOf ScanStore.recordUnrecordedPaths
    rw [Option.map_map, Option.map_map, Option.map_map]
    rfl
  have hsame (paths : List RelativePath) : ∀ store store' : ScanStore,
      StoreEngine.trackedOf store = StoreEngine.trackedOf store' →
      StoreEngine.trackedOf (paths.foldl (fun s path => StoreEngine.recordReport path s) store) =
        StoreEngine.trackedOf (recordInOrder paths store') := by
    unfold recordInOrder
    induction paths with
    | nil => exact fun store store' h => h
    | cons path paths ih =>
      intro store store' h
      refine ih _ _ ?_
      rw [hreport, StoreEngine.trackedOf_recordUnreadableDirectory, h]
  exact hsame paths store store rfl

theorem trackedOf_recordInOrder (paths : List RelativePath) {store store' : ScanStore}
    (h : StoreEngine.trackedOf store = StoreEngine.trackedOf store') :
    StoreEngine.trackedOf (recordInOrder paths store) =
      StoreEngine.trackedOf (recordInOrder paths store') := by
  unfold recordInOrder
  induction paths generalizing store store' with
  | nil => exact h
  | cons path paths ih =>
    refine ih ?_
    rw [StoreEngine.trackedOf_recordUnreadableDirectory,
      StoreEngine.trackedOf_recordUnreadableDirectory, h]

theorem trackedOf_recordGroups (h : StoreHandle) (groups : List (List RelativePath))
    (store : ScanStore) :
    StoreEngine.trackedOf (recordGroups h groups store) =
      StoreEngine.trackedOf (recordInOrder groups.flatten store) := by
  unfold recordGroups
  induction groups generalizing store with
  | nil => rfl
  | cons paths groups ih =>
    rw [List.foldl_cons, ih, List.flatten_cons, recordPending_reported]
    have happend : recordInOrder (paths ++ groups.flatten) store =
        recordInOrder groups.flatten (recordInOrder paths store) := List.foldl_append ..
    rw [happend]
    exact trackedOf_recordInOrder _ (trackedOf_reports paths store)

/-- Reports may wait in the handle and be handed over in groups, between whatever commands: once
all is handed over, the engine is the one that recorded each report when it was made, and for
reports alone it tracks what recording them in order tracks. -/
theorem unreadable_tracking_coalesces {steps : List OwnerStep} (h : s.run env steps = some s')
    (handle : StoreHandle) (groups : List (List RelativePath)) (store : ScanStore) :
    s'.settled env = steps.foldl (direct env) (s.settled env) ∧
      (s'.handle.notes = .empty → s'.queue = [] →
        s'.applied = steps.foldl (direct env) (s.settled env)) ∧
      StoreEngine.trackedOf (recordGroups handle groups store) =
        StoreEngine.trackedOf (recordInOrder groups.flatten store) := by
  refine ⟨settled_run h, fun hnotes hqueue => ?_, trackedOf_recordGroups handle groups store⟩
  rw [← settled_run h, applied_of_flushed hnotes hqueue]

/-- A handle with nothing to send and a thread with nothing to do. -/
def idleThread : StoreThread where
  handle := { StoreHandle.behind with notes := .empty, backend := .Threaded [] [] false }
  engine := ⟨ScanStore.new ⟨0⟩ ⟨0⟩, false⟩
  decisions := 0

theorem unreadable_tracking_coalesces_idle :
    ∃ s' : StoreThread, s'.settled (fun _ => StoreHandle.idleEngine) =
        [.unreadable .root, .send (.ProvisionalPage ⟨.root, none, 8⟩), .unreadable .root, .work].foldl
          (direct fun _ => StoreHandle.idleEngine)
          (idleThread.settled fun _ => StoreHandle.idleEngine) ∧
      StoreEngine.trackedOf (recordGroups StoreHandle.behind [[.root], [], [.root, .root]]
          (ScanStore.new ⟨0⟩ ⟨0⟩)) =
        StoreEngine.trackedOf (recordInOrder [.root, .root, .root] (ScanStore.new ⟨0⟩ ⟨0⟩)) := by
  have hrun := Option.some_get (show (idleThread.run (fun _ => StoreHandle.idleEngine)
    [.unreadable .root, .send (.ProvisionalPage ⟨.root, none, 8⟩), .unreadable .root,
      .work]).isSome = true from rfl)
  have hall := unreadable_tracking_coalesces hrun.symm StoreHandle.behind [[.root], [], [.root, .root]]
    (ScanStore.new ⟨0⟩ ⟨0⟩)
  exact ⟨_, hall.1, hall.2.2⟩

end StoreThread

end Excise
