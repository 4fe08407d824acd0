import Excise.Path
import Excise.Lib.Maps
import Mathlib.Data.List.TakeWhile
import Mathlib.Data.Prod.Lex
import Mathlib.Tactic

/-!
# Work items and the ready queues

The scheduler keys of `scan_coordinator_core.rs` and its two ready indexes: per priority,
ordered by sequence, and per priority and path. `queue` and `bucket` read the indexes as
sets; everything after this module sees them only through `mem_queue_*` and `mem_bucket_*`.
-/

namespace Excise
set_option autoImplicit false

/-- The 16 random bytes of a session, compared as one big-endian number. -/
structure ScanSessionId where
  bytes : BitVec 128

instance : LinearOrder ScanSessionId :=
  LinearOrder.lift' (fun s => s.bytes.toNat) fun a b h => by
    cases a; cases b; simpa [BitVec.toNat_inj] using h

structure ScanGeneration where
  value : UInt64

instance : LinearOrder ScanGeneration :=
  LinearOrder.lift' (fun g => g.value.toNat) fun a b h => by
    cases a; cases b; simpa [UInt64.toNat_inj] using h

inductive WorkKind where
  | EnumerateDirectory
  | ReduceRun
  | PlanDeletion
  | ExecuteDeletion
  | RefreshSubtree
  deriving Repr

instance : LinearOrder WorkKind :=
  LinearOrder.lift' WorkKind.ctorIdx fun a b h => by
    cases a <;> cases b <;> simp_all [WorkKind.ctorIdx]

def WorkKind.isScanWork : WorkKind → Bool
  | .EnumerateDirectory | .ReduceRun | .RefreshSubtree => true
  | .PlanDeletion | .ExecuteDeletion => false

/-- Smaller is more urgent. -/
inductive WorkPriority where
  | Safety
  | Foreground
  | Reducer
  | Background
  | Prefetch
  deriving Repr

instance : LinearOrder WorkPriority :=
  LinearOrder.lift' WorkPriority.ctorIdx fun a b h => by
    cases a <;> cases b <;> simp_all [WorkPriority.ctorIdx]

def WorkPriority.all : List WorkPriority := [.Safety, .Foreground, .Reducer, .Background, .Prefetch]

structure WorkKey where
  session : ScanSessionId
  generation : ScanGeneration
  kind : WorkKind
  path : RelativePath

instance : LinearOrder WorkKey :=
  LinearOrder.lift' (fun k => toLex (k.session, toLex (k.generation, toLex (k.kind, k.path))))
    fun a b h => by
      cases a; cases b
      simpa [toLex_inj] using h

structure QueuedWork where
  sequence : Nat
  key : WorkKey

instance : LinearOrder QueuedWork :=
  LinearOrder.lift' (fun q => toLex (q.sequence, q.key)) fun a b h => by
    cases a; cases b
    simpa [toLex_inj] using h

structure PendingWork where
  priority : WorkPriority
  queued : QueuedWork
  deriving DecidableEq

abbrev WorkSet := Std.TreeSet QueuedWork

abbrev PathIndex := Std.TreeMap RelativePath WorkSet

structure ReadyQueues where
  byPriority : Std.TreeMap WorkPriority WorkSet
  byPath : Std.TreeMap WorkPriority PathIndex

namespace ReadyQueues

def default : ReadyQueues := ⟨∅, ∅⟩

def insert (q : ReadyQueues) (priority : WorkPriority) (queued : QueuedWork) : ReadyQueues where
  byPriority := q.byPriority.insert priority ((q.byPriority[priority]?.getD ∅).insert queued)
  byPath :=
    let paths := q.byPath[priority]?.getD ∅
    q.byPath.insert priority
      (paths.insert queued.key.path ((paths[queued.key.path]?.getD ∅).insert queued))

def removeByPriority (m : Std.TreeMap WorkPriority WorkSet) (priority : WorkPriority)
    (queued : QueuedWork) : Std.TreeMap WorkPriority WorkSet :=
  match m[priority]? with
  | none => m
  | some queue =>
    if (queue.erase queued).isEmpty then m.erase priority else m.insert priority (queue.erase queued)

/-- The bucket is dropped when it empties, and the priority's index when its last bucket does. -/
def removeByPath (m : Std.TreeMap WorkPriority PathIndex) (priority : WorkPriority)
    (queued : QueuedWork) : Std.TreeMap WorkPriority PathIndex :=
  match m[priority]? with
  | none => m
  | some paths =>
    match paths[queued.key.path]? with
    | none => m
    | some entries =>
      if (entries.erase queued).isEmpty then
        let rest := paths.erase queued.key.path
        if rest.isEmpty then m.erase priority else m.insert priority rest
      else m.insert priority (paths.insert queued.key.path (entries.erase queued))

def remove (q : ReadyQueues) (priority : WorkPriority) (queued : QueuedWork) : ReadyQueues where
  byPriority := removeByPriority q.byPriority priority queued
  byPath := removeByPath q.byPath priority queued

def eligible (executionActive : Bool) (queued : QueuedWork) : Bool :=
  queued.key.kind != .ExecuteDeletion || !executionActive

def firstEligible (q : ReadyQueues) (priority : WorkPriority) (executionActive : Bool) :
    Option QueuedWork :=
  q.byPriority[priority]?.bind fun queue => queue.toList.find? (eligible executionActive)

def firstScanEligible (q : ReadyQueues) (priority : WorkPriority) : Option QueuedWork :=
  q.byPriority[priority]?.bind fun queue => queue.toList.find? fun queued => queued.key.kind.isScanWork

/-- `paths.range(prefix..)` up to the first path outside `pre`. -/
def pathsUnder (paths : PathIndex) (pre : RelativePath) : List (RelativePath × WorkSet) :=
  (paths.toList.filter fun e => pre ≤ e.1).takeWhile fun e => e.1.startsWith pre

def firstUnder (q : ReadyQueues) (priority : WorkPriority) (pre : RelativePath)
    (executionActive : Bool) : Option QueuedWork :=
  q.byPath[priority]?.bind fun paths =>
    (pathsUnder paths pre).findSome? fun e => e.2.toList.find? (eligible executionActive)

def firstScanUnder (q : ReadyQueues) (priority : WorkPriority) (pre : RelativePath) :
    Option QueuedWork :=
  q.byPath[priority]?.bind fun paths =>
    (pathsUnder paths pre).findSome? fun e =>
      e.2.toList.find? fun queued => queued.key.kind.isScanWork

def pendingUnder (q : ReadyQueues) (generation : ScanGeneration) (pre : RelativePath) :
    List (WorkPriority × QueuedWork) :=
  WorkPriority.all.flatMap fun priority =>
    match q.byPath[priority]? with
    | none => []
    | some paths => (pathsUnder paths pre).flatMap fun e =>
        (e.2.toList.filter fun queued => queued.key.generation = generation).map (Prod.mk priority)

/-! ## The indexes as sets -/

def queue (q : ReadyQueues) (priority : WorkPriority) : WorkSet := q.byPriority[priority]?.getD ∅

def bucket (q : ReadyQueues) (priority : WorkPriority) (path : RelativePath) : WorkSet :=
  (q.byPath[priority]?.getD ∅)[path]?.getD ∅

@[simp] theorem queue_default (priority : WorkPriority) : default.queue priority = ∅ := by
  simp [default, queue]

@[simp] theorem bucket_default (priority : WorkPriority) (path : RelativePath) :
    default.bucket priority path = ∅ := by
  simp [default, bucket]

theorem mem_queue_insert (q : ReadyQueues) (p p' : WorkPriority) (x w : QueuedWork) :
    w ∈ (q.insert p x).queue p' ↔ (p' = p ∧ w = x) ∨ w ∈ q.queue p' := by
  by_cases hp : p = p'
  · subst hp
    simp only [insert, queue, Maps.getElem?_insert, if_pos, Option.getD_some, Maps.mem_set_insert,
      true_and]
  · simp [insert, queue, Maps.getElem?_insert, hp, Ne.symm hp]

theorem mem_bucket_insert (q : ReadyQueues) (p p' : WorkPriority) (path : RelativePath)
    (x w : QueuedWork) :
    w ∈ (q.insert p x).bucket p' path ↔
      (p' = p ∧ path = x.key.path ∧ w = x) ∨ w ∈ q.bucket p' path := by
  by_cases hp : p = p'
  · subst hp
    by_cases hpath : x.key.path = path
    · subst hpath
      simp only [insert, bucket, Maps.getElem?_insert, if_pos, Option.getD_some,
        Maps.mem_set_insert, true_and]
    · simp [insert, bucket, Maps.getElem?_insert, hpath, Ne.symm hpath]
  · simp [insert, bucket, Maps.getElem?_insert, hp, Ne.symm hp]

theorem eq_of_erase_isEmpty {s : WorkSet} {x w : QueuedWork}
    (h : (s.erase x).isEmpty = true) (hw : w ∈ s) : w = x := by
  by_contra hne
  exact Std.TreeSet.isEmpty_iff_forall_not_mem.mp h w ((Maps.mem_set_erase s x w).mpr ⟨hw, hne⟩)

theorem removeByPriority_self (m : Std.TreeMap WorkPriority WorkSet) (p : WorkPriority)
    (x w : QueuedWork) :
    w ∈ (removeByPriority m p x)[p]?.getD ∅ ↔ w ∈ m[p]?.getD ∅ ∧ w ≠ x := by
  cases hm : m[p]? with
  | none => simp [removeByPriority, hm]
  | some s =>
    simp only [removeByPriority, hm, Option.getD_some]
    split
    · rename_i he
      simp only [Maps.getElem?_erase, if_pos, Option.getD_none, Std.TreeSet.not_mem_emptyc, false_iff]
      exact fun h => h.2 (eq_of_erase_isEmpty he h.1)
    · simp only [Maps.getElem?_insert, if_pos, Option.getD_some, Maps.mem_set_erase]

theorem removeByPriority_other {m : Std.TreeMap WorkPriority WorkSet} {p p' : WorkPriority}
    (h : p ≠ p') (x : QueuedWork) : (removeByPriority m p x)[p']? = m[p']? := by
  unfold removeByPriority
  split
  · rfl
  · split
    · rw [Maps.getElem?_erase, if_neg h]
    · rw [Maps.getElem?_insert, if_neg h]

theorem mem_queue_remove (q : ReadyQueues) (p p' : WorkPriority) (x w : QueuedWork) :
    w ∈ (q.remove p x).queue p' ↔ w ∈ q.queue p' ∧ ¬(p' = p ∧ w = x) := by
  by_cases hp : p = p'
  · subst hp
    simp only [remove, queue, true_and]
    exact removeByPriority_self q.byPriority p x w
  · simp only [remove, queue, removeByPriority_other hp]
    simp [Ne.symm hp]

/-- What `removeByPath` leaves in one bucket of one priority's index. -/
def dropFromIndex (paths : PathIndex) (queued : QueuedWork) : PathIndex :=
  match paths[queued.key.path]? with
  | none => paths
  | some entries =>
    if (entries.erase queued).isEmpty then paths.erase queued.key.path
    else paths.insert queued.key.path (entries.erase queued)

theorem removeByPath_self (m : Std.TreeMap WorkPriority PathIndex) (p : WorkPriority)
    (x : QueuedWork) (path : RelativePath) :
    ((removeByPath m p x)[p]?.getD ∅)[path]? = (dropFromIndex (m[p]?.getD ∅) x)[path]? := by
  cases hm : m[p]? with
  | none => simp [removeByPath, dropFromIndex, hm]
  | some paths =>
    simp only [removeByPath, dropFromIndex, hm, Option.getD_some]
    split
    · simp [hm]
    · split
      · split
        · rename_i hrest
          have hnone := Std.TreeMap.isEmpty_iff_forall_not_mem.mp hrest path
          simp [(Maps.not_mem_iff _ _).mp hnone]
        · simp
      · simp [Maps.getElem?_insert]

theorem removeByPath_other {m : Std.TreeMap WorkPriority PathIndex} {p p' : WorkPriority}
    (h : p ≠ p') (x : QueuedWork) : (removeByPath m p x)[p']? = m[p']? := by
  unfold removeByPath
  split
  · rfl
  · split
    · rfl
    · split
      · dsimp only
        split
        · rw [Maps.getElem?_erase, if_neg h]
        · rw [Maps.getElem?_insert, if_neg h]
      · rw [Maps.getElem?_insert, if_neg h]

theorem mem_dropFromIndex (paths : PathIndex) (path : RelativePath) (x w : QueuedWork) :
    w ∈ (dropFromIndex paths x)[path]?.getD ∅ ↔
      w ∈ paths[path]?.getD ∅ ∧ ¬(path = x.key.path ∧ w = x) := by
  by_cases hpath : x.key.path = path
  · subst hpath
    cases hb : paths[x.key.path]? with
    | none => simp [dropFromIndex, hb]
    | some entries =>
      simp only [dropFromIndex, hb, Option.getD_some]
      split
      · rename_i he
        simp only [Maps.getElem?_erase, if_pos, Option.getD_none, Std.TreeSet.not_mem_emptyc,
          false_iff, true_and]
        exact fun h => h.2 (eq_of_erase_isEmpty he h.1)
      · simp only [Maps.getElem?_insert, if_pos, Option.getD_some, Maps.mem_set_erase, true_and]
  · have hsame : (dropFromIndex paths x)[path]? = paths[path]? := by
      unfold dropFromIndex
      split
      · rfl
      · split
        · rw [Maps.getElem?_erase, if_neg hpath]
        · rw [Maps.getElem?_insert, if_neg hpath]
    simp [hsame, Ne.symm hpath]

theorem mem_bucket_remove (q : ReadyQueues) (p p' : WorkPriority) (path : RelativePath)
    (x w : QueuedWork) :
    w ∈ (q.remove p x).bucket p' path ↔
      w ∈ q.bucket p' path ∧ ¬(p' = p ∧ path = x.key.path ∧ w = x) := by
  by_cases hp : p = p'
  · subst hp
    simp only [remove, bucket, removeByPath_self, true_and]
    exact mem_dropFromIndex _ path x w
  · simp only [remove, bucket, removeByPath_other hp]
    simp [Ne.symm hp]

/-! ## What a selection can return -/

theorem mem_of_find_queue {q : ReadyQueues} {p : WorkPriority} {w : QueuedWork}
    {test : QueuedWork → Bool}
    (h : (q.byPriority[p]?.bind fun queue => queue.toList.find? test) = some w) :
    w ∈ q.queue p ∧ test w = true := by
  obtain ⟨queue, hqueue, hw⟩ := Option.bind_eq_some_iff.mp h
  refine ⟨?_, List.find?_some hw⟩
  simp only [ReadyQueues.queue, hqueue, Option.getD_some]
  exact (Maps.mem_set_toList _ _).mp (List.mem_of_find?_eq_some hw)

theorem mem_of_firstEligible {q : ReadyQueues} {p : WorkPriority} {executing : Bool}
    {w : QueuedWork} (h : q.firstEligible p executing = some w) :
    w ∈ q.queue p ∧ eligible executing w = true :=
  mem_of_find_queue h

theorem mem_of_firstScanEligible {q : ReadyQueues} {p : WorkPriority} {w : QueuedWork}
    (h : q.firstScanEligible p = some w) : w ∈ q.queue p ∧ w.key.kind.isScanWork = true :=
  mem_of_find_queue h

theorem mem_pathsUnder {paths : PathIndex} {pre path : RelativePath} {entries : WorkSet}
    (h : (path, entries) ∈ pathsUnder paths pre) :
    paths[path]? = some entries ∧ path.startsWith pre = true := by
  have hunder := List.mem_takeWhile_imp (p := fun e : RelativePath × WorkSet => e.1.startsWith pre) h
  have hfilter := (List.takeWhile_prefix _).subset h
  exact ⟨(Maps.mem_toList paths path entries).mp (List.mem_of_mem_filter hfilter), hunder⟩

theorem mem_bucket_of_index {q : ReadyQueues} {p : WorkPriority} {paths : PathIndex}
    {path : RelativePath} {entries : WorkSet} {w : QueuedWork} (hp : q.byPath[p]? = some paths)
    (hpath : paths[path]? = some entries) (hw : w ∈ entries) : w ∈ q.bucket p path := by
  simpa only [bucket, hp, Option.getD_some, hpath] using hw

theorem mem_of_find_under {q : ReadyQueues} {p : WorkPriority} {pre : RelativePath}
    {w : QueuedWork} {test : QueuedWork → Bool}
    (h : (q.byPath[p]?.bind fun paths =>
      (pathsUnder paths pre).findSome? fun e => e.2.toList.find? test) = some w) :
    ∃ path, w ∈ q.bucket p path ∧ path.startsWith pre = true ∧ test w = true := by
  obtain ⟨paths, hp, hw⟩ := Option.bind_eq_some_iff.mp h
  obtain ⟨⟨path, entries⟩, he, hw⟩ := List.exists_of_findSome?_eq_some hw
  obtain ⟨hpath, hunder⟩ := mem_pathsUnder he
  have hmem : w ∈ entries := (Maps.mem_set_toList _ _).mp (List.mem_of_find?_eq_some hw)
  exact ⟨path, mem_bucket_of_index hp hpath hmem, hunder, List.find?_some hw⟩

theorem mem_of_firstUnder {q : ReadyQueues} {p : WorkPriority} {pre : RelativePath}
    {executing : Bool} {w : QueuedWork} (h : q.firstUnder p pre executing = some w) :
    ∃ path, w ∈ q.bucket p path ∧ path.startsWith pre = true ∧ eligible executing w = true :=
  mem_of_find_under h

theorem mem_of_firstScanUnder {q : ReadyQueues} {p : WorkPriority} {pre : RelativePath}
    {w : QueuedWork} (h : q.firstScanUnder p pre = some w) :
    ∃ path, w ∈ q.bucket p path ∧ path.startsWith pre = true ∧ w.key.kind.isScanWork = true :=
  mem_of_find_under h

theorem mem_of_pendingUnder {q : ReadyQueues} {generation : ScanGeneration} {pre : RelativePath}
    {p : WorkPriority} {w : QueuedWork} (h : (p, w) ∈ q.pendingUnder generation pre) :
    ∃ path, w ∈ q.bucket p path ∧ path.startsWith pre = true ∧ w.key.generation = generation := by
  obtain ⟨priority, -, h⟩ := List.mem_flatMap.mp h
  cases hp : q.byPath[priority]? with
  | none => simp [hp] at h
  | some paths =>
    simp only [hp, List.mem_flatMap, List.mem_map, List.mem_filter, decide_eq_true_eq] at h
    obtain ⟨⟨path, entries⟩, he, w', ⟨hw, hgen⟩, heq⟩ := h
    obtain ⟨rfl, rfl⟩ := Prod.mk.inj heq
    obtain ⟨hpath, hunder⟩ := mem_pathsUnder he
    exact ⟨path, mem_bucket_of_index hp hpath ((Maps.mem_set_toList _ _).mp hw), hunder, hgen⟩

end ReadyQueues

end Excise
