import Excise.Lib.Machine
import Mathlib.Logic.Function.Basic

/-!
# The session's own files

The registry of `private_files.rs` with every load, store and locked section of its users as one
step: guards that register a path, are handed its file and are dropped, lookups by the scanner and
the overlay's listing, and other processes that make and remove files under the same names.
-/

namespace Excise
set_option autoImplicit false

/-- Where a `PrivateFile` is in `new`, in its life and in `drop`; `held` once it has its file. -/
inductive GuardPhase (π : Type) where
  | asking (path : π)
  | inserting (path : π)
  | raising (path : π)
  | leaving (path : π)
  | registered (path : π) (held : Bool)
  | dropping (path : π) (held : Bool)
  | closing (path : π) (held : Bool)
  | releasing (path : π)
  | lowering (path : π)
  | parting
  | gone
  deriving DecidableEq

/-- Where a lookup is in `contains_in` and `contains`. -/
inductive LookupPhase (π : Type) where
  | joining (path : π)
  | starting (path : π)
  | waiting (path : π)
  | reading (path : π)
  | ending
  | done
  deriving DecidableEq

/-- Whose file a name is. -/
inductive NameOwner where
  | session (guard : Nat)
  | other
  deriving DecidableEq

structure PrivateFiles (π : Type) where
  live : Nat
  paths : π → Option Nat
  writer : Bool
  readers : Nat
  guards : List (GuardPhase π)
  lookups : List (LookupPhase π)
  names : π → Option NameOwner

inductive RegistryAction (π : Type) where
  | register (path : π)
  | guard (i : Nat)
  | hold (i : Nat)
  | drop (i : Nat)
  | contains (path : π)
  | containsIn (path : π)
  | lookup (j : Nat)
  | occupy (path : π)
  | vacate (path : π)

namespace PrivateFiles
variable {π : Type} [DecidableEq π]

def start (names : π → Option NameOwner) : PrivateFiles π where
  live := 0
  paths := fun _ => none
  writer := false
  readers := 0
  guards := []
  lookups := []
  names := names

/-- Nobody has the lock of `paths`. -/
def free (s : PrivateFiles π) : Bool := !s.writer && s.readers == 0

def setGuard (s : PrivateFiles π) (i : Nat) (phase : GuardPhase π) : PrivateFiles π :=
  { s with guards := s.guards.set i phase }

def setLookup (s : PrivateFiles π) (j : Nat) (phase : LookupPhase π) : PrivateFiles π :=
  { s with lookups := s.lookups.set j phase }

/-- The next step of `PrivateFile::new` or of `drop`; on Windows closing the file removes its name. -/
def guardStep (s : PrivateFiles π) (i : Nat) : PrivateFiles π :=
  match s.guards[i]? with
  | some (.asking path) =>
    if s.free then { s with writer := true }.setGuard i (.inserting path) else s
  | some (.inserting path) =>
    { s with paths := Function.update s.paths path (some ((s.paths path).getD 0 + 1)) }.setGuard i
      (.raising path)
  | some (.raising path) => { s with live := s.live + 1 }.setGuard i (.leaving path)
  | some (.leaving path) => { s with writer := false }.setGuard i (.registered path false)
  | some (.dropping path held) =>
    if s.free then { s with writer := true }.setGuard i (.closing path held) else s
  | some (.closing path held) =>
    { s with names := if held then Function.update s.names path none else s.names }.setGuard i
      (.releasing path)
  | some (.releasing path) =>
    match s.paths path with
    | some count =>
      let left := if count - 1 = 0 then none else some (count - 1)
      { s with paths := Function.update s.paths path left }.setGuard i (.lowering path)
    | none => s.setGuard i .parting
  | some (.lowering _) => { s with live := s.live - 1 }.setGuard i .parting
  | some .parting => { s with writer := false }.setGuard i .gone
  | _ => s

/-- The next step of a lookup, and what it answers for which path. -/
def lookupStep (s : PrivateFiles π) (j : Nat) : PrivateFiles π × Option (π × Bool) :=
  match s.lookups[j]? with
  | some (.joining path) =>
    if s.live = 0 then (s.setLookup j .done, some (path, false))
    else (s.setLookup j (.starting path), none)
  | some (.starting path) =>
    if s.live = 0 then (s.setLookup j .done, some (path, false))
    else (s.setLookup j (.waiting path), none)
  | some (.waiting path) =>
    if s.writer then (s, none)
    else ({ s with readers := s.readers + 1 }.setLookup j (.reading path), none)
  | some (.reading path) => (s.setLookup j .ending, some (path, (s.paths path).isSome))
  | some .ending => ({ s with readers := s.readers - 1 }.setLookup j .done, none)
  | _ => (s, none)

/-- The file is made under a name that is free. -/
def hold (s : PrivateFiles π) (i : Nat) : PrivateFiles π :=
  match s.guards[i]? with
  | some (.registered path false) =>
    if s.names path = none then
      { s with names := Function.update s.names path (some (.session i)) }.setGuard i
        (.registered path true)
    else s
  | _ => s

def drop (s : PrivateFiles π) (i : Nat) : PrivateFiles π :=
  match s.guards[i]? with
  | some (.registered path held) => s.setGuard i (.dropping path held)
  | _ => s

/-- Other processes take free names, and remove files that are not held open. -/
def occupy (s : PrivateFiles π) (path : π) : PrivateFiles π :=
  if s.names path = none then { s with names := Function.update s.names path (some .other) } else s

def vacate (s : PrivateFiles π) (path : π) : PrivateFiles π :=
  if s.names path = some .other then { s with names := Function.update s.names path none } else s

def machine : Machine (PrivateFiles π) (RegistryAction π) (Option (π × Bool)) where
  step s
    | .register path => ({ s with guards := s.guards ++ [.asking path] }, none)
    | .guard i => (s.guardStep i, none)
    | .hold i => (s.hold i, none)
    | .drop i => (s.drop i, none)
    | .contains path => ({ s with lookups := s.lookups ++ [.starting path] }, none)
    | .containsIn path => ({ s with lookups := s.lookups ++ [.joining path] }, none)
    | .lookup j => s.lookupStep j
    | .occupy path => (s.occupy path, none)
    | .vacate path => (s.vacate path, none)

end PrivateFiles

/-! ## What a phase stands for -/

namespace GuardPhase
variable {π : Type} [DecidableEq π]

/-- The path is counted among the registered ones. -/
def counts (path : π) : GuardPhase π → Bool
  | .raising p | .leaving p | .registered p _ | .dropping p _ | .closing p _ | .releasing p =>
    decide (p = path)
  | _ => false

def isLive : GuardPhase π → Bool
  | .leaving _ | .registered .. | .dropping .. | .closing .. | .releasing _ | .lowering _ => true
  | _ => false

/-- The guard has the lock. -/
def locks : GuardPhase π → Bool
  | .inserting _ | .raising _ | .leaving _ | .closing .. | .releasing _ | .lowering _ | .parting =>
    true
  | _ => false

/-- The registration is in force: made, and not yet being released. -/
def inForce (path : π) : GuardPhase π → Bool
  | .registered p _ | .dropping p _ => decide (p = path)
  | _ => false

/-- The guard has the file of this name open. -/
def holds (path : π) : GuardPhase π → Bool
  | .registered p held | .dropping p held | .closing p held => held && decide (p = path)
  | _ => false

end GuardPhase

def LookupPhase.reads {π : Type} : LookupPhase π → Bool
  | .reading _ | .ending => true
  | _ => false

/-! ## Counting members -/

/-- Replacing one member changes a count by that member. -/
theorem countP_set_add {α : Type} (p : α → Bool) {l : List α} {i : Nat} {old : α} (new : α)
    (h : l[i]? = some old) :
    (l.set i new).countP p + (if p old then 1 else 0) =
      l.countP p + (if p new then 1 else 0) := by
  obtain ⟨hi, rfl⟩ := List.getElem?_eq_some_iff.mp h
  have hpos : p l[i] = true → 0 < l.countP p := fun hp =>
    List.countP_pos_iff.mpr ⟨l[i], List.getElem_mem hi, hp⟩
  rw [List.countP_set hi]
  by_cases hold : p l[i] = true
  · have := hpos hold
    rw [if_pos hold]
    omega
  · rw [if_neg hold]
    omega

/-! ## The invariant -/

namespace PrivateFiles
variable {π : Type} [DecidableEq π]

/-- The registry agrees with the guards, the lock is exclusive, and a name that is the session's is
that of a guard which has its file open. -/
structure Consistent (s : PrivateFiles π) : Prop where
  paths : ∀ path, s.paths path =
    if s.guards.countP (GuardPhase.counts path) = 0 then none
    else some (s.guards.countP (GuardPhase.counts path))
  live : s.live = s.guards.countP GuardPhase.isLive
  writer : s.guards.countP GuardPhase.locks = if s.writer then 1 else 0
  readers : s.lookups.countP LookupPhase.reads = s.readers
  exclusive : s.writer = true → s.readers = 0
  names : ∀ path i, s.names path = some (.session i) →
    ∃ phase, s.guards[i]? = some phase ∧ phase.holds path = true
  held : ∀ (path : π) i phase, s.guards[i]? = some phase → phase.holds path = true →
    s.names path = some (.session i)

theorem consistent_start {names : π → Option NameOwner}
    (hnames : ∀ path i, names path ≠ some (.session i)) : Consistent (start names) where
  paths := fun _ => rfl
  live := rfl
  writer := rfl
  readers := rfl
  exclusive := fun h => nomatch h
  names := fun path i h => absurd h (hnames path i)
  held := fun _ _ _ h => nomatch h

variable {s s' : PrivateFiles π} {i : Nat} {old new : GuardPhase π}

/-- One guard goes on to its next phase. -/
structure Moved (s s' : PrivateFiles π) (i : Nat) (old new : GuardPhase π) : Prop where
  found : s.guards[i]? = some old
  guards : s'.guards = s.guards.set i new
  lookups : s'.lookups = s.lookups
  readers : s'.readers = s.readers
  paths : ∀ path n, n + (if old.counts path then 1 else 0) =
      s.guards.countP (GuardPhase.counts path) + (if new.counts path then 1 else 0) →
    s'.paths path = if n = 0 then none else some n
  live : s'.live + (if old.isLive then 1 else 0) = s.live + (if new.isLive then 1 else 0)
  writer : (if s'.writer then 1 else 0) + (if old.locks then 1 else 0) =
    (if s.writer then 1 else 0) + (if new.locks then 1 else 0)
  exclusive : s'.writer = true → s.readers = 0
  own : ∀ path, s'.names path = some (.session i) ↔ new.holds path = true
  others : ∀ path j, j ≠ i → (s'.names path = some (.session j) ↔ s.names path = some (.session j))

theorem Consistent.move (h : Consistent s) (hmove : Moved s s' i old new) : Consistent s' := by
  have hi := hmove.found
  have hself : (s.guards.set i new)[i]? = some new := by
    obtain ⟨hlt, -⟩ := List.getElem?_eq_some_iff.mp hi
    rw [List.getElem?_set_self hlt]
  have hother (j : Nat) (hj : j ≠ i) : (s.guards.set i new)[j]? = s.guards[j]? :=
    List.getElem?_set_ne (Ne.symm hj)
  constructor
  · intro path
    rw [hmove.guards]
    exact hmove.paths path _ (countP_set_add _ new hi)
  · rw [hmove.guards]
    have hcount := countP_set_add GuardPhase.isLive new hi
    have hlive := hmove.live
    rw [h.live] at hlive
    omega
  · rw [hmove.guards]
    have hcount := countP_set_add GuardPhase.locks new hi
    have hwriter := hmove.writer
    rw [h.writer] at hcount
    omega
  · rw [hmove.lookups, hmove.readers]
    exact h.readers
  · rw [hmove.readers]
    exact hmove.exclusive
  · intro path j hname
    rw [hmove.guards]
    by_cases hj : j = i
    · subst hj
      exact ⟨new, hself, (hmove.own path).mp hname⟩
    · rw [hother j hj]
      exact h.names path j ((hmove.others path j hj).mp hname)
  · intro path j phase hphase hholds
    rw [hmove.guards] at hphase
    by_cases hj : j = i
    · subst hj
      rw [hself] at hphase
      exact (hmove.own path).mpr (Option.some.inj hphase ▸ hholds)
    · rw [hother j hj] at hphase
      exact (hmove.others path j hj).mpr (h.held path j phase hphase hholds)

theorem Consistent.own (h : Consistent s) (hi : s.guards[i]? = some old) (path : π) :
    s.names path = some (.session i) ↔ old.holds path = true := by
  constructor
  · intro hname
    obtain ⟨phase, hphase, hholds⟩ := h.names path i hname
    rw [hi] at hphase
    exact Option.some.inj hphase ▸ hholds
  · exact h.held path i old hi

theorem Consistent.paths_same (h : Consistent s)
    (hcounts : ∀ path, new.counts path = old.counts path) (path : π) (n : Nat)
    (hn : n + (if old.counts path then 1 else 0) =
      s.guards.countP (GuardPhase.counts path) + (if new.counts path then 1 else 0)) :
    s.paths path = if n = 0 then none else some n := by
  rw [hcounts path] at hn
  rw [h.paths path, Nat.add_right_cancel hn]

/-- A step that leaves the names alone. -/
theorem Consistent.advance (h : Consistent s) {live : Nat} {paths : π → Option Nat} {locked : Bool}
    (hi : s.guards[i]? = some old)
    (hpaths : ∀ path n, n + (if old.counts path then 1 else 0) =
        s.guards.countP (GuardPhase.counts path) + (if new.counts path then 1 else 0) →
      paths path = if n = 0 then none else some n)
    (hlive : live + (if old.isLive then 1 else 0) = s.live + (if new.isLive then 1 else 0))
    (hwriter : (if locked then 1 else 0) + (if old.locks then 1 else 0) =
      (if s.writer then 1 else 0) + (if new.locks then 1 else 0))
    (hexclusive : locked = true → s.readers = 0) (hholds : ∀ path, new.holds path = old.holds path) :
    Consistent ({ s with live := live, paths := paths, writer := locked }.setGuard i new) :=
  h.move {
    found := hi
    guards := rfl
    lookups := rfl
    readers := rfl
    paths := hpaths
    live := hlive
    writer := hwriter
    exclusive := hexclusive
    own := fun path => (h.own hi path).trans (by rw [hholds path])
    others := fun _ _ _ => Iff.rfl }

theorem Consistent.relock (h : Consistent s) {locked : Bool} (hi : s.guards[i]? = some old)
    (hcounts : ∀ path, new.counts path = old.counts path) (hlive : new.isLive = old.isLive)
    (hwriter : (if locked then 1 else 0) + (if old.locks then 1 else 0) =
      (if s.writer then 1 else 0) + (if new.locks then 1 else 0))
    (hexclusive : locked = true → s.readers = 0) (hholds : ∀ path, new.holds path = old.holds path) :
    Consistent ({ s with writer := locked }.setGuard i new) :=
  h.advance hi (h.paths_same hcounts) (by rw [hlive]) hwriter hexclusive hholds

omit [DecidableEq π] in
theorem free_iff : s.free = true ↔ s.writer = false ∧ s.readers = 0 := by
  unfold free
  rw [Bool.and_eq_true, Bool.not_eq_true', beq_iff_eq]

theorem Consistent.locked (h : Consistent s) (hi : s.guards[i]? = some old)
    (hlocks : old.locks = true) : s.writer = true := by
  have hpos : 0 < s.guards.countP GuardPhase.locks :=
    List.countP_pos_iff.mpr ⟨old, List.mem_of_getElem? hi, hlocks⟩
  rw [h.writer] at hpos
  by_contra hno
  rw [if_neg hno] at hpos
  exact Nat.lt_irrefl 0 hpos

theorem consistent_guardStep (h : Consistent s) (i : Nat) : Consistent (s.guardStep i) := by
  unfold guardStep
  split
  · -- `new` takes the lock
    rename_i path hi
    split
    · rename_i hfree
      obtain ⟨hwriter, hreaders⟩ := free_iff.mp hfree
      exact h.relock hi (fun _ => rfl) rfl (by rw [hwriter]; rfl) (fun _ => hreaders) fun _ => rfl
    · exact h
  · rename_i path hi
    refine h.advance hi (fun path' n hn => ?_) rfl rfl h.exclusive fun _ => rfl
    rw [show GuardPhase.counts path' (.inserting path) = false from rfl, if_neg Bool.false_ne_true]
      at hn
    by_cases heq : path' = path
    · subst heq
      rw [show GuardPhase.counts path' (.raising path') = true from decide_eq_true rfl,
        if_pos rfl] at hn
      have hn' : n = s.guards.countP (GuardPhase.counts path') + 1 := hn
      rw [Function.update_self, h.paths path', hn', if_neg (Nat.succ_ne_zero _)]
      split
      · rename_i hnone
        rw [hnone]
        rfl
      · rfl
    · rw [show GuardPhase.counts path' (.raising path) = false from
        decide_eq_false (Ne.symm heq), if_neg Bool.false_ne_true] at hn
      rw [Function.update_of_ne heq, h.paths path', Nat.add_right_cancel hn]
  · rename_i path hi
    exact h.advance hi (h.paths_same fun _ => rfl) rfl rfl h.exclusive fun _ => rfl
  · rename_i path hi
    have hwriter := h.locked hi rfl
    exact h.relock hi (fun _ => rfl) rfl (by rw [hwriter]; rfl) (fun hno => nomatch hno) fun _ => rfl
  · -- `drop` takes the lock
    rename_i path held hi
    split
    · rename_i hfree
      obtain ⟨hwriter, hreaders⟩ := free_iff.mp hfree
      exact h.relock hi (fun _ => rfl) rfl (by rw [hwriter]; rfl) (fun _ => hreaders) fun _ => rfl
    · exact h
  · -- the file is closed, and its name goes with it
    rename_i path held hi
    refine h.move ⟨hi, rfl, rfl, rfl, h.paths_same fun _ => rfl, rfl, rfl, h.exclusive,
      fun path' => ?_, fun path' j hj => ?_⟩
    · have hown := h.own hi path'
      cases held with
      | false => exact hown.trans Iff.rfl
      | true =>
        show Function.update s.names path none path' = _ ↔ _
        by_cases heq : path' = path
        · subst heq
          rw [Function.update_self]
          exact iff_of_false (fun hno => nomatch hno) Bool.false_ne_true
        · rw [Function.update_of_ne heq, hown]
          exact iff_of_false (fun hno => heq (of_decide_eq_true hno).symm) Bool.false_ne_true
    · cases held with
      | false => exact Iff.rfl
      | true =>
        show Function.update s.names path none path' = _ ↔ _
        by_cases heq : path' = path
        · subst heq
          have hown := (h.own hi path').mpr (decide_eq_true rfl)
          rw [Function.update_self, hown]
          exact iff_of_false (fun hno => nomatch hno) fun hno => by
            injection hno with hno
            injection hno with hno
            exact hj hno.symm
        · rw [Function.update_of_ne heq]
  · rename_i path hi
    have hcounted : 0 < s.guards.countP (GuardPhase.counts path) :=
      List.countP_pos_iff.mpr ⟨_, List.mem_of_getElem? hi, decide_eq_true rfl⟩
    have hpath := h.paths path
    rw [if_neg (Nat.pos_iff_ne_zero.mp hcounted)] at hpath
    split
    · rename_i count hcount
      rw [hpath] at hcount
      cases hcount
      refine h.advance hi (fun path' n hn => ?_) rfl rfl h.exclusive fun _ => rfl
      rw [show GuardPhase.counts path' (.lowering path) = false from rfl,
        if_neg Bool.false_ne_true] at hn
      by_cases heq : path' = path
      · subst heq
        rw [show GuardPhase.counts path' (.releasing path') = true from decide_eq_true rfl,
          if_pos rfl] at hn
        have hn' : s.guards.countP (GuardPhase.counts path') - 1 = n := by omega
        rw [Function.update_self, hn']
      · rw [show GuardPhase.counts path' (.releasing path) = false from
          decide_eq_false (Ne.symm heq), if_neg Bool.false_ne_true] at hn
        rw [Function.update_of_ne heq, h.paths path', Nat.add_right_cancel hn]
    · rename_i hnone
      rw [hpath] at hnone
      cases hnone
  · rename_i path hi
    have hlive : 0 < s.guards.countP GuardPhase.isLive :=
      List.countP_pos_iff.mpr ⟨_, List.mem_of_getElem? hi, rfl⟩
    refine h.advance hi (h.paths_same fun _ => rfl) ?_ rfl h.exclusive fun _ => rfl
    rw [← h.live] at hlive
    show s.live - 1 + 1 = s.live + 0
    omega
  · rename_i hi
    have hwriter := h.locked hi rfl
    exact h.relock hi (fun _ => rfl) rfl (by rw [hwriter]; rfl) (fun hno => nomatch hno) fun _ => rfl
  · exact h

theorem consistent_hold (h : Consistent s) (i : Nat) : Consistent (s.hold i) := by
  unfold hold
  split
  · rename_i path hi
    split
    · rename_i hfree
      refine h.move ⟨hi, rfl, rfl, rfl, h.paths_same fun _ => rfl, rfl, rfl, h.exclusive,
        fun path' => ?_, fun path' j hj => ?_⟩
      · show Function.update s.names path _ path' = _ ↔ _
        by_cases heq : path' = path
        · subst heq
          rw [Function.update_self]
          exact iff_of_true rfl (decide_eq_true rfl)
        · rw [Function.update_of_ne heq, h.own hi path']
          exact iff_of_false Bool.false_ne_true fun hno => heq (of_decide_eq_true hno).symm
      · show Function.update s.names path _ path' = _ ↔ _
        by_cases heq : path' = path
        · subst heq
          rw [Function.update_self, hfree]
          refine iff_of_false (fun hno => ?_) fun hno => nomatch hno
          injection hno with hno
          injection hno with hno
          exact hj hno.symm
        · rw [Function.update_of_ne heq]
    · exact h
  · exact h

theorem consistent_drop (h : Consistent s) (i : Nat) : Consistent (s.drop i) := by
  unfold drop
  split
  · rename_i path held hi
    exact h.relock hi (fun _ => rfl) rfl rfl h.exclusive fun _ => rfl
  · exact h

theorem Consistent.rename (h : Consistent s) {names : π → Option NameOwner}
    (hnames : ∀ path i, names path = some (.session i) ↔ s.names path = some (.session i)) :
    Consistent { s with names := names } :=
  ⟨h.paths, h.live, h.writer, h.readers, h.exclusive,
    fun path i hname => h.names path i ((hnames path i).mp hname),
    fun path i phase hi hholds => (hnames path i).mpr (h.held path i phase hi hholds)⟩

theorem session_update_iff {path : π} {owner : Option NameOwner}
    (hold : ∀ i, s.names path ≠ some (.session i)) (hnew : ∀ i, owner ≠ some (.session i))
    (path' : π) (i : Nat) : Function.update s.names path owner path' = some (.session i) ↔
      s.names path' = some (.session i) := by
  by_cases heq : path' = path
  · subst heq
    rw [Function.update_self]
    exact iff_of_false (hnew i) (hold i)
  · rw [Function.update_of_ne heq]

theorem consistent_occupy (h : Consistent s) (path : π) : Consistent (s.occupy path) := by
  unfold occupy
  split
  · rename_i hfree
    refine h.rename (session_update_iff ?_ fun _ hno => nomatch hno)
    exact fun i hno => nomatch hfree.symm.trans hno
  · exact h

theorem consistent_vacate (h : Consistent s) (path : π) : Consistent (s.vacate path) := by
  unfold vacate
  split
  · rename_i hother
    refine h.rename (session_update_iff ?_ fun _ hno => nomatch hno)
    exact fun i hno => nomatch hother.symm.trans hno
  · exact h

/-- A lookup goes on; only readers of the lock are counted. -/
theorem Consistent.look (h : Consistent s) {j : Nat} {was now : LookupPhase π} {readers : Nat}
    (hj : s.lookups[j]? = some was)
    (hreaders : readers + (if was.reads then 1 else 0) = s.readers + (if now.reads then 1 else 0))
    (hexclusive : s.writer = true → readers = 0) :
    Consistent ({ s with readers := readers }.setLookup j now) := by
  refine ⟨h.paths, h.live, h.writer, ?_, hexclusive, h.names, h.held⟩
  have hcount := countP_set_add LookupPhase.reads now hj
  rw [h.readers] at hcount
  show (s.lookups.set j now).countP LookupPhase.reads = readers
  omega

theorem consistent_lookupStep (h : Consistent s) (j : Nat) : Consistent (s.lookupStep j).1 := by
  unfold lookupStep
  split
  · rename_i path hj
    split
    · exact h.look hj rfl h.exclusive
    · exact h.look hj rfl h.exclusive
  · rename_i path hj
    split
    · exact h.look hj rfl h.exclusive
    · exact h.look hj rfl h.exclusive
  · rename_i path hj
    split
    · exact h
    · rename_i hwriter
      exact h.look hj rfl fun hno => absurd hno hwriter
  · rename_i path hj
    exact h.look hj rfl h.exclusive
  · rename_i hj
    have hpos : 0 < s.lookups.countP LookupPhase.reads :=
      List.countP_pos_iff.mpr ⟨_, List.mem_of_getElem? hj, rfl⟩
    rw [h.readers] at hpos
    refine h.look hj ?_ fun hwriter => ?_
    · show s.readers - 1 + 1 = s.readers + 0
      omega
    · have hnone := h.exclusive hwriter
      omega
  · exact h

theorem getElem?_concat_cases {α : Type} {l : List α} {a b : α} {i : Nat}
    (h : (l ++ [a])[i]? = some b) : l[i]? = some b ∨ a = b := by
  rw [List.getElem?_append] at h
  split at h
  · exact Or.inl h
  · exact Or.inr (List.mem_singleton.mp (List.mem_of_getElem? h)).symm

theorem consistent_step (h : Consistent s) (action : RegistryAction π) :
    Consistent (machine.step s action).1 := by
  cases action with
  | register path =>
    have hsame {p : GuardPhase π → Bool} (hp : p (.asking path) = false) :
        (s.guards ++ [GuardPhase.asking path]).countP p = s.guards.countP p := by
      rw [List.countP_append, List.countP_singleton, hp]
      rfl
    refine ⟨fun path' => ?_, ?_, ?_, h.readers, h.exclusive, fun path' i hname => ?_,
      fun path' i phase hi hholds => ?_⟩
    · have hcount := @hsame (GuardPhase.counts path') rfl
      show s.paths path' =
        if (s.guards ++ [GuardPhase.asking path]).countP (GuardPhase.counts path') = 0 then none
        else some ((s.guards ++ [GuardPhase.asking path]).countP (GuardPhase.counts path'))
      rw [hcount]
      exact h.paths path'
    · exact h.live.trans (hsame rfl).symm
    · exact (hsame rfl).trans h.writer
    · obtain ⟨phase, hi, hholds⟩ := h.names path' i hname
      obtain ⟨hlt, -⟩ := List.getElem?_eq_some_iff.mp hi
      exact ⟨phase, (List.getElem?_append_left hlt).trans hi, hholds⟩
    · rcases getElem?_concat_cases hi with hi | rfl
      · exact h.held path' i phase hi hholds
      · cases hholds
  | guard i => exact consistent_guardStep h i
  | hold i => exact consistent_hold h i
  | drop i => exact consistent_drop h i
  | contains path =>
    refine ⟨h.paths, h.live, h.writer, ?_, h.exclusive, h.names, h.held⟩
    exact (List.countP_append.trans (Nat.add_zero _)).trans h.readers
  | containsIn path =>
    refine ⟨h.paths, h.live, h.writer, ?_, h.exclusive, h.names, h.held⟩
    exact (List.countP_append.trans (Nat.add_zero _)).trans h.readers
  | lookup j => exact consistent_lookupStep h j
  | occupy path => exact consistent_occupy h path
  | vacate path => exact consistent_vacate h path

theorem consistent_run {names : π → Option NameOwner}
    (hnames : ∀ path i, names path ≠ some (.session i)) (calls : List (RegistryAction π)) :
    Consistent (machine.run (start names) calls) :=
  machine.run_invariant (consistent_start hnames) (fun _ action h => consistent_step h action) calls

/-! ## What a lookup answers -/

theorem isLive_of_inForce {path : π} {phase : GuardPhase π} (h : phase.inForce path = true) :
    phase.isLive = true := by
  cases phase <;> first | rfl | cases h

theorem isLive_of_holds {path : π} {phase : GuardPhase π} (h : phase.holds path = true) :
    phase.isLive = true := by
  cases phase <;> first | rfl | cases h

theorem inForce_of_counts {path : π} {phase : GuardPhase π} (hlocks : phase.locks = false) :
    phase.counts path = phase.inForce path := by
  cases phase <;> first | rfl | cases hlocks

theorem inForce_of_holds {path : π} {phase : GuardPhase π} (hlocks : phase.locks = false)
    (h : phase.holds path = true) : phase.inForce path = true := by
  cases phase with
  | registered p held => exact (Bool.and_eq_true_iff.mp h).2
  | dropping p held => exact (Bool.and_eq_true_iff.mp h).2
  | closing p held => cases hlocks
  | _ => cases h

theorem Consistent.not_live (h : Consistent s) (hlive : s.live = 0) {phase : GuardPhase π}
    (hi : s.guards[i]? = some phase) : phase.isLive = false := by
  rw [h.live, List.countP_eq_zero] at hlive
  exact Bool.eq_false_iff.mpr (hlive phase (List.mem_of_getElem? hi))

theorem Consistent.not_locks (h : Consistent s) {j : Nat} {path : π}
    (hj : s.lookups[j]? = some (.reading path)) {phase : GuardPhase π}
    (hi : s.guards[i]? = some phase) : phase.locks = false := by
  have hreaders : 0 < s.lookups.countP LookupPhase.reads :=
    List.countP_pos_iff.mpr ⟨_, List.mem_of_getElem? hj, rfl⟩
  rw [h.readers] at hreaders
  have hwriter : s.writer = false := by
    rw [Bool.eq_false_iff]
    intro hwriter
    rw [h.exclusive hwriter] at hreaders
    exact Nat.lt_irrefl 0 hreaders
  have hnone := h.writer
  rw [hwriter, if_neg Bool.false_ne_true, List.countP_eq_zero] at hnone
  exact Bool.eq_false_iff.mpr (hnone phase (List.mem_of_getElem? hi))

theorem Consistent.isSome_paths (h : Consistent s) (path : π) :
    (s.paths path).isSome = true ↔
      ∃ (i : Nat) (phase : GuardPhase π), s.guards[i]? = some phase ∧ phase.counts path = true := by
  rw [h.paths path]
  constructor
  · intro hsome
    split at hsome
    · cases hsome
    · rename_i hcount
      obtain ⟨phase, hmem, hcounts⟩ := List.countP_pos_iff.mp (Nat.pos_of_ne_zero hcount)
      obtain ⟨i, hi⟩ := List.getElem?_of_mem hmem
      exact ⟨i, phase, hi, hcounts⟩
  · rintro ⟨i, phase, hi, hcounts⟩
    have hpos : 0 < s.guards.countP (GuardPhase.counts path) :=
      List.countP_pos_iff.mpr ⟨phase, List.mem_of_getElem? hi, hcounts⟩
    rw [if_neg (Nat.pos_iff_ne_zero.mp hpos)]
    rfl

/-- The answer is right when it is given. -/
structure Answers (s : PrivateFiles π) (path : π) (answer : Bool) : Prop where
  inForce_iff : answer = true ↔
    ∃ (i : Nat) (phase : GuardPhase π), s.guards[i]? = some phase ∧ phase.inForce path = true
  session : ∀ i, s.names path = some (.session i) → answer = true

theorem Consistent.answers_none (h : Consistent s) (hlive : s.live = 0) (path : π) :
    Answers s path false := by
  constructor
  · refine iff_of_false Bool.false_ne_true ?_
    rintro ⟨i, phase, hi, hforce⟩
    exact Bool.eq_false_iff.mp (h.not_live hlive hi) (isLive_of_inForce hforce)
  · intro i hname
    obtain ⟨phase, hi, hholds⟩ := h.names path i hname
    exact absurd (isLive_of_holds hholds) (Bool.eq_false_iff.mp (h.not_live hlive hi))

theorem Consistent.answers_read (h : Consistent s) {j : Nat} {path : π}
    (hj : s.lookups[j]? = some (.reading path)) : Answers s path (s.paths path).isSome := by
  have hiff : (s.paths path).isSome = true ↔
      ∃ (i : Nat) (phase : GuardPhase π), s.guards[i]? = some phase ∧ phase.inForce path = true := by
    rw [h.isSome_paths path]
    refine exists_congr fun i => exists_congr fun phase => and_congr_right fun hi => ?_
    rw [inForce_of_counts (h.not_locks hj hi)]
  refine ⟨hiff, fun i hname => hiff.mpr ?_⟩
  obtain ⟨phase, hi, hholds⟩ := h.names path i hname
  exact ⟨i, phase, hi, inForce_of_holds (h.not_locks hj hi) hholds⟩

/-- Whoever asks, in whatever order guards, lookups and other processes take their steps, is told
that a path is the session's own exactly when a registration of it is in force at that moment, and
always when the name is that of a file the session has open. -/
theorem lookup_answers (names : π → Option NameOwner)
    (hnames : ∀ path i, names path ≠ some (.session i)) (calls : List (RegistryAction π)) (j : Nat)
    {path : π} {answer : Bool}
    (hanswer : (machine.step (machine.run (start names) calls) (.lookup j)).2 = some (path, answer)) :
    Answers (machine.run (start names) calls) path answer := by
  have h := consistent_run hnames calls
  generalize machine.run (start names) calls = s at *
  change (s.lookupStep j).2 = _ at hanswer
  unfold lookupStep at hanswer
  split at hanswer
  · split at hanswer
    · rename_i hlive
      cases hanswer
      exact h.answers_none hlive path
    · cases hanswer
  · split at hanswer
    · rename_i hlive
      cases hanswer
      exact h.answers_none hlive path
    · cases hanswer
  · split at hanswer <;> cases hanswer
  · rename_i hj
    cases hanswer
    exact h.answers_read hj
  · cases hanswer
  · cases hanswer

/-- A path is registered, its file is made, and a lookup that waited for the lock finds it. -/
def spillLife : List (RegistryAction Nat) :=
  [.register 7, .guard 0, .guard 0, .containsIn 7, .guard 0, .lookup 0, .lookup 0, .lookup 0,
    .guard 0, .hold 0, .lookup 0]

theorem lookup_answers_spill : Answers (machine.run (start fun _ => none) spillLife) 7 true :=
  lookup_answers (fun _ => none) (fun _ _ h => nomatch h) spillLife 0 (by decide)

/-- When every guard is gone nothing is left behind. -/
theorem Consistent.released (h : Consistent s) (hgone : ∀ phase ∈ s.guards, phase = .gone) :
    s.live = 0 ∧ s.writer = false ∧ ∀ path, s.paths path = none := by
  have hnone {p : GuardPhase π → Bool} (hp : p .gone = false) : s.guards.countP p = 0 := by
    refine List.countP_eq_zero.mpr fun phase hphase => ?_
    rw [hgone phase hphase, hp]
    exact Bool.false_ne_true
  refine ⟨h.live.trans (hnone rfl), ?_, fun path => ?_⟩
  · have hwriter := h.writer
    rw [hnone rfl] at hwriter
    cases hw : s.writer with
    | false => rfl
    | true =>
      rw [hw] at hwriter
      cases hwriter
  · rw [h.paths path, hnone rfl]
    rfl

end PrivateFiles

end Excise
