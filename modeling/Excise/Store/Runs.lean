import Excise.Lib.KWayMerge
import Excise.Store.Manifest
import Mathlib.Algebra.BigOperators.Fin
import Mathlib.Data.List.FinRange

/-!
# Sealed runs, their merge and the run levels

`run_file.rs` as an append-only writer of strictly increasing keys, `run_merge.rs`, and the
base-eight merge pyramid `RunLevels` of `session.rs`. A run is the list of its records: the block
framing is not modelled, so reads and writes fail only as the environment says (`Io`).
-/

namespace Excise
set_option autoImplicit false

inductive IoErrorKind where
  | StorageFull
  | QuotaExceeded
  | Other
  deriving DecidableEq, Repr

inductive RunError where
  | Io (kind : IoErrorKind)
  | NonEmptyStart
  | ZeroBlockCapacity
  | RecordTooLarge
  | UnsortedKey
  | InvalidHeader
  | InvalidBlock
  | ChecksumMismatch
  | Truncated
  | TrailingData
  | AlreadyConsumed
  | UnindexedRange
  | CountOverflow
  | OffsetOverflow
  deriving DecidableEq, Repr

inductive RunMergeError where
  | Run (error : RunError)
  | DescriptorMismatch
  | DuplicateKey
  deriving DecidableEq, Repr

variable {ρ κ : Type} [LinearOrder κ]

structure SealedRun (key : ρ → κ) where
  descriptor : RunDescriptor
  records : List ρ
  sorted : SortedBy key records

structure RunWriter (key : ρ → κ) where
  descriptor : RunDescriptor
  records : List ρ
  sorted : SortedBy key records

variable {key : ρ → κ}

namespace RunWriter

def new (descriptor : RunDescriptor) : RunWriter key := ⟨descriptor, [], .nil⟩

/-- `has_key` and `last_key`. -/
def lastKey (w : RunWriter key) : Option κ := w.records.getLast?.map key

theorem le_lastKey {w : RunWriter key} {k : κ} (h : w.lastKey = some k) :
    ∀ x ∈ w.records, key x ≤ k := by
  intro x hx
  have hk : ∃ y, w.records.getLast? = some y ∧ key y = k := by
    rwa [lastKey, Option.map_eq_some_iff] at h
  obtain ⟨y, hy, rfl⟩ := hk
  obtain ⟨pre, hpre⟩ := List.getLast?_eq_some_iff.mp hy
  have hs := w.sorted
  rw [hpre] at hs hx
  rcases List.mem_append.mp hx with hx | hx
  · exact le_of_lt ((List.pairwise_append.mp hs).2.2 x hx y (List.mem_singleton_self y))
  · rw [List.mem_singleton.mp hx]

theorem sorted_append {w : RunWriter key} {r : ρ} (h : ∀ k, w.lastKey = some k → k < key r) :
    SortedBy key (w.records ++ [r]) := by
  refine List.pairwise_append.mpr ⟨w.sorted, List.pairwise_singleton _ _, ?_⟩
  intro x hx y hy
  rw [List.mem_singleton.mp hy]
  obtain ⟨z, hz⟩ := List.getLast?_isSome.mpr (List.ne_nil_of_mem hx) |> Option.isSome_iff_exists.mp
  have hl : w.lastKey = some (key z) := by rw [lastKey, hz]; rfl
  exact lt_of_le_of_lt (le_lastKey hl x hx) (h _ hl)

def append (w : RunWriter key) (r : ρ) : Except RunError (RunWriter key) :=
  if h : ∀ k, w.lastKey = some k → k < key r then
    .ok ⟨w.descriptor, w.records ++ [r], sorted_append h⟩
  else .error .UnsortedKey

theorem append_of_sorted {w : RunWriter key} {r : ρ} {rest : List ρ}
    (h : SortedBy key (w.records ++ r :: rest)) :
    ∃ w', w.append r = .ok w' ∧ w'.records = w.records ++ [r] := by
  have hlast : ∀ k, w.lastKey = some k → k < key r := by
    intro k hk
    rw [lastKey, Option.map_eq_some_iff] at hk
    obtain ⟨x, hx, rfl⟩ := hk
    exact (List.pairwise_append.mp h).2.2 x (List.mem_of_getLast? hx) r List.mem_cons_self
  unfold append
  rw [dif_pos hlast]
  exact ⟨_, rfl, rfl⟩

theorem append_eq_ok {w w' : RunWriter key} {r : ρ} (h : w.append r = .ok w') :
    (∀ k, w.lastKey = some k → k < key r) ∧ w'.descriptor = w.descriptor ∧
      w'.records = w.records ++ [r] := by
  unfold append at h
  split at h
  · rename_i hlast
    cases h
    exact ⟨hlast, rfl, rfl⟩
  · cases h

theorem append_eq_error {w : RunWriter key} {r : ρ} {e : RunError} (h : w.append r = .error e) :
    e = .UnsortedKey ∧ ∃ k, w.lastKey = some k ∧ key r ≤ k := by
  unfold append at h
  split at h
  · cases h
  · rename_i hlast
    cases h
    refine ⟨rfl, ?_⟩
    simpa using hlast

def sealRun (w : RunWriter key) : SealedRun key := ⟨w.descriptor, w.records, w.sorted⟩

end RunWriter

/-! ## Merging -/

/-- The loop of `merge_sorted_runs`; `popMin` is `next_record_index` followed by the advance of
that input. -/
def mergeLoop (previousKey : Option κ) (inputs : List (List ρ)) (output : RunWriter key) :
    Except RunMergeError (RunWriter key) :=
  match _h : popMin key inputs with
  | none => .ok output
  | some (record, rest) =>
    if previousKey = some (key record) then .error .DuplicateKey
    else
      match output.append record with
      | .error e => .error (.Run e)
      | .ok output => mergeLoop (some (key record)) rest output
termination_by inputs.flatten.length
decreasing_by exact popMin_length _h

def mergeSortedRuns (inputs : List (SealedRun key)) (output : RunWriter key) :
    Except RunMergeError (RunWriter key) :=
  if inputs.any fun input => decide (input.descriptor.generation ≠ output.descriptor.generation) ||
      decide (input.descriptor.kind ≠ output.descriptor.kind) then
    .error .DescriptorMismatch
  else mergeLoop none (inputs.map SealedRun.records) output

/-- What the loop knows of the output: its last key is the previous key, a lower bound of what
the inputs still hold. -/
def MergeReady (previousKey : Option κ) (inputs : List (List ρ)) (output : RunWriter key) : Prop :=
  (∀ l ∈ inputs, SortedBy key l) ∧ output.lastKey = previousKey ∧
    ∀ k, previousKey = some k → ∀ x ∈ inputs.flatten, k ≤ key x

theorem mergeLoop_spec {previousKey : Option κ} {inputs : List (List ρ)} {output : RunWriter key}
    (hready : MergeReady previousKey inputs output) :
    (((output.records ++ inputs.flatten).map key).Nodup ∧
        ∃ w, mergeLoop previousKey inputs output = .ok w ∧ w.descriptor = output.descriptor ∧
          w.records.Perm (output.records ++ inputs.flatten)) ∨
      (¬((output.records ++ inputs.flatten).map key).Nodup ∧
        mergeLoop previousKey inputs output = .error .DuplicateKey) := by
  induction hn : inputs.flatten.length using Nat.strong_induction_on
    generalizing previousKey inputs output with
  | _ n ih =>
    obtain ⟨hsorted, hlast, hle⟩ := hready
    rw [mergeLoop]
    split
    · -- every input is exhausted
      rename_i hnone
      rw [popMin_eq_none hnone, List.append_nil]
      exact Or.inl ⟨output.sorted.nodup_keys, output, rfl, rfl, List.Perm.refl _⟩
    · rename_i record rest hpop
      have hperm := popMin_perm hpop
      have hmin := popMin_le hpop hsorted
      have hmem : record ∈ inputs.flatten := hperm.subset List.mem_cons_self
      by_cases hdup : previousKey = some (key record)
      · -- the key just written comes again
        rw [if_pos hdup]
        refine Or.inr ⟨?_, rfl⟩
        rw [hdup, RunWriter.lastKey, Option.map_eq_some_iff] at hlast
        obtain ⟨y, hy, hkey⟩ := hlast
        intro hnodup
        rw [List.map_append, List.nodup_append] at hnodup
        exact hnodup.2.2 (key y) (List.mem_map_of_mem (List.mem_of_getLast? hy)) (key record)
          (List.mem_map_of_mem hmem) hkey
      · rw [if_neg hdup]
        have hlt : ∀ k, output.lastKey = some k → k < key record := by
          intro k hk
          rw [hlast] at hk
          refine lt_of_le_of_ne (hle k hk record hmem) ?_
          rintro rfl
          exact hdup hk
        have happ : output.append record =
            .ok ⟨output.descriptor, output.records ++ [record], RunWriter.sorted_append hlt⟩ := by
          rw [RunWriter.append, dif_pos hlt]
        rw [happ]
        have hshift : ((output.records ++ [record]) ++ rest.flatten).Perm
            (output.records ++ inputs.flatten) := by
          rw [List.append_assoc, List.singleton_append]
          exact hperm.append_left _
        have hready' : MergeReady (some (key record)) rest
            (⟨output.descriptor, output.records ++ [record], RunWriter.sorted_append hlt⟩ :
              RunWriter key) := by
          refine ⟨popMin_sorted hpop hsorted, ?_, ?_⟩
          · simp [RunWriter.lastKey]
          · intro k hk x hx
            cases hk
            exact hmin x (hperm.subset (List.mem_cons_of_mem _ hx))
        rcases ih _ (hn ▸ popMin_length hpop) hready' rfl with ⟨hnd, w, hw, hd, hp⟩ | ⟨hnd, he⟩
        · exact Or.inl ⟨(hshift.map key).nodup_iff.mp hnd, w, hw, hd, hp.trans hshift⟩
        · exact Or.inr ⟨fun h => hnd ((hshift.map key).nodup_iff.mpr h), he⟩

/-- The runs of one family and the run they merge into carry the same generation and kind. -/
def SameFamily (generation : ScanGeneration) (kind : RunKind) (run : SealedRun key) : Prop :=
  run.descriptor.generation = generation ∧ run.descriptor.kind = kind

theorem mergeSortedRuns_spec {inputs : List (SealedRun key)} {output : RunDescriptor}
    (hf : ∀ run ∈ inputs, SameFamily output.generation output.kind run) :
    ((((inputs.map SealedRun.records).flatten.map key).Nodup ∧
        ∃ w, mergeSortedRuns inputs (RunWriter.new output) = .ok w ∧ w.descriptor = output ∧
          w.records.Perm (inputs.map SealedRun.records).flatten) ∨
      (¬((inputs.map SealedRun.records).flatten.map key).Nodup ∧
        mergeSortedRuns inputs (RunWriter.new output) = .error .DuplicateKey)) := by
  have hready : MergeReady none (inputs.map SealedRun.records)
      (RunWriter.new output : RunWriter key) := by
    refine ⟨?_, rfl, fun k hk => nomatch hk⟩
    intro l hl
    obtain ⟨run, -, rfl⟩ := List.mem_map.mp hl
    exact run.sorted
  have hany : ¬(inputs.any fun input =>
      decide (input.descriptor.generation ≠ (RunWriter.new output : RunWriter key).descriptor.generation) ||
      decide (input.descriptor.kind ≠ (RunWriter.new output : RunWriter key).descriptor.kind)) = true := by
    rw [List.any_eq_true]
    rintro ⟨run, hrun, h⟩
    have := hf run hrun
    simp [RunWriter.new, this.1, this.2] at h
  rw [mergeSortedRuns, if_neg hany]
  simpa [RunWriter.new] using mergeLoop_spec hready

/-! ## Run levels -/

/-- Each tier folds this many runs into one run of the next tier. -/
def maxActiveInputRuns : Nat := 8

def maxRunLevels : Nat := 22

structure RunLevels (key : ρ → κ) where
  levels : Fin maxRunLevels → List (SealedRun key)

namespace RunLevels

def empty : RunLevels key := ⟨fun _ => []⟩

def setLevel (l : RunLevels key) (i : Fin maxRunLevels) (runs : List (SealedRun key)) :
    RunLevels key := ⟨Function.update l.levels i runs⟩

def push (l : RunLevels key) (run : SealedRun key) : RunLevels key :=
  l.setLevel ⟨0, by decide⟩ (l.levels ⟨0, by decide⟩ ++ [run])

/-- The first level that holds a full fan-in. -/
def fullLevel (l : RunLevels key) : Option (Fin maxRunLevels) :=
  (List.finRange maxRunLevels).find? fun i => decide (maxActiveInputRuns ≤ (l.levels i).length)

def takeFullLevel (l : RunLevels key) :
    Option (Fin maxRunLevels × List (SealedRun key) × RunLevels key) :=
  l.fullLevel.map fun i => (i, l.levels i, l.setLevel i [])

/-- `none` is `RunLevelOverflow`. -/
def pushMerged (l : RunLevels key) (level : Fin maxRunLevels) (run : SealedRun key) :
    Option (RunLevels key) :=
  if h : level.val + 1 < maxRunLevels then
    some (l.setLevel ⟨level.val + 1, h⟩ (l.levels ⟨level.val + 1, h⟩ ++ [run]))
  else none

def intoRuns (l : RunLevels key) : List (SealedRun key) :=
  (List.finRange maxRunLevels).flatMap l.levels

/-- Every level holds fewer runs than the fan-in. -/
def Bounded (l : RunLevels key) : Prop := ∀ i, (l.levels i).length < maxActiveInputRuns

@[simp] theorem setLevel_self (l : RunLevels key) (i : Fin maxRunLevels)
    (runs : List (SealedRun key)) : (l.setLevel i runs).levels i = runs :=
  Function.update_self ..

theorem setLevel_of_ne (l : RunLevels key) {i j : Fin maxRunLevels} (runs : List (SealedRun key))
    (h : j ≠ i) : (l.setLevel i runs).levels j = l.levels j :=
  Function.update_of_ne h ..

theorem fullLevel_eq_none {l : RunLevels key} (h : l.fullLevel = none) : l.Bounded := by
  intro i
  have := List.find?_eq_none.mp h i (List.mem_finRange i)
  simpa using this

theorem fullLevel_eq_some {l : RunLevels key} {i : Fin maxRunLevels} (h : l.fullLevel = some i) :
    maxActiveInputRuns ≤ (l.levels i).length := by
  have := List.find?_some h
  simpa using this

theorem takeFullLevel_eq_none {l : RunLevels key} (h : l.takeFullLevel = none) : l.Bounded := by
  rw [takeFullLevel, Option.map_eq_none_iff] at h
  exact fullLevel_eq_none h

/-- Exchanging the content of one level exchanges it in the whole pyramid. -/
theorem setLevel_intoRuns (l : RunLevels key) (i : Fin maxRunLevels)
    (runs : List (SealedRun key)) :
    (l.levels i ++ (l.setLevel i runs).intoRuns).Perm (runs ++ l.intoRuns) := by
  have hp : (List.finRange maxRunLevels).Perm (i :: (List.finRange maxRunLevels).erase i) :=
    List.perm_cons_erase (List.mem_finRange i)
  have hrest : ((List.finRange maxRunLevels).erase i).flatMap (l.setLevel i runs).levels =
      ((List.finRange maxRunLevels).erase i).flatMap l.levels := by
    apply List.flatMap_congr
    intro j hj
    exact setLevel_of_ne l runs ((List.nodup_finRange maxRunLevels).mem_erase_iff.mp hj).1
  have h1 := hp.flatMap_right (l.setLevel i runs).levels
  have h2 := hp.flatMap_right l.levels
  rw [List.flatMap_cons, setLevel_self, hrest] at h1
  rw [List.flatMap_cons] at h2
  refine (h1.append_left _).trans (List.Perm.trans ?_ (h2.symm.append_left runs))
  rw [← List.append_assoc, ← List.append_assoc]
  exact List.perm_append_comm.append_right _

theorem setLevel_append_intoRuns (l : RunLevels key) (i : Fin maxRunLevels)
    (run : SealedRun key) :
    (l.setLevel i (l.levels i ++ [run])).intoRuns.Perm (run :: l.intoRuns) := by
  have h := setLevel_intoRuns l i (l.levels i ++ [run])
  rw [List.append_assoc] at h
  exact (List.perm_append_left_iff _).mp h

theorem push_intoRuns (l : RunLevels key) (run : SealedRun key) :
    (l.push run).intoRuns.Perm (run :: l.intoRuns) := setLevel_append_intoRuns l _ run

theorem takeFullLevel_spec {l rest : RunLevels key} {i : Fin maxRunLevels}
    {runs : List (SealedRun key)} (h : l.takeFullLevel = some (i, runs, rest)) :
    maxActiveInputRuns ≤ runs.length ∧ runs = l.levels i ∧ rest = l.setLevel i [] ∧
      (runs ++ rest.intoRuns).Perm l.intoRuns := by
  rw [takeFullLevel, Option.map_eq_some_iff] at h
  obtain ⟨j, hj, he⟩ := h
  cases he
  exact ⟨fullLevel_eq_some hj, rfl, rfl, setLevel_intoRuns l i []⟩

theorem pushMerged_intoRuns {l l' : RunLevels key} {i : Fin maxRunLevels} {run : SealedRun key}
    (h : l.pushMerged i run = some l') : l'.intoRuns.Perm (run :: l.intoRuns) := by
  unfold pushMerged at h
  split at h
  · cases h
    exact setLevel_append_intoRuns l _ run
  · cases h

theorem intoRuns_empty : (empty : RunLevels key).intoRuns = [] := by
  simp [intoRuns, empty]

/-- How many accepted runs the pyramid stands for: a run of level `i` stands for `8 ^ i`. -/
def weight (l : RunLevels key) : Nat :=
  ∑ i : Fin maxRunLevels, (l.levels i).length * maxActiveInputRuns ^ i.val

theorem weight_setLevel (l : RunLevels key) (i : Fin maxRunLevels)
    (runs : List (SealedRun key)) :
    (l.setLevel i runs).weight + (l.levels i).length * maxActiveInputRuns ^ i.val =
      l.weight + runs.length * maxActiveInputRuns ^ i.val := by
  have hsplit (m : RunLevels key) :
      m.weight = (∑ j ∈ Finset.univ.erase i, (m.levels j).length * maxActiveInputRuns ^ j.val) +
        (m.levels i).length * maxActiveInputRuns ^ i.val :=
    (Finset.sum_erase_add Finset.univ _ (Finset.mem_univ i)).symm
  have hrest : (∑ j ∈ Finset.univ.erase i,
        ((l.setLevel i runs).levels j).length * maxActiveInputRuns ^ j.val) =
      ∑ j ∈ Finset.univ.erase i, (l.levels j).length * maxActiveInputRuns ^ j.val := by
    apply Finset.sum_congr rfl
    intro j hj
    rw [setLevel_of_ne l runs (Finset.ne_of_mem_erase hj)]
  rw [hsplit (l.setLevel i runs), hsplit l, hrest, setLevel_self]
  omega

theorem weight_empty : (empty : RunLevels key).weight = 0 := by
  simp [weight, empty]

theorem weight_push (l : RunLevels key) (run : SealedRun key) :
    (l.push run).weight = l.weight + 1 := by
  have h := weight_setLevel l ⟨0, by decide⟩ (l.levels ⟨0, by decide⟩ ++ [run])
  simp only [pow_zero, List.length_append, List.length_singleton] at h
  rw [push]
  omega

/-- A full level folded into one run of the next level does not add weight. -/
theorem weight_pushMerged {l rest l' : RunLevels key} {i : Fin maxRunLevels}
    {runs : List (SealedRun key)} {run : SealedRun key}
    (ht : l.takeFullLevel = some (i, runs, rest)) (hp : rest.pushMerged i run = some l') :
    l'.weight ≤ l.weight := by
  obtain ⟨hlen, rfl, rfl, -⟩ := takeFullLevel_spec ht
  unfold pushMerged at hp
  split at hp
  · rename_i hlt
    cases hp
    have h1 := weight_setLevel l i []
    have h2 := weight_setLevel (l.setLevel i []) ⟨i.val + 1, hlt⟩
      ((l.setLevel i []).levels ⟨i.val + 1, hlt⟩ ++ [run])
    simp only [List.length_append, List.length_singleton, List.length_nil, Nat.zero_mul,
      Nat.add_mul, Nat.one_mul] at h1 h2
    have hpow : maxActiveInputRuns ^ (i.val + 1) ≤
        (l.levels i).length * maxActiveInputRuns ^ i.val := by
      rw [Nat.pow_succ, Nat.mul_comm]
      exact Nat.mul_le_mul_right _ hlen
    omega
  · cases hp

/-- Only a pyramid that stands for `8 ^ 22` runs can overflow its last level. -/
theorem pow_le_weight_of_overflow {l rest : RunLevels key} {i : Fin maxRunLevels}
    {runs : List (SealedRun key)} {run : SealedRun key}
    (ht : l.takeFullLevel = some (i, runs, rest)) (hp : rest.pushMerged i run = none) :
    maxActiveInputRuns ^ maxRunLevels ≤ l.weight := by
  obtain ⟨hlen, rfl, -, -⟩ := takeFullLevel_spec ht
  unfold pushMerged at hp
  split at hp
  · cases hp
  · rename_i hge
    have hi : maxActiveInputRuns ^ (i.val + 1) = maxActiveInputRuns ^ maxRunLevels := by
      have := i.isLt
      congr 1
      omega
    calc maxActiveInputRuns ^ maxRunLevels
        = maxActiveInputRuns * maxActiveInputRuns ^ i.val := by rw [← hi, Nat.pow_succ, Nat.mul_comm]
      _ ≤ (l.levels i).length * maxActiveInputRuns ^ i.val := Nat.mul_le_mul_right _ hlen
      _ ≤ l.weight := Finset.single_le_sum
          (f := fun j : Fin maxRunLevels => (l.levels j).length * maxActiveInputRuns ^ j.val)
          (fun _ _ => Nat.zero_le _) (Finset.mem_univ i)

end RunLevels

end Excise
