import Excise.Lib.Keyed
import Excise.Store.Doubts

/-!
# The recursive fold of a tree of observations

What the summary of a directory is to say, by recursion over the tree: the directory's own metrics
with the totals of its children added in path order. The observations form a tree when each lies
directly in the root or in a directory observed before it.
-/

namespace Excise
set_option autoImplicit false

namespace RelativePath

theorem depth_of_child {p q : RelativePath} (h : p.isDirectChildOf q = true) :
    p.depth = q.depth + 1 := by
  rw [isDirectChildOf, Bool.and_eq_true] at h
  exact of_decide_eq_true h.1

theorem startsWith_of_child {p q : RelativePath} (h : p.isDirectChildOf q = true) :
    p.startsWith q = true := by
  rw [isDirectChildOf, Bool.and_eq_true] at h
  exact h.2

theorem depth_le_of_startsWith {p q : RelativePath} (h : p.startsWith q = true) :
    q.depth ≤ p.depth := ((startsWith_iff p q).mp h).length_le

theorem startsWith_of_depth_le {p q r : RelativePath} (hq : p.startsWith q = true)
    (hr : p.startsWith r = true) (h : r.depth ≤ q.depth) : q.startsWith r = true := by
  rw [startsWith_iff] at hq hr ⊢
  exact List.prefix_of_prefix_length_le hr hq h

theorem eq_of_startsWith_of_depth {p q r : RelativePath} (hq : p.startsWith q = true)
    (hr : p.startsWith r = true) (h : q.depth = r.depth) : q = r :=
  startsWith_antisymm (startsWith_of_depth_le hq hr (Nat.le_of_eq h.symm))
    (startsWith_of_depth_le hr hq (Nat.le_of_eq h))

theorem ne_of_child {p q : RelativePath} (h : p.isDirectChildOf q = true) : q ≠ p := by
  rintro rfl
  exact absurd (depth_of_child h) (Nat.succ_ne_self _).symm

theorem ne_root_of_child {p q : RelativePath} (h : p.isDirectChildOf q = true) : p ≠ root := by
  rintro rfl
  exact absurd (depth_of_child h) (Nat.succ_ne_zero _).symm

end RelativePath

/-! ## The fold -/

/-- The observations directly in `path`, in the order of the stream. -/
def childrenOf (observations : List PathObservation) (path : RelativePath) : List PathObservation :=
  observations.filter fun o => o.path.isDirectChildOf path

def deepest (observations : List PathObservation) : Nat :=
  observations.foldr (fun o deep => max o.path.depth deep) 0

theorem depth_le_deepest {observations : List PathObservation} {o : PathObservation}
    (h : o ∈ observations) : o.path.depth ≤ deepest observations := by
  induction observations with
  | nil => cases h
  | cons x rest ih =>
    rcases List.mem_cons.mp h with rfl | h
    · exact Nat.le_max_left _ _
    · exact Nat.le_trans (ih h) (Nat.le_max_right _ _)

theorem mem_childrenOf {observations : List PathObservation} {o : PathObservation}
    {path : RelativePath} :
    o ∈ childrenOf observations path ↔ o ∈ observations ∧ o.path.isDirectChildOf path = true :=
  List.mem_filter

theorem deepest_sub_lt {observations : List PathObservation} {d : OpenDirectory}
    {o : PathObservation} (ho : o ∈ childrenOf observations d.path) :
    deepest observations - o.path.depth < deepest observations - d.path.depth := by
  have hdepth := RelativePath.depth_of_child (mem_childrenOf.mp ho).2
  have hle := depth_le_deepest (mem_childrenOf.mp ho).1
  omega

/-- A directory with everything below it: a file or link contributes its own metrics, a child
directory its total. -/
def foldDirectory (u : UnreadableDirectories) (observations : List PathObservation)
    (d : OpenDirectory) : OpenDirectory :=
  ((childrenOf observations d.path).attach.foldl (fun (dir : OpenDirectory) ⟨o, ho⟩ =>
    match o.kind with
    | .Directory =>
      have : deepest observations - o.path.depth < deepest observations - d.path.depth :=
        deepest_sub_lt ho
      let total := foldDirectory u observations (.fromObservation o)
      dir.addChild total.metrics total.coverage
    | .File | .Link => dir.addChild o.metrics o.coverage) d).forceUncertainIfUnreadable u
termination_by deepest observations - d.path.depth

/-- What `o` adds to the directory that holds it. -/
def addEntry (u : UnreadableDirectories) (observations : List PathObservation) (dir : OpenDirectory)
    (o : PathObservation) : OpenDirectory :=
  match o.kind with
  | .Directory =>
    let total := foldDirectory u observations (.fromObservation o)
    dir.addChild total.metrics total.coverage
  | .File | .Link => dir.addChild o.metrics o.coverage

theorem foldDirectory_eq (u : UnreadableDirectories) (observations : List PathObservation)
    (d : OpenDirectory) :
    foldDirectory u observations d =
      ((childrenOf observations d.path).foldl (addEntry u observations) d).forceUncertainIfUnreadable
        u := by
  have hattach (l : List PathObservation) : l.foldl (addEntry u observations) d =
      l.attach.foldl (fun dir o => addEntry u observations dir o.1) d := by
    rw [List.foldl_attach]
  rw [foldDirectory, hattach]
  rfl

theorem addEntry_path (u : UnreadableDirectories) (observations : List PathObservation)
    (dir : OpenDirectory) (o : PathObservation) :
    (addEntry u observations dir o).path = dir.path := by
  unfold addEntry
  cases o.kind <;> rfl

theorem foldl_addEntry_path (u : UnreadableDirectories) (observations l : List PathObservation)
    (dir : OpenDirectory) : (l.foldl (addEntry u observations) dir).path = dir.path := by
  induction l generalizing dir with
  | nil => rfl
  | cons o l ih => rw [List.foldl_cons, ih, addEntry_path]

theorem foldDirectory_path (u : UnreadableDirectories) (observations : List PathObservation)
    (d : OpenDirectory) : (foldDirectory u observations d).path = d.path := by
  rw [foldDirectory_eq, OpenDirectory.forceUncertainIfUnreadable_path, foldl_addEntry_path]

theorem childrenOf_append (observations more : List PathObservation) (path : RelativePath) :
    childrenOf (observations ++ more) path =
      childrenOf observations path ++ childrenOf more path := List.filter_append _ _

theorem childrenOf_single_of_not {o : PathObservation} {path : RelativePath}
    (h : o.path.isDirectChildOf path = false) : childrenOf [o] path = [] := by
  simp only [childrenOf, List.filter_cons, h, Bool.false_eq_true, if_false, List.filter_nil]

theorem childrenOf_single {o : PathObservation} {path : RelativePath}
    (h : o.path.isDirectChildOf path = true) : childrenOf [o] path = [o] := by
  simp only [childrenOf, List.filter_cons, h, if_true, List.filter_nil]

theorem foldl_addEntry_congr {u : UnreadableDirectories}
    {observations observations' l : List PathObservation}
    (h : ∀ o ∈ l, o.kind = .Directory → foldDirectory u observations (.fromObservation o) =
      foldDirectory u observations' (.fromObservation o)) (dir : OpenDirectory) :
    l.foldl (addEntry u observations) dir = l.foldl (addEntry u observations') dir := by
  induction l generalizing dir with
  | nil => rfl
  | cons o l ih =>
    have hhead : addEntry u observations dir o = addEntry u observations' dir o := by
      unfold addEntry
      cases hk : o.kind with
      | Directory => rw [h o List.mem_cons_self hk]
      | File => rfl
      | Link => rfl
    rw [List.foldl_cons, List.foldl_cons, hhead]
    exact ih (fun x hx => h x (List.mem_cons_of_mem _ hx)) _

/-- An observation elsewhere changes nothing. -/
theorem foldDirectory_append {u : UnreadableDirectories} {observations : List PathObservation}
    {o : PathObservation} {d : OpenDirectory} (h : o.path.startsWith d.path = false) :
    foldDirectory u (observations ++ [o]) d = foldDirectory u observations d := by
  -- a child lies deeper, and `o` is not below it either
  induction hn : deepest observations - d.path.depth using Nat.strong_induction_on generalizing d with
  | _ n ih =>
    have hchildren : childrenOf (observations ++ [o]) d.path = childrenOf observations d.path := by
      have hnot : o.path.isDirectChildOf d.path = false :=
        Bool.eq_false_iff.mpr fun hc => Bool.eq_false_iff.mp h (RelativePath.startsWith_of_child hc)
      rw [childrenOf_append, childrenOf_single_of_not hnot, List.append_nil]
    rw [foldDirectory_eq, foldDirectory_eq, hchildren]
    congr 1
    refine foldl_addEntry_congr (fun x hx _ => ?_) d
    obtain ⟨hmem, hchild⟩ := mem_childrenOf.mp hx
    have hdepth := RelativePath.depth_of_child hchild
    have hdeep := depth_le_deepest hmem
    refine ih (deepest observations - x.path.depth) (by omega) ?_ rfl
    show o.path.startsWith x.path = false
    exact Bool.eq_false_iff.mpr fun hs => Bool.eq_false_iff.mp h
      (RelativePath.startsWith_trans hs (RelativePath.startsWith_of_child hchild))

/-! ## Doubts of the fold -/

theorem Doubt.about_forced_iff {d : Doubt} (u : UnreadableDirectories) {dir : OpenDirectory} :
    d.Of (dir.forceUncertainIfUnreadable u).intoSummary ↔
      d.About dir.coverage dir.metrics ∨ u.contains dir.path = true := by
  by_cases hu : u.contains dir.path = true
  · refine ⟨fun _ => Or.inr hu, fun _ => ?_⟩
    rw [OpenDirectory.forceUncertainIfUnreadable, if_pos hu]
    cases d <;> rfl
  · rw [OpenDirectory.forceUncertainIfUnreadable, if_neg hu]
    exact (or_iff_left hu).symm

/-- `o` passes the doubt to the directory that holds it. -/
def Doubt.Passes (d : Doubt) (u : UnreadableDirectories) (observations : List PathObservation)
    (o : PathObservation) : Prop :=
  match o.kind with
  | .Directory => d.Of (foldDirectory u observations (.fromObservation o)).intoSummary
  | .File | .Link => d.About o.coverage o.metrics

theorem Doubt.about_addEntry {d : Doubt} {u : UnreadableDirectories}
    {observations : List PathObservation} {dir : OpenDirectory} {o : PathObservation} :
    d.About (addEntry u observations dir o).coverage (addEntry u observations dir o).metrics ↔
      d.About dir.coverage dir.metrics ∨ d.Passes u observations o := by
  unfold addEntry Passes
  cases o.kind <;> exact about_addChild

theorem Doubt.about_foldl {d : Doubt} {u : UnreadableDirectories}
    {observations l : List PathObservation} {dir : OpenDirectory} :
    d.About (l.foldl (addEntry u observations) dir).coverage
        (l.foldl (addEntry u observations) dir).metrics ↔
      d.About dir.coverage dir.metrics ∨ ∃ o ∈ l, d.Passes u observations o := by
  induction l generalizing dir with
  | nil => simp
  | cons o l ih => rw [List.foldl_cons, ih, about_addEntry, List.exists_mem_cons_iff, or_assoc]

/-- What is recorded strictly below `f` lies in an entry directly in `f`. -/
theorem TreeShaped.child_above {observations : List PathObservation} (h : TreeShaped observations)
    {o : PathObservation} (ho : o ∈ observations) {f : RelativePath}
    (hf : o.path.startsWith f = true) (hne : f ≠ o.path) :
    ∃ c ∈ observations, c.path.isDirectChildOf f = true ∧ o.path.startsWith c.path = true ∧
      (c = o ∨ c.kind = .Directory) := by
  induction hn : o.path.depth using Nat.strong_induction_on generalizing o with
  | _ n ih =>
    obtain ⟨q, hchild, hq⟩ := h.parents o ho
    have hup := RelativePath.startsWith_parent hchild hf hne
    by_cases heq : f = q
    · exact ⟨o, ho, heq ▸ hchild, RelativePath.startsWith_refl _, Or.inl rfl⟩
    · rcases hq with rfl | ⟨x, hx, hk, rfl⟩
      · exact absurd (RelativePath.startsWith_antisymm f.startsWith_root hup) heq
      · have hdepth := RelativePath.depth_of_child hchild
        obtain ⟨c, hc, hcf, hxc, hkind⟩ := ih x.path.depth (by omega) hx hup heq rfl
        refine ⟨c, hc, hcf, RelativePath.startsWith_trans
          (RelativePath.startsWith_of_child hchild) hxc, Or.inr ?_⟩
        rcases hkind with rfl | hkind
        · exact hk
        · exact hkind

/-- A directory at or below `f` could not be listed. -/
def UnreadableUnder (u : UnreadableDirectories) (observations : List PathObservation)
    (f : RelativePath) : Prop :=
  u.contains f = true ∨
    ∃ o ∈ observations, o.kind = .Directory ∧ o.path.startsWith f = true ∧ u.contains o.path = true

/-- The fold of a directory is in doubt for its own metrics, for an observation below it, or for a
directory of the subtree that could not be listed. -/
theorem TreeShaped.foldDirectory_doubt {observations : List PathObservation}
    (h : TreeShaped observations) (u : UnreadableDirectories) (d : Doubt) (dir : OpenDirectory) :
    d.Of (foldDirectory u observations dir).intoSummary ↔
      d.About dir.coverage dir.metrics ∨
        (∃ o ∈ observations, o.path.startsWith dir.path = true ∧ dir.path ≠ o.path ∧
          d.About o.coverage o.metrics) ∨ UnreadableUnder u observations dir.path := by
  induction hn : deepest observations - dir.path.depth using Nat.strong_induction_on
    generalizing dir with
  | _ n ih =>
    have hstep : ∀ c ∈ childrenOf observations dir.path, c.kind = .Directory →
        (d.Passes u observations c ↔ d.About c.coverage c.metrics ∨
          (∃ o ∈ observations, o.path.startsWith c.path = true ∧ c.path ≠ o.path ∧
            d.About o.coverage o.metrics) ∨ UnreadableUnder u observations c.path) := by
      intro c hc hk
      obtain ⟨hmem, hchild⟩ := mem_childrenOf.mp hc
      have hdepth := RelativePath.depth_of_child hchild
      have hdeep := depth_le_deepest hmem
      have := ih (deepest observations - c.path.depth) (by omega) (.fromObservation c) rfl
      rw [Doubt.Passes, hk]
      exact this
    rw [foldDirectory_eq, Doubt.about_forced_iff, foldl_addEntry_path, Doubt.about_foldl]
    constructor
    · rintro ((hown | ⟨c, hc, hpass⟩) | hu)
      · exact Or.inl hown
      · obtain ⟨hmem, hchild⟩ := mem_childrenOf.mp hc
        have hunder := RelativePath.startsWith_of_child hchild
        have hbelow : d.About c.coverage c.metrics → ∃ o ∈ observations,
            o.path.startsWith dir.path = true ∧ dir.path ≠ o.path ∧
              d.About o.coverage o.metrics := fun habout =>
          ⟨c, hmem, hunder, RelativePath.ne_of_child hchild, habout⟩
        cases hk : c.kind with
        | Directory =>
          rcases (hstep c hc hk).mp hpass with habout | ⟨o, ho, hoc, hne, habout⟩ | hread
          · exact Or.inr (Or.inl (hbelow habout))
          · refine Or.inr (Or.inl ⟨o, ho, RelativePath.startsWith_trans hoc hunder, ?_, habout⟩)
            intro heq
            have h1 := RelativePath.depth_of_child hchild
            have h2 := RelativePath.depth_le_of_startsWith hoc
            rw [← heq] at h2
            omega
          · refine Or.inr (Or.inr (Or.inr ?_))
            rcases hread with hread | ⟨o, ho, hko, hoc, hread⟩
            · exact ⟨c, hmem, hk, hunder, hread⟩
            · exact ⟨o, ho, hko, RelativePath.startsWith_trans hoc hunder, hread⟩
        | File =>
          rw [Doubt.Passes, hk] at hpass
          exact Or.inr (Or.inl (hbelow hpass))
        | Link =>
          rw [Doubt.Passes, hk] at hpass
          exact Or.inr (Or.inl (hbelow hpass))
      · exact Or.inr (Or.inr (Or.inl hu))
    · rintro (hown | ⟨o, ho, hunder, hne, habout⟩ | hu | ⟨o, ho, hk, hunder, hu⟩)
      · exact Or.inl (Or.inl hown)
      · obtain ⟨c, hc, hchild, hoc, hkind⟩ := h.child_above ho hunder hne
        refine Or.inl (Or.inr ⟨c, mem_childrenOf.mpr ⟨hc, hchild⟩, ?_⟩)
        by_cases hk : c.kind = .Directory
        · refine (hstep c (mem_childrenOf.mpr ⟨hc, hchild⟩) hk).mpr ?_
          by_cases heq : c.path = o.path
          · obtain rfl := Keyed.eq_of_key_eq h.sorted.nodup_keys hc ho heq
            exact Or.inl habout
          · exact Or.inr (Or.inl ⟨o, ho, hoc, heq, habout⟩)
        · obtain rfl := hkind.resolve_right hk
          unfold Doubt.Passes
          cases hkc : c.kind with
          | Directory => exact absurd hkc hk
          | File => exact habout
          | Link => exact habout
      · exact Or.inr hu
      · by_cases heq : dir.path = o.path
        · exact Or.inr (heq ▸ hu)
        · obtain ⟨c, hc, hchild, hoc, hkind⟩ := h.child_above ho hunder heq
          have hkc : c.kind = .Directory := by
            rcases hkind with rfl | hkind
            · exact hk
            · exact hkind
          refine Or.inl (Or.inr ⟨c, mem_childrenOf.mpr ⟨hc, hchild⟩,
            (hstep c (mem_childrenOf.mpr ⟨hc, hchild⟩) hkc).mpr (Or.inr (Or.inr ?_))⟩)
          exact Or.inr ⟨o, ho, hk, hoc, hu⟩

end Excise
