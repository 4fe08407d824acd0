import Excise.Store.DirectoryFold

/-!
# The reduction is the recursive fold

The open directories hold what the fold of the observations so far gives them, less the child that
is still open. A closed directory is left for good, so its total is the total of the whole stream;
and the emitted directories followed by the open ones, innermost first, keep their order.
-/

namespace Excise
set_option autoImplicit false

/-! ## The open directories -/

/-- The partial folds of a chain of open directories; `inner` is the child of the first that is not
added yet. -/
inductive Folding (u : UnreadableDirectories) (done : List PathObservation) :
    List PathObservation → List OpenDirectory → Prop where
  | root {inner closed : List PathObservation} (h : childrenOf done .root = closed ++ inner) :
    Folding u done inner [closed.foldl (addEntry u done) ⟨.root, .zero, .Complete⟩]
  | directory {inner closed : List PathObservation} {o : PathObservation}
    {rest : List OpenDirectory} (hk : o.kind = .Directory)
    (h : childrenOf done o.path = closed ++ inner) (hrest : Folding u done [o] rest) :
    Folding u done inner (closed.foldl (addEntry u done) (.fromObservation o) :: rest)

/-- A directory of the tree as it stands when it is opened. -/
def Seed (observations : List PathObservation) (d : OpenDirectory) : Prop :=
  d = ⟨.root, .zero, .Complete⟩ ∨
    ∃ o ∈ observations, o.kind = .Directory ∧ d = .fromObservation o

section
variable {u : UnreadableDirectories} {done : List PathObservation}

theorem Folding.mem {x : PathObservation} {stack : List OpenDirectory}
    (h : Folding u done [x] stack) : x ∈ done := by
  cases h with
  | root h => exact (mem_childrenOf.mp (h ▸ List.mem_append_right _ (List.mem_singleton_self x))).1
  | directory hk h hrest =>
    exact (mem_childrenOf.mp (h ▸ List.mem_append_right _ (List.mem_singleton_self x))).1

theorem Folding.take {x : PathObservation} {d : OpenDirectory} {rest : List OpenDirectory}
    (h : Folding u done [x] (d :: rest)) : Folding u done [] (addEntry u done d x :: rest) := by
  cases h with
  | @root _ closed h =>
    have := @Folding.root u done [] (closed ++ [x])
      (by rw [h, List.append_nil])
    rwa [List.foldl_append] at this
  | @directory _ closed o _ hk h hrest =>
    have := @Folding.directory u done [] (closed ++ [x]) _ _ hk
      (by rw [h, List.append_nil]) hrest
    rwa [List.foldl_append] at this

/-- A finished directory has its total, and the next one takes it. -/
theorem Folding.close {d parent : OpenDirectory} {rest : List OpenDirectory}
    (h : Folding u done [] (d :: parent :: rest)) :
    (∃ o ∈ done, o.kind = .Directory ∧
      d.forceUncertainIfUnreadable u = foldDirectory u done (.fromObservation o)) ∧
      Folding u done [] (parent.addChild (d.forceUncertainIfUnreadable u).metrics
        (d.forceUncertainIfUnreadable u).coverage :: rest) := by
  cases h with
  | @directory _ closed o _ hk h hrest =>
    rw [List.append_nil] at h
    have htotal : (closed.foldl (addEntry u done) (.fromObservation o)).forceUncertainIfUnreadable u
        = foldDirectory u done (.fromObservation o) := by
      rw [foldDirectory_eq, show (OpenDirectory.fromObservation o).path = o.path from rfl, h]
    refine ⟨⟨o, hrest.mem, hk, htotal⟩, ?_⟩
    have htake := hrest.take
    rw [addEntry, hk] at htake
    rw [htotal]
    exact htake

theorem Folding.close_root {d : OpenDirectory} (h : Folding u done [] [d]) :
    d.forceUncertainIfUnreadable u = foldDirectory u done ⟨.root, .zero, .Complete⟩ := by
  cases h with
  | @root _ closed h =>
    rw [List.append_nil] at h
    rw [foldDirectory_eq, h]
  | directory hk h hrest => cases hrest

variable {o : PathObservation}

theorem Folding.snoc_fold {closed : List PathObservation} {d : OpenDirectory}
    (h : ∀ c ∈ closed, o.path.startsWith c.path = false) :
    closed.foldl (addEntry u (done ++ [o])) d = closed.foldl (addEntry u done) d :=
  foldl_addEntry_congr (fun c hc _ => foldDirectory_append (h c hc)) d

/-- The siblings before the one that `o` is below. -/
theorem closed_elsewhere (hsorted : SortedBy PathObservation.path done) {path : RelativePath}
    {closed : List PathObservation} {x : PathObservation}
    (h : childrenOf done path = closed ++ [x]) (hx : o.path.startsWith x.path = true) :
    ∀ c ∈ closed, o.path.startsWith c.path = false := by
  intro c hc
  have hlt : c.path < x.path := by
    have hpairwise := List.Pairwise.sublist (List.filter_sublist (p := fun y : PathObservation =>
      y.path.isDirectChildOf path)) hsorted
    rw [← childrenOf, h, List.pairwise_append] at hpairwise
    exact hpairwise.2.2 c hc x (List.mem_singleton_self x)
  have hc' := (mem_childrenOf.mp (h ▸ List.mem_append_left [x] hc)).2
  have hx' := (mem_childrenOf.mp (h ▸ List.mem_append_right closed (List.mem_singleton_self x))).2
  refine Bool.eq_false_iff.mpr fun hs => ne_of_lt hlt (RelativePath.eq_of_startsWith_of_depth hs hx ?_)
  rw [RelativePath.depth_of_child hc', RelativePath.depth_of_child hx']

theorem childrenOf_snoc_below {path : RelativePath} {closed : List PathObservation}
    {x : PathObservation} (h : childrenOf done path = closed ++ [x])
    (hx : o.path.startsWith x.path = true) (hne : x.path ≠ o.path) :
    childrenOf (done ++ [o]) path = closed ++ [x] := by
  have hx' := (mem_childrenOf.mp (h ▸ List.mem_append_right closed (List.mem_singleton_self x))).2
  rw [childrenOf_append, h, childrenOf_single_of_not, List.append_nil]
  refine Bool.eq_false_iff.mpr fun hc => hne (RelativePath.eq_of_startsWith_of_depth hx
    (RelativePath.startsWith_refl _) ?_)
  rw [RelativePath.depth_of_child hx', RelativePath.depth_of_child hc]

/-- An observation strictly below the open child changes nothing further out. -/
theorem Folding.snoc_below (hsorted : SortedBy PathObservation.path done) {x : PathObservation}
    {stack : List OpenDirectory} (h : Folding u done [x] stack)
    (hx : o.path.startsWith x.path = true) (hne : x.path ≠ o.path) :
    Folding u (done ++ [o]) [x] stack := by
  induction stack generalizing x with
  | nil => cases h
  | cons d rest ih =>
    cases h with
    | @root _ closed h =>
      rw [← Folding.snoc_fold (closed_elsewhere hsorted h hx)]
      exact .root (childrenOf_snoc_below h hx hne)
    | @directory _ closed y _ hk h hrest =>
      have hchild := (mem_childrenOf.mp
        (h ▸ List.mem_append_right closed (List.mem_singleton_self x))).2
      have hy := RelativePath.startsWith_trans hx (RelativePath.startsWith_of_child hchild)
      have hney : y.path ≠ o.path := by
        intro heq
        have h1 := RelativePath.depth_of_child hchild
        have h2 := RelativePath.depth_le_of_startsWith hx
        rw [← heq] at h2
        omega
      rw [← Folding.snoc_fold (closed_elsewhere hsorted h hx)]
      exact .directory hk (childrenOf_snoc_below h hx hne) (ih hrest hy hney)

/-- A new observation directly in the innermost open directory. -/
theorem Folding.snoc (hsorted : SortedBy PathObservation.path done)
    (hnew : ∀ x ∈ done, x.path < o.path) {d : OpenDirectory} {rest : List OpenDirectory}
    (h : Folding u done [] (d :: rest)) (hchild : o.path.isDirectChildOf d.path = true) :
    Folding u (done ++ [o]) [o] (d :: rest) := by
  have helse {path : RelativePath} {closed : List PathObservation}
      (hc : childrenOf done path = closed ++ []) (ho : o.path.isDirectChildOf path = true) :
      childrenOf (done ++ [o]) path = closed ++ [o] ∧
        ∀ c ∈ closed, o.path.startsWith c.path = false := by
    rw [List.append_nil] at hc
    refine ⟨by rw [childrenOf_append, hc, childrenOf_single ho], fun c hmem => ?_⟩
    obtain ⟨hdone, hcp⟩ := mem_childrenOf.mp (hc ▸ hmem)
    refine Bool.eq_false_iff.mpr fun hs => ne_of_lt (hnew c hdone)
      (RelativePath.eq_of_startsWith_of_depth hs (RelativePath.startsWith_refl _) ?_)
    rw [RelativePath.depth_of_child hcp, RelativePath.depth_of_child ho]
  cases h with
  | @root _ closed h =>
    rw [foldl_addEntry_path] at hchild
    obtain ⟨hchildren, hclosed⟩ := helse h hchild
    rw [← Folding.snoc_fold hclosed]
    exact .root hchildren
  | @directory _ closed y _ hk h hrest =>
    rw [foldl_addEntry_path] at hchild
    obtain ⟨hchildren, hclosed⟩ := helse h hchild
    rw [← Folding.snoc_fold hclosed]
    exact .directory hk hchildren (hrest.snoc_below hsorted
      (RelativePath.startsWith_of_child hchild) (RelativePath.ne_of_child hchild))

end

/-! ## The stream -/

structure Folded (u : UnreadableDirectories) (done : List PathObservation) (s : OpenStack) : Prop
    where
  stack : Folding u done [] (s.top :: s.below)
  emitted : ∀ e ∈ s.emitted, ∃ o ∈ done, o.kind = .Directory ∧
    e = (foldDirectory u done (.fromObservation o)).intoSummary

/-- The emitted directories, then the open ones from the innermost on. -/
def OpenStack.order (s : OpenStack) : List RelativePath :=
  s.emitted.map DirectorySummary.path ++ (s.top :: s.below).map OpenDirectory.path

theorem OpenStack.order_close {u : UnreadableDirectories} {s : OpenStack} {parent : OpenDirectory}
    {rest : List OpenDirectory} (hbelow : s.below = parent :: rest) :
    (s.close u parent rest).order = s.order := by
  have hpath : (s.top.forceUncertainIfUnreadable u).intoSummary.path = s.top.path :=
    OpenDirectory.forceUncertainIfUnreadable_path u s.top
  simp only [order, close, hbelow, List.map_append, List.map_cons, List.map_nil, hpath,
    OpenDirectory.addChild, List.append_assoc, List.singleton_append]

theorem OpenStack.order_closeUntil {u : UnreadableDirectories} {path : RelativePath}
    {s : OpenStack} {below : List OpenDirectory} (hbelow : s.below = below) :
    (closeUntil u path below s).order = s.order := by
  induction below generalizing s with
  | nil => rfl
  | cons parent rest ih =>
    unfold closeUntil
    split
    · rfl
    · exact (ih rfl).trans (order_close hbelow)

theorem OpenStack.closeAll_paths {u : UnreadableDirectories} {s : OpenStack}
    {below : List OpenDirectory} (hbelow : s.below = below) :
    (closeAll u below s).emitted.map DirectorySummary.path = s.order := by
  induction below generalizing s with
  | nil =>
    have hpath : (s.top.forceUncertainIfUnreadable u).intoSummary.path = s.top.path :=
      OpenDirectory.forceUncertainIfUnreadable_path u s.top
    simp only [closeAll, order, hbelow, List.map_append, List.map_cons, List.map_nil, hpath]
  | cons parent rest ih => exact (ih rfl).trans (order_close hbelow)

namespace Folded
variable {u : UnreadableDirectories} {done : List PathObservation} {s : OpenStack}

theorem close (h : Folded u done s) {parent : OpenDirectory} {rest : List OpenDirectory}
    (hbelow : s.below = parent :: rest) : Folded u done (s.close u parent rest) := by
  have hstack := h.stack
  rw [hbelow] at hstack
  obtain ⟨⟨o, ho, hk, htotal⟩, hstack⟩ := hstack.close
  refine ⟨hstack, fun e he => ?_⟩
  rcases List.mem_append.mp he with he | he
  · exact h.emitted e he
  · rw [List.mem_singleton.mp he]
    exact ⟨o, ho, hk, congrArg OpenDirectory.intoSummary htotal⟩

theorem closeUntil (h : Folded u done s) {path : RelativePath} {below : List OpenDirectory}
    (hbelow : s.below = below) : Folded u done (OpenStack.closeUntil u path below s) := by
  induction below generalizing s with
  | nil => exact h
  | cons parent rest ih =>
    unfold OpenStack.closeUntil
    split
    · exact h
    · exact ih (h.close hbelow) rfl

theorem closeAll (h : Folded u done s) {below : List OpenDirectory} (hbelow : s.below = below) :
    ∀ e ∈ (OpenStack.closeAll u below s).emitted, ∃ d, Seed done d ∧
      e = (foldDirectory u done d).intoSummary := by
  induction below generalizing s with
  | nil =>
    have hstack := h.stack
    rw [hbelow] at hstack
    intro e he
    rcases List.mem_append.mp he with he | he
    · obtain ⟨o, ho, hk, htotal⟩ := h.emitted e he
      exact ⟨_, Or.inr ⟨o, ho, hk, rfl⟩, htotal⟩
    · rw [List.mem_singleton.mp he]
      exact ⟨_, Or.inl rfl, congrArg OpenDirectory.intoSummary hstack.close_root⟩
  | cons parent rest ih => exact ih (h.close hbelow) rfl

theorem emitted_snoc (h : Folded u done s) {o : PathObservation} (ho : Arrived done o s) :
    ∀ e ∈ s.emitted, ∃ x ∈ done ++ [o], x.kind = .Directory ∧
      e = (foldDirectory u (done ++ [o]) (.fromObservation x)).intoSummary := by
  intro e he
  obtain ⟨x, hx, hk, rfl⟩ := h.emitted e he
  have hout := (ho.left _ he).2
  refine ⟨x, List.mem_append_left _ hx, hk, ?_⟩
  rw [foldDirectory_append]
  rwa [OpenDirectory.intoSummary, foldDirectory_path] at hout

theorem directory (h : Folded u done s) (hsorted : SortedBy PathObservation.path done)
    {o : PathObservation} (ho : Arrived done o s) (hk : o.kind = .Directory) :
    Folded u (done ++ [o]) { s with top := .fromObservation o, below := s.top :: s.below } := by
  refine ⟨?_, h.emitted_snoc ho⟩
  have hnone : childrenOf (done ++ [o]) o.path = [] ++ [] := by
    apply List.filter_eq_nil_iff.mpr
    intro x hx hchild
    have hlt : o.path < x.path := lt_of_le_of_ne
      (RelativePath.le_of_startsWith (RelativePath.startsWith_of_child hchild))
      (RelativePath.ne_of_child hchild)
    rcases List.mem_append.mp hx with hx | hx
    · exact lt_asymm hlt (ho.before x hx)
    · rw [List.mem_singleton.mp hx] at hlt
      exact lt_irrefl _ hlt
  exact .directory hk hnone (h.stack.snoc hsorted ho.before ho.child)

theorem leaf (h : Folded u done s) (hsorted : SortedBy PathObservation.path done)
    {o : PathObservation} (ho : Arrived done o s) (hk : o.kind ≠ .Directory) :
    Folded u (done ++ [o]) { s with top := s.top.addChild o.metrics o.coverage } := by
  refine ⟨?_, h.emitted_snoc ho⟩
  have hadd : addEntry u (done ++ [o]) s.top o = s.top.addChild o.metrics o.coverage := by
    unfold addEntry
    cases hkind : o.kind with
    | Directory => exact absurd hkind hk
    | File => rfl
    | Link => rfl
  have htake := (h.stack.snoc hsorted ho.before ho.child).take
  rwa [hadd] at htake

end Folded

/-- The observed directories and the root. -/
def directoriesOf (observations : List PathObservation) : List RelativePath :=
  .root :: (observations.filter fun o => decide (o.kind = .Directory)).map PathObservation.path

/-- What the stream has established after `done`, totals and order included. -/
structure Building (u : UnreadableDirectories) (done : List PathObservation) (s : OpenStack) : Prop
    extends Reading done s, Folded u done s where
  sorted : SortedBy PathObservation.path done
  last : ∀ p, s.previous = some p → ∃ x ∈ done, x.path = p
  once : s.order.Perm (directoriesOf done)
  postorder : s.order.Pairwise fun p q => q.startsWith p = false

namespace Building
variable {u : UnreadableDirectories} {done : List PathObservation} {s s' : OpenStack}
  {o : PathObservation}

theorem start : Building u [] .start where
  toReading := .start
  stack := @Folding.root u [] [] [] rfl
  emitted := by intro e he; cases he
  sorted := .nil
  last := by intro p hp; cases hp
  once := .refl _
  postorder := List.pairwise_singleton _ _

theorem order_directory (ho : Arrived done o s)
    (h : s.order.Pairwise fun p q => q.startsWith p = false) :
    (OpenStack.order { s with top := .fromObservation o, below := s.top :: s.below }).Pairwise
      fun p q => q.startsWith p = false := by
  unfold OpenStack.order at h ⊢
  rw [List.pairwise_append] at h ⊢
  obtain ⟨hemitted, hstack, hacross⟩ := h
  rw [List.map_cons]
  refine ⟨hemitted, List.pairwise_cons.mpr ⟨fun q hq => ?_, hstack⟩, fun p hp q hq => ?_⟩
  · obtain ⟨d, hd, rfl⟩ := List.mem_map.mp hq
    -- `o` is below `d`
    have habove := ho.nested.startsWith hd
    refine Bool.eq_false_iff.mpr fun hs => ?_
    have h1 := RelativePath.depth_of_child ho.child
    have h2 := RelativePath.depth_le_of_startsWith hs
    have h3 := RelativePath.depth_le_of_startsWith habove
    change o.path.depth ≤ d.path.depth at h2
    omega
  · obtain ⟨e, he, rfl⟩ := List.mem_map.mp hp
    rcases List.mem_cons.mp hq with rfl | hq
    · exact (ho.left e he).2
    · exact hacross _ (List.mem_map_of_mem he) q hq

theorem observe (h : Building u done s) (ho : OpenStack.observe u s o = .ok s') :
    Building u (done ++ [o]) s' := by
  have hreading := h.toReading.observe ho
  have hsorted := h.toReading.sorted_snoc h.sorted ho
  obtain ⟨hroot, horder, t, rfl, hchild, hs⟩ := OpenStack.observe_ok ho
  have harrived := h.toReading.arrived hroot horder hchild
  have hfolded : Folded u done { s with previous := some o.path } := ⟨h.stack, h.emitted⟩
  have huntil := @Folded.closeUntil _ _ _ hfolded o.path _ rfl
  have hsame : (OpenStack.closeUntil u o.path s.below { s with previous := some o.path }).order =
      s.order := OpenStack.order_closeUntil rfl
  generalize OpenStack.closeUntil u o.path s.below { s with previous := some o.path } = t at *
  have hlast : ∀ p, t.previous = some p → ∃ x ∈ done ++ [o], x.path = p := by
    intro p hp
    rw [harrived.previous] at hp
    cases hp
    exact ⟨o, List.mem_append_right _ (List.mem_singleton_self o), rfl⟩
  have honce := h.once
  have hpostorder := h.postorder
  rw [← hsame] at honce hpostorder
  rcases hs with ⟨hk, rfl⟩ | ⟨hk, rfl⟩
  · refine ⟨hreading, huntil.directory h.sorted harrived hk, hsorted, hlast, ?_,
      order_directory harrived hpostorder⟩
    have hnew : directoriesOf (done ++ [o]) = directoriesOf done ++ [o.path] := by
      simp [directoriesOf, hk]
    rw [hnew]
    exact (List.perm_middle.trans (honce.cons _)).trans
      (List.perm_append_singleton o.path (directoriesOf done)).symm
  · refine ⟨hreading, huntil.leaf h.sorted harrived hk, hsorted, hlast, ?_, hpostorder⟩
    have hnew : directoriesOf (done ++ [o]) = directoriesOf done := by
      simp [directoriesOf, hk]
    rw [hnew]
    exact honce

/-- A path above all before it, in the root or an observed directory, is accepted. -/
theorem accepts (h : Building u done s) (hroot : o.path.isRoot = false)
    (hnew : ∀ x ∈ done, x.path < o.path)
    (hparent : ∃ d, o.path.isDirectChildOf d = true ∧
      (d = .root ∨ ∃ x ∈ done, x.kind = .Directory ∧ x.path = d)) :
    ∃ s', OpenStack.observe u s o = .ok s' := by
  have horder : ∀ p, s.previous = some p → p < o.path := by
    intro p hp
    obtain ⟨x, hx, rfl⟩ := h.last p hp
    exact hnew x hx
  have hcheck : OpenStack.orderCheck s.previous o.path = .ok () := by
    unfold OpenStack.orderCheck
    cases hp : s.previous with
    | none => rfl
    | some p =>
      have hlt := horder p hp
      dsimp only
      rw [if_neg (lt_asymm hlt), if_neg (ne_of_gt hlt)]
  obtain ⟨hclosing, hinside, -⟩ := (h.toReading.closing hroot horder).closeUntil (u := u) rfl
  have hchild : o.path.isDirectChildOf (OpenStack.closeUntil u o.path s.below
      { s with previous := some o.path }).top.path = true := by
    generalize OpenStack.closeUntil u o.path s.below { s with previous := some o.path } = t at *
    obtain ⟨d, hd, hwhere⟩ := hparent
    -- the parent of `o` is still open, and the innermost open directory lies in it
    have hopen : t.top.path.startsWith d = true := by
      rcases hwhere with rfl | ⟨x, hx, hk, rfl⟩
      · exact RelativePath.startsWith_root _
      · rcases hclosing.covered x hx hk with ⟨y, hy, hpath⟩ | ⟨e, he, hpath⟩
        · exact hpath ▸ hclosing.nested.startsWith hy
        · have hout := (hclosing.left e he).2
          rw [hpath, RelativePath.startsWith_of_child hd] at hout
          cases hout
    have hdepth := RelativePath.depth_of_child hd
    have hle := RelativePath.depth_le_of_startsWith hinside
    have hge := RelativePath.depth_le_of_startsWith hopen
    have hne : t.top.path.depth ≠ o.path.depth := fun heq => ne_of_lt hclosing.above
      (RelativePath.eq_of_startsWith_of_depth hinside (RelativePath.startsWith_refl _) heq)
    have htop : t.top.path = d := RelativePath.eq_of_startsWith_of_depth hinside
      (RelativePath.startsWith_of_child hd) (by omega)
    rw [htop]
    exact hd
  unfold OpenStack.observe
  rw [if_neg (by rw [hroot]; exact Bool.false_ne_true), hcheck]
  dsimp only
  rw [hchild]
  cases o.kind <;> exact ⟨_, rfl⟩

end Building

/-- The streams that are accepted. -/
structure Reducible (observations : List PathObservation) : Prop where
  sorted : SortedBy PathObservation.path observations
  notRoot : ∀ o ∈ observations, o.path.isRoot = false
  parents : ∀ before o after, observations = before ++ o :: after →
    ∃ d, o.path.isDirectChildOf d = true ∧
      (d = .root ∨ ∃ x ∈ before, x.kind = .Directory ∧ x.path = d)

theorem TreeShaped.reducible {observations : List PathObservation} (h : TreeShaped observations) :
    Reducible observations where
  sorted := h.sorted
  notRoot := by
    intro o ho
    obtain ⟨d, hd, -⟩ := h.parents o ho
    exact Bool.eq_false_iff.mpr fun hroot =>
      RelativePath.ne_root_of_child hd ((RelativePath.isRoot_iff o.path).mp hroot)
  parents := by
    rintro before o after rfl
    obtain ⟨d, hd, hwhere⟩ := h.parents o
      (List.mem_append_right _ List.mem_cons_self)
    refine ⟨d, hd, hwhere.imp_right ?_⟩
    rintro ⟨x, hx, hk, rfl⟩
    have hlt : x.path < o.path := lt_of_le_of_ne
      (RelativePath.le_of_startsWith (RelativePath.startsWith_of_child hd))
      (RelativePath.ne_of_child hd)
    rcases List.mem_append.mp hx with hx | hx
    · exact ⟨x, hx, hk, rfl⟩
    · have hafter := (List.pairwise_append.mp h.sorted).2.1
      rcases List.mem_cons.mp hx with rfl | hx
      · exact absurd hlt (lt_irrefl _)
      · exact absurd ((List.pairwise_cons.mp hafter).1 x hx) (lt_asymm hlt)

theorem Reducible.accepted {observations : List PathObservation} (h : Reducible observations)
    (u : UnreadableDirectories) : ∃ summaries,
      reduceSortedPathStream u observations = .ok summaries := by
  obtain ⟨s, hs⟩ := foldlM_total (f := OpenStack.observe u) (P := Building u) (l := observations)
    Building.start fun done o rest s hl hP => by
      have hmem : o ∈ observations := hl ▸ List.mem_append_right _ List.mem_cons_self
      have hnew : ∀ x ∈ done, x.path < o.path := by
        intro x hx
        have hsorted := h.sorted
        rw [hl] at hsorted
        exact (List.pairwise_append.mp hsorted).2.2 x hx o List.mem_cons_self
      obtain ⟨s', hs'⟩ := hP.accepts (h.notRoot o hmem) hnew (h.parents done o rest hl)
      exact ⟨s', hs', hP.observe hs'⟩
  refine ⟨(OpenStack.closeAll u s.below s).emitted, ?_⟩
  rw [reduceSortedPathStream, hs]
  rfl

/-- What the summaries of an accepted stream say. -/
structure ReducedTree (u : UnreadableDirectories) (observations : List PathObservation)
    (summaries : List DirectorySummary) : Prop where
  once : (summaries.map DirectorySummary.path).Perm (directoriesOf observations)
  distinct : (summaries.map DirectorySummary.path).Nodup
  /-- No summary lies in the directory of an earlier one. -/
  postorder : summaries.Pairwise fun a b => b.path.startsWith a.path = false
  totals : ∀ e ∈ summaries, ∃ d, Seed observations d ∧
    e = (foldDirectory u observations d).intoSummary
  coverage : ∀ e ∈ summaries, e.coverage = .Uncertain ↔
    (∃ o ∈ observations, o.path.startsWith e.path = true ∧ o.coverage = .Uncertain) ∨
      UnreadableUnder u observations e.path
  allocated : ∀ e ∈ summaries, e.metrics.allocatedBytes.upper = none ↔
    (∃ o ∈ observations, o.path.startsWith e.path = true ∧ o.metrics.allocatedBytes.upper = none) ∨
      UnreadableUnder u observations e.path
  reclaimable : ∀ e ∈ summaries, e.metrics.reclaimableBytes.upper = none ↔
    (∃ o ∈ observations, o.path.startsWith e.path = true ∧
      o.metrics.reclaimableBytes.upper = none) ∨ UnreadableUnder u observations e.path

/-- The fold of a directory of the tree is in doubt for an observation at or below it. -/
theorem TreeShaped.seed_doubt {observations : List PathObservation} (h : TreeShaped observations)
    (u : UnreadableDirectories) (d : Doubt) {dir : OpenDirectory} (hdir : Seed observations dir) :
    d.Of (foldDirectory u observations dir).intoSummary ↔
      (∃ o ∈ observations, o.path.startsWith dir.path = true ∧ d.About o.coverage o.metrics) ∨
        UnreadableUnder u observations dir.path := by
  rw [h.foldDirectory_doubt u d dir, ← or_assoc]
  refine or_congr_left ⟨?_, ?_⟩
  · rintro (hown | ⟨o, ho, hunder, -, habout⟩)
    · rcases hdir with rfl | ⟨o, ho, -, rfl⟩
      · cases d <;> cases hown
      · exact ⟨o, ho, RelativePath.startsWith_refl _, hown⟩
    · exact ⟨o, ho, hunder, habout⟩
  · rintro ⟨o, ho, hunder, habout⟩
    by_cases heq : dir.path = o.path
    · rcases hdir with rfl | ⟨x, hx, -, rfl⟩
      · exact absurd heq.symm (RelativePath.ne_root_of_child (h.parents o ho).choose_spec.1)
      · obtain rfl := Keyed.eq_of_key_eq h.sorted.nodup_keys hx ho heq
        exact Or.inl habout
    · exact Or.inr ⟨o, ho, hunder, heq, habout⟩

theorem directoriesOf_nodup {observations : List PathObservation} (h : TreeShaped observations) :
    (directoriesOf observations).Nodup := by
  refine List.nodup_cons.mpr ⟨fun hmem => ?_, ?_⟩
  · obtain ⟨o, ho, hroot⟩ := List.mem_map.mp hmem
    obtain ⟨d, hd, -⟩ := h.parents o (List.mem_filter.mp ho).1
    exact RelativePath.ne_root_of_child hd hroot
  · exact h.sorted.nodup_keys.sublist (List.filter_sublist.map _)

theorem reduced_of_ok {u : UnreadableDirectories} {observations : List PathObservation}
    {summaries : List DirectorySummary}
    (h : reduceSortedPathStream u observations = .ok summaries) :
    ReducedTree u observations summaries := by
  have hshape := (reduceSortedPathStream_ok h).1
  obtain ⟨s, hs, rfl⟩ := map_eq_ok h
  have hbuilding : Building u observations s :=
    foldlM_ok hs Building.start fun _ _ _ _ hP ho => hP.observe ho
  have hpaths : (OpenStack.closeAll u s.below s).emitted.map DirectorySummary.path = s.order :=
    OpenStack.closeAll_paths rfl
  have htotals := hbuilding.toFolded.closeAll rfl
  have hdoubt (d : Doubt) : ∀ e ∈ (OpenStack.closeAll u s.below s).emitted, d.Of e ↔
      (∃ o ∈ observations, o.path.startsWith e.path = true ∧ d.About o.coverage o.metrics) ∨
        UnreadableUnder u observations e.path := by
    intro e he
    obtain ⟨dir, hdir, rfl⟩ := htotals e he
    have hpath : (foldDirectory u observations dir).intoSummary.path = dir.path :=
      foldDirectory_path u observations dir
    rw [hpath]
    exact hshape.seed_doubt u d hdir
  have honce := hbuilding.once
  have hpostorder := hbuilding.postorder
  rw [← hpaths] at honce hpostorder
  exact
    { once := honce
      distinct := honce.nodup_iff.mpr (directoriesOf_nodup hshape)
      postorder := List.pairwise_map.mp hpostorder
      totals := htotals
      coverage := hdoubt .coverage
      allocated := hdoubt .allocated
      reclaimable := hdoubt .reclaimable }

/-- The reduction accepts the sorted trees, and its summaries are their recursive fold. -/
theorem reduction_is_recursive_fold (u : UnreadableDirectories)
    (observations : List PathObservation) :
    ((∃ summaries, reduceSortedPathStream u observations = .ok summaries) ↔
        Reducible observations) ∧
      ∀ summaries, reduceSortedPathStream u observations = .ok summaries →
        ReducedTree u observations summaries :=
  ⟨⟨fun ⟨_, h⟩ => (reduceSortedPathStream_ok h).1.reducible, fun h => h.accepted u⟩,
    fun _ h => reduced_of_ok h⟩

/-- Directories `a` and `ab`, a file in `a`; `ab` could not be listed. -/
def siblingsThatExtend : List PathObservation :=
  [⟨⟨[⟨[97], valid_a⟩]⟩, .Directory, .zero, .Complete, none⟩,
    ⟨⟨[⟨[97], valid_a⟩, ⟨[98], valid_b⟩]⟩, .File, .leaf 3 (.exact 4) (.exact 4), .Complete, none⟩,
    ⟨⟨[⟨[97, 98], by decide⟩]⟩, .Directory, .zero, .Complete, none⟩]

theorem reduction_is_recursive_fold_siblings :
    ∃ summaries, reduceSortedPathStream (.Tracked {⟨[⟨[97, 98], by decide⟩]⟩}) siblingsThatExtend =
        .ok summaries ∧
      ReducedTree (.Tracked {⟨[⟨[97, 98], by decide⟩]⟩}) siblingsThatExtend summaries :=
  ⟨_, rfl, (reduction_is_recursive_fold (.Tracked {⟨[⟨[97, 98], by decide⟩]⟩})
    siblingsThatExtend).2 _ rfl⟩

/-- An unreadable path that was not observed leaves the root complete; a sum past the largest
amount stays known; and without any unreadable directory an overflow opens the upper bounds. -/
theorem reduction_of_unobserved_and_overflow :
    reduceSortedPathStream (.Tracked {⟨[⟨[97], by decide⟩]⟩}) [] =
        .ok [⟨.root, .zero, .Complete⟩] ∧
      reduceSortedPathStream (.Tracked ∅)
          [⟨⟨[⟨[97], by decide⟩]⟩, .File, ⟨0, ⟨0, some (2 ^ 128 - 1)⟩, .exact 0, 0⟩, .Complete, none⟩,
            ⟨⟨[⟨[98], by decide⟩]⟩, .File, ⟨0, ⟨0, some 1⟩, .exact 0, 0⟩, .Complete, none⟩] =
        .ok [⟨.root, ⟨0, ⟨0, some (2 ^ 128 - 1)⟩, .exact 0, 2⟩, .Complete⟩] ∧
      reduceSortedPathStream .Overflowed [] =
        .ok [⟨.root, SummaryMetrics.zero.openUpper, .Uncertain⟩] := by
  refine ⟨?_, ?_, ?_⟩ <;> decide +kernel

end Excise
