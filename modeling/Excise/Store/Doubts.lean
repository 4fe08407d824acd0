import Excise.Store.Summaries

/-!
# Doubts

What makes an amount an estimate: uncertain coverage, or an unknown upper bound. A directory adds
its children up and a doubtful sum stays doubtful, so a doubt about an entry is a doubt about the
summary of every directory above it.
-/

namespace Excise
set_option autoImplicit false

inductive Doubt where
  | coverage
  | allocated
  | reclaimable

def Doubt.About (d : Doubt) (coverage : Coverage) (m : SummaryMetrics) : Prop :=
  match d with
  | .coverage => coverage = .Uncertain
  | .allocated => m.allocatedBytes.upper = none
  | .reclaimable => m.reclaimableBytes.upper = none

/-- The doubt is about this summary. -/
abbrev Doubt.Of (d : Doubt) (e : DirectorySummary) : Prop := d.About e.coverage e.metrics

theorem Coverage.combine_eq_uncertain {a b : Coverage} :
    a.combine b = .Uncertain ↔ a = .Uncertain ∨ b = .Uncertain := by
  cases a <;> cases b <;> simp [combine]

theorem ByteBounds.add_upper_eq_none {a b : ByteBounds} :
    (a.add b).upper = none ↔ a.upper = none ∨ b.upper = none := by
  unfold add
  cases a.upper <;> cases b.upper <;> simp

namespace Doubt
variable {d : Doubt} {a b : Coverage} {m m' : SummaryMetrics}

theorem about_addChild : d.About (a.combine b) (m.addChild m') ↔ d.About a m ∨ d.About b m' := by
  cases d with
  | coverage => exact Coverage.combine_eq_uncertain
  | allocated => exact ByteBounds.add_upper_eq_none
  | reclaimable => exact ByteBounds.add_upper_eq_none

theorem about_openUpper (h : d.About a m) : d.About .Uncertain m.openUpper := by
  cases d <;> rfl

theorem about_forced (u : UnreadableDirectories) {dir : OpenDirectory}
    (h : d.About dir.coverage dir.metrics) :
    d.Of (dir.forceUncertainIfUnreadable u).intoSummary := by
  unfold OpenDirectory.forceUncertainIfUnreadable
  split
  · exact about_openUpper h
  · exact h

end Doubt

/-! ## Directories known so far -/

/-- The summaries of the open directories as they stand, and the emitted ones. -/
def OpenStack.held (s : OpenStack) : List DirectorySummary :=
  (s.top :: s.below).map OpenDirectory.intoSummary ++ s.emitted

/-- The directory that holds `path` shares the doubt. -/
def Reported (held : List DirectorySummary) (path : RelativePath) (d : Doubt) : Prop :=
  ∃ x ∈ held, path.isDirectChildOf x.path = true ∧ d.Of x

/-- Directories stay and their doubts stay. -/
def Gains (held held' : List DirectorySummary) : Prop :=
  ∀ x ∈ held, ∃ y ∈ held', y.path = x.path ∧ ∀ d : Doubt, d.Of x → d.Of y

theorem Reported.gains {held held' : List DirectorySummary} {path : RelativePath} {d : Doubt}
    (h : Reported held path d) (hgains : Gains held held') : Reported held' path d := by
  obtain ⟨x, hx, hchild, hd⟩ := h
  obtain ⟨y, hy, hpath, hkeep⟩ := hgains x hx
  exact ⟨y, hy, hpath ▸ hchild, hkeep d hd⟩

theorem gains_of_subset {held held' : List DirectorySummary} (h : held ⊆ held') :
    Gains held held' := fun x hx => ⟨x, h hx, rfl, fun _ hd => hd⟩

/-- Every doubt about a leaf or a closed directory has reached the directory that holds it. -/
structure Passed (done : List PathObservation) (s : OpenStack) : Prop where
  nested : Nested (s.top :: s.below)
  leaves : ∀ o ∈ done, o.kind ≠ .Directory → ∀ d : Doubt, d.About o.coverage o.metrics →
    Reported s.held o.path d
  closed : ∀ e ∈ s.emitted, ∀ d : Doubt, d.Of e → Reported s.held e.path d

theorem gains_close (u : UnreadableDirectories) {s : OpenStack} {parent : OpenDirectory}
    {rest : List OpenDirectory} (hbelow : s.below = parent :: rest) :
    Gains s.held (s.close u parent rest).held := by
  have hemitted : (s.top.forceUncertainIfUnreadable u).intoSummary ∈ (s.close u parent rest).held :=
    List.mem_append_right _ (List.mem_append_right _ (List.mem_singleton_self _))
  intro x hx
  rcases List.mem_append.mp hx with hx | hx
  · rw [hbelow] at hx
    obtain ⟨dir, hdir, rfl⟩ := List.mem_map.mp hx
    rcases List.mem_cons.mp hdir with rfl | hdir
    · -- the closed directory
      exact ⟨_, hemitted, OpenDirectory.forceUncertainIfUnreadable_path u s.top,
        fun d hd => Doubt.about_forced u hd⟩
    · rcases List.mem_cons.mp hdir with rfl | hdir
      · -- the directory that takes its sums
        exact ⟨(s.close u dir rest).top.intoSummary,
          List.mem_append_left _ (List.mem_map_of_mem List.mem_cons_self), rfl,
          fun d hd => Doubt.about_addChild.mpr (Or.inl hd)⟩
      · exact ⟨dir.intoSummary,
          List.mem_append_left _ (List.mem_map_of_mem (List.mem_cons_of_mem _ hdir)), rfl,
          fun d hd => hd⟩
  · exact ⟨x, List.mem_append_right _ (List.mem_append_left _ hx), rfl, fun d hd => hd⟩

namespace Passed
variable {done : List PathObservation} {s : OpenStack}

theorem start : Passed [] .start where
  nested := rfl
  leaves := by intro o ho; cases ho
  closed := by intro e he; cases he

theorem close (h : Passed done s) (u : UnreadableDirectories) {parent : OpenDirectory}
    {rest : List OpenDirectory} (hbelow : s.below = parent :: rest) :
    Passed done (s.close u parent rest) := by
  have hgains := gains_close u hbelow
  have hnested := h.nested
  rw [hbelow] at hnested
  refine ⟨hnested.2.congr rfl, fun o ho hk d hd => (h.leaves o ho hk d hd).gains hgains, ?_⟩
  intro e he d hd
  rcases List.mem_append.mp he with he | he
  · exact (h.closed e he d hd).gains hgains
  · rw [List.mem_singleton.mp he] at hd ⊢
    refine ⟨(s.close u parent rest).top.intoSummary,
      List.mem_append_left _ (List.mem_map_of_mem List.mem_cons_self), ?_,
      Doubt.about_addChild.mpr (Or.inr hd)⟩
    show (s.top.forceUncertainIfUnreadable u).path.isDirectChildOf parent.path = true
    rw [OpenDirectory.forceUncertainIfUnreadable_path]
    exact hnested.1

theorem closeUntil (h : Passed done s) (u : UnreadableDirectories) (path : RelativePath)
    {below : List OpenDirectory} (hbelow : s.below = below) :
    Passed done (OpenStack.closeUntil u path below s) := by
  induction below generalizing s with
  | nil => exact h
  | cons parent rest ih =>
    unfold OpenStack.closeUntil
    split
    · exact h
    · exact ih (h.close u hbelow) rfl

theorem directory (h : Passed done s) {o : PathObservation} (hk : o.kind = .Directory)
    (hchild : o.path.isDirectChildOf s.top.path = true) :
    Passed (done ++ [o])
      { s with top := .fromObservation o, below := s.top :: s.below } := by
  have hgains : Gains s.held
      (OpenStack.held { s with top := .fromObservation o, below := s.top :: s.below }) :=
    gains_of_subset fun x hx => List.mem_cons_of_mem _ hx
  refine ⟨⟨hchild, h.nested⟩, ?_, fun e he d hd => (h.closed e he d hd).gains hgains⟩
  intro x hx hkx d hd
  rcases List.mem_append.mp hx with hx | hx
  · exact (h.leaves x hx hkx d hd).gains hgains
  · rw [List.mem_singleton.mp hx] at hkx
    exact absurd hk hkx

theorem leaf (h : Passed done s) {o : PathObservation}
    (hchild : o.path.isDirectChildOf s.top.path = true) :
    Passed (done ++ [o]) { s with top := s.top.addChild o.metrics o.coverage } := by
  have htop : (s.top.addChild o.metrics o.coverage).intoSummary ∈
      OpenStack.held { s with top := s.top.addChild o.metrics o.coverage } :=
    List.mem_append_left _ (List.mem_map_of_mem List.mem_cons_self)
  have hgains : Gains s.held
      (OpenStack.held { s with top := s.top.addChild o.metrics o.coverage }) := by
    intro x hx
    rcases List.mem_append.mp hx with hx | hx
    · obtain ⟨dir, hdir, rfl⟩ := List.mem_map.mp hx
      rcases List.mem_cons.mp hdir with rfl | hdir
      · exact ⟨_, htop, rfl, fun d hd => Doubt.about_addChild.mpr (Or.inl hd)⟩
      · exact ⟨_, List.mem_append_left _ (List.mem_map_of_mem (List.mem_cons_of_mem _ hdir)), rfl,
          fun d hd => hd⟩
    · exact ⟨x, List.mem_append_right _ hx, rfl, fun d hd => hd⟩
  refine ⟨h.nested.congr rfl, ?_, fun e he d hd => (h.closed e he d hd).gains hgains⟩
  intro x hx hkx d hd
  rcases List.mem_append.mp hx with hx | hx
  · exact (h.leaves x hx hkx d hd).gains hgains
  · rw [List.mem_singleton.mp hx] at hd ⊢
    exact ⟨_, htop, hchild, Doubt.about_addChild.mpr (Or.inr hd)⟩

theorem observe (h : Passed done s) {u : UnreadableDirectories} {o : PathObservation}
    {s' : OpenStack} (ho : OpenStack.observe u s o = .ok s') : Passed (done ++ [o]) s' := by
  obtain ⟨-, -, t, rfl, hchild, hs⟩ := OpenStack.observe_ok ho
  have hclosed : Passed done { s with previous := some o.path } := ⟨h.nested, h.leaves, h.closed⟩
  have huntil := hclosed.closeUntil u o.path rfl
  rcases hs with ⟨hk, rfl⟩ | ⟨-, rfl⟩
  · exact huntil.directory hk hchild
  · exact huntil.leaf hchild

end Passed

/-- Doubts reach the summaries of the directories above. -/
structure DoubtsRise (observations : List PathObservation) (summaries : List DirectorySummary) :
    Prop where
  leaves : ∀ o ∈ observations, o.kind ≠ .Directory → ∀ d : Doubt, d.About o.coverage o.metrics →
    Reported summaries o.path d
  closed : ∀ e ∈ summaries, ∀ d : Doubt, d.Of e → e.path = .root ∨ Reported summaries e.path d

theorem Passed.closeAll {done : List PathObservation} {s : OpenStack} (h : Passed done s)
    (u : UnreadableDirectories) {below : List OpenDirectory} (hbelow : s.below = below) :
    DoubtsRise done (OpenStack.closeAll u below s).emitted := by
  induction below generalizing s with
  | nil =>
    have hroot := h.nested
    rw [hbelow] at hroot
    have hgains : Gains s.held (OpenStack.closeAll u [] s).emitted := by
      intro x hx
      rcases List.mem_append.mp hx with hx | hx
      · rw [hbelow] at hx
        obtain ⟨dir, hdir, rfl⟩ := List.mem_map.mp hx
        rw [List.mem_singleton.mp hdir]
        exact ⟨_, List.mem_append_right _ (List.mem_singleton_self _),
          OpenDirectory.forceUncertainIfUnreadable_path u s.top, fun d hd => Doubt.about_forced u hd⟩
      · exact ⟨x, List.mem_append_left _ hx, rfl, fun d hd => hd⟩
    refine ⟨fun o ho hk d hd => (h.leaves o ho hk d hd).gains hgains, fun e he d hd => ?_⟩
    rcases List.mem_append.mp he with he | he
    · exact Or.inr ((h.closed e he d hd).gains hgains)
    · rw [List.mem_singleton.mp he]
      exact Or.inl ((OpenDirectory.forceUncertainIfUnreadable_path u s.top).trans hroot)
  | cons parent rest ih => exact ih (h.close u hbelow) rfl

theorem reduceSortedPathStream_doubts {u : UnreadableDirectories}
    {observations : List PathObservation} {summaries : List DirectorySummary}
    (h : reduceSortedPathStream u observations = .ok summaries) :
    DoubtsRise observations summaries := by
  obtain ⟨s, hs, rfl⟩ := map_eq_ok h
  have hpassed : Passed observations s :=
    foldlM_ok (P := Passed) hs Passed.start fun _ _ _ _ hP ho => hP.observe ho
  exact hpassed.closeAll u rfl

/-! ## All the way up -/

theorem RelativePath.startsWith_parent {p q f : RelativePath} (hchild : p.isDirectChildOf q = true)
    (hf : p.startsWith f = true) (hne : f ≠ p) : q.startsWith f = true := by
  obtain ⟨c, hc⟩ := isDirectChildOf_iff.mp hchild
  rw [startsWith_iff, hc, List.prefix_concat_iff] at hf
  rw [startsWith_iff]
  refine hf.resolve_left fun heq => hne (ext_components ?_)
  rw [heq, hc]

theorem DoubtsRise.above {observations : List PathObservation} {summaries : List DirectorySummary}
    (h : DoubtsRise observations summaries) {d : Doubt} {p f : RelativePath}
    (hreported : Reported summaries p d) (hf : p.startsWith f = true) (hne : f ≠ p) :
    ∃ x ∈ summaries, x.path = f ∧ d.Of x := by
  -- the parent has the doubt, and passes it on unless it is `f`
  induction hn : p.depth using Nat.strong_induction_on generalizing p with
  | _ n ih =>
    obtain ⟨x, hx, hchild, hd⟩ := hreported
    have hup := RelativePath.startsWith_parent hchild hf hne
    by_cases heq : f = x.path
    · exact ⟨x, hx, heq.symm, hd⟩
    · rcases h.closed x hx d hd with hroot | hreported
      · rw [hroot] at hup heq
        exact absurd (RelativePath.startsWith_antisymm f.startsWith_root hup) heq
      · have hdepth : p.depth = x.path.depth + 1 := by
          rw [RelativePath.isDirectChildOf, Bool.and_eq_true] at hchild
          exact of_decide_eq_true hchild.1
        exact ih x.path.depth (by omega) hreported hup heq rfl

end Excise
