import Excise.Lib.Folds
import Excise.Lib.Sums
import Excise.Lib.KWayMerge
import Excise.Store.Reduction

/-!
# What the directory summaries say

The open directories always form one chain down to the root, and a directory is closed when the
stream has left its subtree for good. So each summary adds up exactly the observations at or below
its directory, every observed directory gets one, and every observation lies in one of them.
-/

namespace Excise
set_option autoImplicit false

namespace PathObservation

/-- At or below `f`. -/
abbrev under (f : RelativePath) (o : PathObservation) : Bool := o.path.startsWith f

end PathObservation

/-- An amount of the metrics that a parent adds up over its children. -/
structure Additive (w : SummaryMetrics → Nat) : Prop where
  zero : w .zero = 0
  addChild : ∀ m child : SummaryMetrics, w (m.addChild child) = satAdd byteBits (w m) (w child)
  openUpper : ∀ m : SummaryMetrics, w m.openUpper = w m

theorem additive_allocatedLower : Additive fun m => m.allocatedBytes.lower :=
  ⟨rfl, fun _ _ => rfl, fun _ => rfl⟩

theorem additive_apparentBytes : Additive SummaryMetrics.apparentBytes :=
  ⟨rfl, fun _ _ => rfl, fun _ => rfl⟩

/-- An amount of what is recorded at or below `f`. -/
abbrev totalUnder (w : SummaryMetrics → Nat) (f : RelativePath) (observations : List PathObservation) :
    Nat :=
  sumWhere (PathObservation.under f) (fun o => w o.metrics) observations

/-- The same of everything recorded. -/
abbrev totalOf (w : SummaryMetrics → Nat) (observations : List PathObservation) : Nat :=
  sumWhere (fun _ => true) (fun o => w o.metrics) observations

variable {w : SummaryMetrics → Nat}

theorem totalUnder_snoc (w : SummaryMetrics → Nat) (f : RelativePath) (done : List PathObservation)
    (o : PathObservation) : totalUnder w f (done ++ [o]) =
      totalUnder w f done + if o.path.startsWith f then w o.metrics else 0 := by
  simp only [totalUnder, sumWhere_append, sumWhere_cons, sumWhere_nil, Nat.add_zero]

/-- Each open directory lies directly in the next one; the last is the root. -/
def Nested : List OpenDirectory → Prop
  | [] => False
  | [d] => d.path = .root
  | d :: parent :: rest => d.path.isDirectChildOf parent.path = true ∧ Nested (parent :: rest)

theorem Nested.startsWith {d e : OpenDirectory} {rest : List OpenDirectory}
    (h : Nested (d :: rest)) (he : e ∈ d :: rest) : d.path.startsWith e.path = true := by
  induction rest generalizing d with
  | nil =>
    rw [List.mem_singleton.mp he]
    exact RelativePath.startsWith_refl _
  | cons parent rest ih =>
    rcases List.mem_cons.mp he with rfl | he
    · exact RelativePath.startsWith_refl _
    · have hchild := h.1
      rw [RelativePath.isDirectChildOf, Bool.and_eq_true] at hchild
      exact RelativePath.startsWith_trans hchild.2 (ih h.2 he)

theorem Nested.congr {d d' : OpenDirectory} {rest : List OpenDirectory} (h : Nested (d :: rest))
    (hp : d'.path = d.path) : Nested (d' :: rest) := by
  cases rest with
  | nil => exact hp.trans h
  | cons parent rest => exact ⟨by rw [hp]; exact h.1, h.2⟩

/-- The open directories hold what was observed below them and not in the next inner one. -/
def Amounts (w : SummaryMetrics → Nat) (done : List PathObservation) :
    Nat → List OpenDirectory → Prop
  | _, [] => True
  | inner, d :: rest =>
    w d.metrics + inner = totalUnder w d.path done ∧ Amounts w done (totalUnder w d.path done) rest

/-- An observation below every open directory, counted in the innermost one from now on. -/
theorem Amounts.snoc {done : List PathObservation} {o : PathObservation} {inner : Nat}
    {stack : List OpenDirectory} (h : Amounts w done inner stack)
    (hall : ∀ d ∈ stack, o.path.startsWith d.path = true) :
    Amounts w (done ++ [o]) (inner + w o.metrics) stack := by
  induction stack generalizing inner with
  | nil => trivial
  | cons d rest ih =>
    obtain ⟨hd, hrest⟩ := h
    have hu : totalUnder w d.path (done ++ [o]) = totalUnder w d.path done + w o.metrics := by
      rw [totalUnder_snoc, if_pos (hall d List.mem_cons_self)]
    refine ⟨by omega, ?_⟩
    rw [hu]
    exact ih hrest fun e he => hall e (List.mem_cons_of_mem _ he)

/-- The stack stands for `done`: one chain of open directories, every observed directory open or
closed, and every byte counted where it belongs. -/
structure Holding (done : List PathObservation) (s : OpenStack) : Prop where
  nested : Nested (s.top :: s.below)
  covered : ∀ o ∈ done, o.kind = .Directory →
    (∃ d ∈ s.top :: s.below, d.path = o.path) ∨ ∃ e ∈ s.emitted, e.path = o.path
  amounts : ∀ w, Additive w → totalOf w done ≤ satMax byteBits →
    Amounts w done 0 (s.top :: s.below) ∧
      ∀ e ∈ s.emitted, w e.metrics = totalUnder w e.path done

/-- What the stream has established after `done`. -/
structure Reading (done : List PathObservation) (s : OpenStack) : Prop extends Holding done s where
  /-- The last path lies in the innermost open directory. -/
  inside : ∀ p, s.previous = some p → p.startsWith s.top.path = true
  started : s.previous = none → s.top.path = .root
  before : ∀ o ∈ done, ∃ p, s.previous = some p ∧ o.path ≤ p
  observed : ∀ d ∈ s.top :: s.below, d.path = .root ∨
    ∃ o ∈ done, o.kind = .Directory ∧ o.path = d.path
  /-- A closed directory is left for good. -/
  left : ∀ e ∈ s.emitted, ∃ p, s.previous = some p ∧ e.path < p ∧ p.startsWith e.path = false
  parents : ∀ o ∈ done, ∃ d, o.path.isDirectChildOf d = true ∧
    (d = .root ∨ ∃ o' ∈ done, o'.kind = .Directory ∧ o'.path = d)

theorem totalUnder_le (w : SummaryMetrics → Nat) (f : RelativePath) (l : List PathObservation) :
    totalUnder w f l ≤ totalOf w l :=
  sumWhere_le fun _ _ _ => rfl

theorem Reading.start : Reading [] .start where
  nested := rfl
  inside := by intro p hp; cases hp
  started := fun _ => rfl
  before := by intro o ho; cases ho
  observed := fun d hd => Or.inl (by rw [List.mem_singleton.mp hd]; rfl)
  left := by intro e he; cases he
  covered := by intro o ho; cases ho
  parents := by intro o ho; cases ho
  amounts := fun _ hw _ => ⟨⟨hw.zero, trivial⟩, by intro e he; cases he⟩

theorem OpenDirectory.forceUncertainIfUnreadable_path (u : UnreadableDirectories)
    (d : OpenDirectory) : (d.forceUncertainIfUnreadable u).path = d.path := by
  unfold forceUncertainIfUnreadable
  split <;> rfl

theorem OpenDirectory.forceUncertainIfUnreadable_amount (hw : Additive w) (u : UnreadableDirectories)
    (d : OpenDirectory) : w (d.forceUncertainIfUnreadable u).metrics = w d.metrics := by
  unfold forceUncertainIfUnreadable
  split
  · exact hw.openUpper _
  · rfl

/-- The state while directories are closed for `path`: everything but the last path is as after
`done`, and what was closed does not contain `path`. -/
structure Closing (done : List PathObservation) (path : RelativePath) (s : OpenStack) : Prop
    extends Holding done s where
  observed : ∀ d ∈ s.top :: s.below, d.path = .root ∨
    ∃ o ∈ done, o.kind = .Directory ∧ o.path = d.path
  above : s.top.path < path
  left : ∀ e ∈ s.emitted, e.path < path ∧ path.startsWith e.path = false

/-- Closing the innermost directory, whose bytes join its parent's. -/
theorem amounts_close {done : List PathObservation} {u : UnreadableDirectories} {s : OpenStack}
    {parent : OpenDirectory} {rest : List OpenDirectory}
    (hw : Additive w) (hb : totalOf w done ≤ satMax byteBits)
    (h : Amounts w done 0 (s.top :: parent :: rest)) :
    Amounts w done 0 ((s.close u parent rest).top :: rest) ∧
      w (s.top.forceUncertainIfUnreadable u).metrics = totalUnder w s.top.path done := by
  obtain ⟨htop, hparent, hrest⟩ := h
  have hlower := OpenDirectory.forceUncertainIfUnreadable_amount hw u s.top
  have hle := totalUnder_le w parent.path done
  refine ⟨⟨?_, hrest⟩, by omega⟩
  show w (parent.metrics.addChild (s.top.forceUncertainIfUnreadable u).metrics) + 0 =
    totalUnder w parent.path done
  rw [hw.addChild, satAdd_of_le (by omega)]
  omega

theorem Holding.close {done : List PathObservation} {s : OpenStack} {u : UnreadableDirectories}
    {parent : OpenDirectory} {rest : List OpenDirectory} (h : Holding done s)
    (hbelow : s.below = parent :: rest) : Holding done (s.close u parent rest) := by
  obtain ⟨hnested, hcovered, hamounts⟩ := h
  rw [hbelow] at hnested hcovered hamounts
  have hpath := OpenDirectory.forceUncertainIfUnreadable_path u s.top
  refine ⟨hnested.2.congr rfl, fun o ho hk => ?_, fun w hw hb => ?_⟩
  · rcases hcovered o ho hk with ⟨d, hd, he⟩ | ⟨e, hmem, he⟩
    · rcases List.mem_cons.mp hd with rfl | hd
      · exact Or.inr ⟨_, List.mem_append_right _ List.mem_cons_self, hpath.trans he⟩
      · rcases List.mem_cons.mp hd with rfl | hd
        · exact Or.inl ⟨_, List.mem_cons_self, he⟩
        · exact Or.inl ⟨d, List.mem_cons_of_mem _ hd, he⟩
    · exact Or.inr ⟨e, List.mem_append_left _ hmem, he⟩
  · obtain ⟨hstack, hemit⟩ := hamounts w hw hb
    obtain ⟨hstack', hlower⟩ := amounts_close (u := u) hw hb hstack
    refine ⟨hstack', fun e he => ?_⟩
    rcases List.mem_append.mp he with he | he
    · exact hemit e he
    · rw [List.mem_singleton.mp he]
      show w (s.top.forceUncertainIfUnreadable u).metrics =
        totalUnder w (s.top.forceUncertainIfUnreadable u).path done
      rw [hpath]
      exact hlower

theorem Closing.close {done : List PathObservation} {path : RelativePath} {s : OpenStack}
    {u : UnreadableDirectories} {parent : OpenDirectory} {rest : List OpenDirectory}
    (h : Closing done path s) (hbelow : s.below = parent :: rest)
    (hn : path.startsWith s.top.path = false) : Closing done path (s.close u parent rest) := by
  have hnested := h.nested
  rw [hbelow] at hnested
  refine ⟨h.toHolding.close hbelow, fun d hd => ?_, ?_, fun e he => ?_⟩
  · rcases List.mem_cons.mp hd with rfl | hd
    · exact h.observed parent (by rw [hbelow]; simp)
    · refine h.observed d ?_
      rw [hbelow]
      exact List.mem_cons_of_mem _ (List.mem_cons_of_mem _ hd)
  · show parent.path < path
    exact lt_of_le_of_lt (RelativePath.le_of_startsWith
      (hnested.startsWith (List.mem_cons_of_mem _ List.mem_cons_self))) h.above
  · rcases List.mem_append.mp he with he | he
    · exact h.left e he
    · rw [List.mem_singleton.mp he]
      show (s.top.forceUncertainIfUnreadable u).path < path ∧
        path.startsWith (s.top.forceUncertainIfUnreadable u).path = false
      rw [OpenDirectory.forceUncertainIfUnreadable_path]
      exact ⟨h.above, hn⟩

theorem Closing.closeUntil {done : List PathObservation} {path : RelativePath} {s : OpenStack}
    {u : UnreadableDirectories} {below : List OpenDirectory} (h : Closing done path s)
    (hbelow : s.below = below) :
    Closing done path (OpenStack.closeUntil u path below s) ∧
      path.startsWith (OpenStack.closeUntil u path below s).top.path = true ∧
      (OpenStack.closeUntil u path below s).previous = s.previous := by
  induction below generalizing s with
  | nil =>
    refine ⟨h, ?_, rfl⟩
    have hroot := h.nested
    rw [hbelow] at hroot
    show path.startsWith s.top.path = true
    rw [hroot]
    exact path.startsWith_root
  | cons parent rest ih =>
    unfold OpenStack.closeUntil
    split
    · rename_i hs
      exact ⟨h, hs, rfl⟩
    · rename_i hs
      exact ih (h.close hbelow (Bool.eq_false_iff.mpr hs)) rfl

theorem OpenStack.orderCheck_ok {previous : Option RelativePath} {path : RelativePath}
    (h : orderCheck previous path = .ok ()) : ∀ p, previous = some p → p < path := by
  rintro p rfl
  unfold orderCheck at h
  dsimp only at h
  split at h
  · cases h
  · split at h
    · cases h
    · rename_i hlt hne
      exact lt_of_le_of_ne (not_lt.mp hlt) fun he => hne he.symm

/-- A later path of the stream is outside every closed directory, and above all it has read. -/
theorem Reading.closing {done : List PathObservation} {s : OpenStack} {path : RelativePath}
    (h : Reading done s) (hroot : path.isRoot = false)
    (horder : ∀ p, s.previous = some p → p < path) :
    Closing done path { s with previous := some path } := by
  refine ⟨⟨h.nested, h.covered, h.amounts⟩, h.observed, ?_, fun e he => ?_⟩
  · show s.top.path < path
    cases hp : s.previous with
    | none =>
      rw [h.started hp]
      refine lt_of_le_of_ne (RelativePath.le_of_startsWith path.startsWith_root) ?_
      rintro rfl
      cases hroot
    | some p => exact lt_of_le_of_lt (RelativePath.le_of_startsWith (h.inside p hp)) (horder p hp)
  · obtain ⟨p, hp, hlt, hn⟩ := h.left e he
    refine ⟨lt_trans hlt (horder p hp), Bool.eq_false_iff.mpr fun hs => ?_⟩
    exact lt_asymm (horder p hp) (RelativePath.lt_of_startsWith_of_not hlt hn hs)

/-- The stack when the directories `o` is not in are closed and `o` lies directly in the
innermost open one. -/
structure Arrived (done : List PathObservation) (o : PathObservation) (s : OpenStack) : Prop
    extends Closing done o.path s where
  child : o.path.isDirectChildOf s.top.path = true
  previous : s.previous = some o.path
  before : ∀ x ∈ done, x.path < o.path
  parents : ∀ x ∈ done, ∃ d, x.path.isDirectChildOf d = true ∧
    (d = .root ∨ ∃ x' ∈ done, x'.kind = .Directory ∧ x'.path = d)

namespace Arrived

variable {done : List PathObservation} {o : PathObservation} {s : OpenStack}

theorem inside (h : Arrived done o s) : o.path.startsWith s.top.path = true := by
  have hchild := h.child
  rw [RelativePath.isDirectChildOf, Bool.and_eq_true] at hchild
  exact hchild.2

theorem observed' (h : Arrived done o s) : ∀ d ∈ s.top :: s.below, d.path = .root ∨
    ∃ x ∈ done ++ [o], x.kind = .Directory ∧ x.path = d.path := by
  intro d hd
  rcases h.observed d hd with hr | ⟨x, hx, hk⟩
  · exact Or.inl hr
  · exact Or.inr ⟨x, List.mem_append_left _ hx, hk⟩

theorem parents' (h : Arrived done o s) : ∀ x ∈ done ++ [o], ∃ d, x.path.isDirectChildOf d = true ∧
    (d = .root ∨ ∃ x' ∈ done ++ [o], x'.kind = .Directory ∧ x'.path = d) := by
  intro x hx
  rcases List.mem_append.mp hx with hx | hx
  · obtain ⟨d, hd, hr | ⟨x', hx', hk⟩⟩ := h.parents x hx
    · exact ⟨d, hd, Or.inl hr⟩
    · exact ⟨d, hd, Or.inr ⟨x', List.mem_append_left _ hx', hk⟩⟩
  · rw [List.mem_singleton.mp hx]
    exact ⟨s.top.path, h.child, h.observed' s.top List.mem_cons_self⟩

theorem before' (h : Arrived done o s) :
    ∀ x ∈ done ++ [o], ∃ p, s.previous = some p ∧ x.path ≤ p := by
  intro x hx
  refine ⟨o.path, h.previous, ?_⟩
  rcases List.mem_append.mp hx with hx | hx
  · exact le_of_lt (h.before x hx)
  · rw [List.mem_singleton.mp hx]

theorem left' (h : Arrived done o s) :
    ∀ e ∈ s.emitted, ∃ p, s.previous = some p ∧ e.path < p ∧ p.startsWith e.path = false :=
  fun e he => ⟨o.path, h.previous, h.left e he⟩

/-- What the totals become: `o` is below the open directories and outside the closed ones. -/
theorem amounts' (h : Arrived done o s) (hw : Additive w)
    (hb : totalOf w (done ++ [o]) ≤ satMax byteBits) :
    Amounts w (done ++ [o]) (w o.metrics) (s.top :: s.below) ∧
      ∀ e ∈ s.emitted, w e.metrics = totalUnder w e.path (done ++ [o]) := by
  rw [totalOf, sumWhere_append] at hb
  obtain ⟨hstack, hemit⟩ := h.amounts w hw (by unfold totalOf; omega)
  refine ⟨?_, fun e he => ?_⟩
  · have := hstack.snoc (o := o) fun d hd =>
      RelativePath.startsWith_trans h.inside (h.nested.startsWith hd)
    rwa [Nat.zero_add] at this
  · rw [hemit e he, totalUnder_snoc, (h.left e he).2]
    rfl

/-- A directory opens on top. -/
theorem directory (h : Arrived done o s) (hk : o.kind = .Directory) :
    Reading (done ++ [o]) { s with top := .fromObservation o, below := s.top :: s.below } where
  nested := ⟨h.child, h.nested⟩
  inside := by
    intro p hp
    rw [h.previous] at hp
    cases hp
    exact RelativePath.startsWith_refl _
  started := by
    intro hp
    rw [h.previous] at hp
    cases hp
  before := h.before'
  observed := by
    intro d hd
    rcases List.mem_cons.mp hd with rfl | hd
    · exact Or.inr ⟨o, List.mem_append_right _ List.mem_cons_self, hk, rfl⟩
    · exact h.observed' d hd
  left := h.left'
  covered := by
    intro x hx hkx
    rcases List.mem_append.mp hx with hx | hx
    · rcases h.covered x hx hkx with ⟨d, hd, he⟩ | he
      · exact Or.inl ⟨d, List.mem_cons_of_mem _ hd, he⟩
      · exact Or.inr he
    · rw [List.mem_singleton.mp hx]
      exact Or.inl ⟨_, List.mem_cons_self, rfl⟩
  parents := h.parents'
  amounts := by
    intro w hw hb
    obtain ⟨hstack, hemit⟩ := h.amounts' hw hb
    have hnone : totalUnder w o.path done = 0 := by
      apply sumWhere_eq_zero
      intro x hx hu
      exact absurd (h.before x hx) (not_lt.mpr (RelativePath.le_of_startsWith hu))
    have hown : totalUnder w o.path (done ++ [o]) = w o.metrics := by
      rw [totalUnder_snoc, hnone, if_pos (RelativePath.startsWith_refl _), Nat.zero_add]
    refine ⟨⟨hown.symm, ?_⟩, hemit⟩
    show Amounts w (done ++ [o]) (totalUnder w o.path (done ++ [o])) (s.top :: s.below)
    rw [hown]
    exact hstack

/-- A file or link joins the innermost directory. -/
theorem leaf (h : Arrived done o s) (hk : o.kind ≠ .Directory) :
    Reading (done ++ [o]) { s with top := s.top.addChild o.metrics o.coverage } where
  nested := h.nested.congr rfl
  inside := by
    intro p hp
    rw [h.previous] at hp
    cases hp
    exact h.inside
  started := by
    intro hp
    rw [h.previous] at hp
    cases hp
  before := h.before'
  observed := by
    intro d hd
    rcases List.mem_cons.mp hd with rfl | hd
    · exact h.observed' s.top List.mem_cons_self
    · exact h.observed' d (List.mem_cons_of_mem _ hd)
  left := h.left'
  covered := by
    intro x hx hkx
    rcases List.mem_append.mp hx with hx | hx
    · rcases h.covered x hx hkx with ⟨d, hd, he⟩ | he
      · rcases List.mem_cons.mp hd with rfl | hd
        · exact Or.inl ⟨_, List.mem_cons_self, he⟩
        · exact Or.inl ⟨d, List.mem_cons_of_mem _ hd, he⟩
      · exact Or.inr he
    · rw [List.mem_singleton.mp hx] at hkx
      exact absurd hkx hk
  parents := h.parents'
  amounts := by
    intro w hw hb
    obtain ⟨⟨htop, hrest⟩, hemit⟩ := h.amounts' hw hb
    have hle := totalUnder_le w s.top.path (done ++ [o])
    refine ⟨⟨?_, hrest⟩, hemit⟩
    show w (s.top.metrics.addChild o.metrics) + 0 = totalUnder w s.top.path (done ++ [o])
    rw [hw.addChild, satAdd_of_le (by omega)]
    exact htop

end Arrived

/-- What an accepted observation says of its path, and what it does with the directory it lies in. -/
theorem OpenStack.observe_ok {u : UnreadableDirectories} {s s' : OpenStack} {o : PathObservation}
    (h : observe u s o = .ok s') :
    o.path.isRoot = false ∧ (∀ p, s.previous = some p → p < o.path) ∧
      ∃ t, t = closeUntil u o.path s.below { s with previous := some o.path } ∧
        o.path.isDirectChildOf t.top.path = true ∧
        (o.kind = .Directory ∧
            s' = { t with top := .fromObservation o, below := t.top :: t.below } ∨
          o.kind ≠ .Directory ∧ s' = { t with top := t.top.addChild o.metrics o.coverage }) := by
  unfold observe at h
  split at h
  · cases h
  rename_i hroot
  split at h
  · cases h
  rename_i hcheck
  dsimp only at h
  split at h
  · cases h
  rename_i hchild
  rw [Bool.not_eq_true', Bool.not_eq_false] at hchild
  refine ⟨Bool.eq_false_iff.mpr hroot, orderCheck_ok hcheck, _, rfl, hchild, ?_⟩
  cases hk : o.kind with
  | Directory =>
    rw [hk] at h
    cases h
    exact Or.inl ⟨rfl, rfl⟩
  | File =>
    rw [hk] at h
    cases h
    exact Or.inr ⟨PathEntryKind.noConfusion, rfl⟩
  | Link =>
    rw [hk] at h
    cases h
    exact Or.inr ⟨PathEntryKind.noConfusion, rfl⟩

theorem Reading.below_new {done : List PathObservation} {s : OpenStack} (h : Reading done s)
    {path : RelativePath} (horder : ∀ p, s.previous = some p → p < path) :
    ∀ x ∈ done, x.path < path := by
  intro x hx
  obtain ⟨p, hp, hle⟩ := h.before x hx
  exact lt_of_le_of_lt hle (horder p hp)

/-- When the directories `o` is not in are closed. -/
theorem Reading.arrived {done : List PathObservation} {s : OpenStack} {o : PathObservation}
    {u : UnreadableDirectories} (h : Reading done s) (hroot : o.path.isRoot = false)
    (horder : ∀ p, s.previous = some p → p < o.path)
    (hchild : o.path.isDirectChildOf
      (OpenStack.closeUntil u o.path s.below { s with previous := some o.path }).top.path = true) :
    Arrived done o (OpenStack.closeUntil u o.path s.below { s with previous := some o.path }) := by
  obtain ⟨hclosing, -, hprevious⟩ := (h.closing hroot horder).closeUntil (u := u) rfl
  exact ⟨hclosing, hchild, hprevious, h.below_new horder, h.parents⟩

theorem Reading.observe {done : List PathObservation} {s s' : OpenStack} {o : PathObservation}
    {u : UnreadableDirectories} (h : Reading done s) (ho : OpenStack.observe u s o = .ok s') :
    Reading (done ++ [o]) s' := by
  obtain ⟨hroot, horder, t, rfl, hchild, hs⟩ := OpenStack.observe_ok ho
  have harrived := h.arrived hroot horder hchild
  rcases hs with ⟨hk, rfl⟩ | ⟨hk, rfl⟩
  · exact harrived.directory hk
  · exact harrived.leaf hk

theorem Reading.sorted_snoc {done : List PathObservation} {s s' : OpenStack} {o : PathObservation}
    {u : UnreadableDirectories} (h : Reading done s) (hd : SortedBy PathObservation.path done)
    (ho : OpenStack.observe u s o = .ok s') : SortedBy PathObservation.path (done ++ [o]) := by
  obtain ⟨-, horder, -⟩ := OpenStack.observe_ok ho
  refine List.pairwise_append.mpr ⟨hd, List.pairwise_singleton _ _, fun x hx y hy => ?_⟩
  rw [List.mem_singleton.mp hy]
  exact h.below_new horder x hx

/-- What the summaries of a stream say. -/
structure Summarised (observations : List PathObservation) (summaries : List DirectorySummary) :
    Prop where
  root : ∃ e ∈ summaries, e.path = .root
  covered : ∀ o ∈ observations, o.kind = .Directory → ∃ e ∈ summaries, e.path = o.path
  amounts : ∀ w, Additive w → totalOf w observations ≤ satMax byteBits →
    ∀ e ∈ summaries, w e.metrics = totalUnder w e.path observations

theorem Holding.closeAll {done : List PathObservation} {s : OpenStack} {u : UnreadableDirectories}
    {below : List OpenDirectory} (h : Holding done s) (hbelow : s.below = below) :
    Summarised done (OpenStack.closeAll u below s).emitted := by
  induction below generalizing s with
  | nil =>
    obtain ⟨hn, hc, ha⟩ := h
    rw [hbelow] at hn hc ha
    have hpath := OpenDirectory.forceUncertainIfUnreadable_path u s.top
    unfold OpenStack.closeAll
    refine ⟨⟨_, List.mem_append_right _ List.mem_cons_self, hpath.trans hn⟩, fun o ho hk => ?_,
      fun w hw hb e he => ?_⟩
    · rcases hc o ho hk with ⟨d, hd, he⟩ | ⟨e, hmem, he⟩
      · rw [List.mem_singleton.mp hd] at he
        exact ⟨_, List.mem_append_right _ List.mem_cons_self, hpath.trans he⟩
      · exact ⟨e, List.mem_append_left _ hmem, he⟩
    · obtain ⟨⟨htop, -⟩, hemit⟩ := ha w hw hb
      rcases List.mem_append.mp he with he | he
      · exact hemit e he
      · rw [List.mem_singleton.mp he]
        show w (s.top.forceUncertainIfUnreadable u).metrics =
          totalUnder w (s.top.forceUncertainIfUnreadable u).path done
        rw [hpath, OpenDirectory.forceUncertainIfUnreadable_amount hw]
        exact htop
  | cons parent rest ih => exact ih (h.close hbelow) rfl

/-- The observations form a tree: nothing is recorded at the root, and what holds an entry is the
root or a recorded directory. -/
structure TreeShaped (observations : List PathObservation) : Prop where
  sorted : SortedBy PathObservation.path observations
  parents : ∀ o ∈ observations, ∃ d, o.path.isDirectChildOf d = true ∧
    (d = .root ∨ ∃ o' ∈ observations, o'.kind = .Directory ∧ o'.path = d)

/-- A reduced stream is a tree, and its summaries add it up. -/
theorem reduceSortedPathStream_ok {u : UnreadableDirectories} {observations : List PathObservation}
    {summaries : List DirectorySummary}
    (h : reduceSortedPathStream u observations = .ok summaries) :
    TreeShaped observations ∧ Summarised observations summaries := by
  obtain ⟨s, hs, rfl⟩ := map_eq_ok h
  obtain ⟨hread, hsorted⟩ := foldlM_ok (P := fun done s => Reading done s ∧
    SortedBy PathObservation.path done) hs ⟨Reading.start, .nil⟩
    fun done s o s' hP ho => ⟨hP.1.observe ho, hP.1.sorted_snoc hP.2 ho⟩
  exact ⟨⟨hsorted, hread.parents⟩, hread.toHolding.closeAll rfl⟩

end Excise
