import Mathlib.Data.List.Perm.Subperm
import Mathlib.Tactic.Common

/-!
# Walking a finite tree

A walk lists the members of a tree and keeps the folders that are still to be read. It takes one
of them, in whatever order, lists its children and has then read it. When no folder waits every
member has been listed once, with what lies above it first.
-/

namespace Excise
set_option autoImplicit false

namespace TreeWalk

variable {ω : Type}

/-- Every member but the top is the child of one folder of the tree. -/
structure Shape (tree : List ω) (child : ω → ω → Prop) (folder : ω → Bool) (top : ω) : Prop where
  distinct : tree.Nodup
  top_mem : top ∈ tree
  parent : ∀ e ∈ tree, e ≠ top → ∃ d ∈ tree, folder d = true ∧ child d e
  only_parent : ∀ d ∈ tree, ∀ d' ∈ tree, ∀ e, child d e → child d' e → d = d'
  top_alone : ∀ d ∈ tree, ¬child d top
  founded : WellFounded child

/-- Whoever is listed comes after its parent. -/
def ParentsFirst (child : ω → ω → Prop) (top : ω) (listed : List ω) : Prop :=
  ∀ before e after, listed = before ++ e :: after → e = top ∨ ∃ d ∈ before, child d e

/-- Between two folders. -/
structure Walked (tree : List ω) (child : ω → ω → Prop) (folder : ω → Bool) (top : ω)
    (read waiting listed : List ω) : Prop where
  subset : listed ⊆ tree
  distinct : listed.Nodup
  top_mem : top ∈ listed
  parentsFirst : ParentsFirst child top listed
  folders : (read ++ waiting).Perm (listed.filter folder)
  complete : ∀ d ∈ read, ∀ e ∈ tree, child d e → e ∈ listed
  fresh : ∀ d ∈ waiting, ∀ e ∈ listed, ¬child d e

/-- In the middle of a folder, whose children `seen` are listed so far. -/
structure Reading (tree : List ω) (child : ω → ω → Prop) (folder : ω → Bool) (top : ω)
    (read : List ω) (d : ω) (seen waiting listed : List ω) : Prop where
  subset : listed ⊆ tree
  distinct : listed.Nodup
  top_mem : top ∈ listed
  parentsFirst : ParentsFirst child top listed
  folders : (read ++ d :: waiting).Perm (listed.filter folder)
  complete : ∀ d ∈ read, ∀ e ∈ tree, child d e → e ∈ listed
  fresh : ∀ d ∈ waiting, ∀ e ∈ listed, ¬child d e
  seen_iff : ∀ e, e ∈ seen ↔ e ∈ listed ∧ child d e

variable {tree : List ω} {child : ω → ω → Prop} {folder : ω → Bool} {top d e : ω}
  {read waiting listed seen : List ω}

/-! ## Parents first -/

theorem ParentsFirst.append (h : ParentsFirst child top listed) (hd : d ∈ listed)
    (he : child d e) : ParentsFirst child top (listed ++ [e]) := by
  intro before x after hsplit
  rcases List.eq_nil_or_concat after with rfl | ⟨rest, y, rfl⟩
  · obtain ⟨rfl, hx⟩ := List.append_inj' hsplit rfl
    cases hx
    exact Or.inr ⟨d, hd, he⟩
  · rw [List.concat_eq_append, ← List.cons_append, ← List.append_assoc] at hsplit
    exact h before x rest (List.append_inj' hsplit rfl).1

/-- A relation that leads through the parents. -/
structure Above (tree : List ω) (child : ω → ω → Prop) (top : ω) (above : ω → ω → Prop) : Prop where
  none : ∀ a ∈ tree, ¬above a top
  through : ∀ a ∈ tree, ∀ d ∈ tree, ∀ e, above a e → child d e → a = d ∨ above a d

/-- What lies above a listed member is listed before it. -/
theorem ParentsFirst.above {above : ω → ω → Prop} (habove : Above tree child top above)
    (hsubset : listed ⊆ tree) (h : ParentsFirst child top listed) {a : ω} (ha : a ∈ tree) :
    ∀ {e : ω} {before after : List ω}, above a e → listed = before ++ e :: after → a ∈ before := by
  intro e before
  -- along the parents, each of which stands further to the front
  induction hn : before.length using Nat.strongRecOn generalizing e before with
  | ind n ih =>
    intro after hae hsplit
    rcases h before e after hsplit with rfl | ⟨d, hd, hchild⟩
    · exact absurd hae (habove.none a ha)
    · have hdtree : d ∈ tree := hsubset (hsplit ▸ List.mem_append_left _ hd)
      rcases habove.through a ha d hdtree e hae hchild with rfl | had
      · exact hd
      · obtain ⟨first, last, rfl⟩ := List.append_of_mem hd
        have hlt : first.length < n := by
          rw [← hn, List.length_append, List.length_cons]
          omega
        have hfirst : listed = first ++ d :: (last ++ e :: after) := by
          rw [hsplit, List.append_assoc, List.cons_append]
        exact List.mem_append_left _ (ih _ hlt rfl had hfirst)

theorem ParentsFirst.pairwise {above : ω → ω → Prop} (habove : Above tree child top above)
    (hsubset : listed ⊆ tree) (hdistinct : listed.Nodup) (h : ParentsFirst child top listed) :
    listed.Pairwise fun earlier later => ¬above later earlier := by
  rw [List.pairwise_iff_forall_sublist]
  intro earlier later hsub hlater
  obtain ⟨before, rest, rfl, hbefore, hrest⟩ := List.cons_sublist_iff.mp hsub
  obtain ⟨first, last, rfl⟩ := List.append_of_mem hbefore
  have hmem : later ∈ rest := List.singleton_sublist.mp hrest
  have hsplit : first ++ earlier :: last ++ rest = first ++ earlier :: (last ++ rest) := by
    rw [List.append_assoc, List.cons_append]
  have hfirst : later ∈ first :=
    h.above habove hsubset (hsubset (List.mem_append_right _ hmem)) hlater hsplit
  exact (List.nodup_append.mp hdistinct).2.2 later (List.mem_append_left _ hfirst) later hmem rfl

/-! ## The steps of a walk -/

theorem Walked.start (hshape : Shape tree child folder top) :
    Walked tree child folder top [] ([top].filter folder) [top] where
  subset := fun e he => List.mem_singleton.mp he ▸ hshape.top_mem
  distinct := List.pairwise_singleton _ top
  top_mem := List.mem_singleton_self top
  parentsFirst := by
    intro before e after hsplit
    have hmem : e ∈ [top] := hsplit ▸ List.mem_append_right _ List.mem_cons_self
    exact Or.inl (List.mem_singleton.mp hmem)
  folders := List.Perm.refl _
  complete := fun _ hd => nomatch hd
  fresh := by
    intro d hd e he
    rw [List.mem_singleton.mp he]
    exact hshape.top_alone d (List.mem_singleton.mp (List.mem_filter.mp hd).1 ▸ hshape.top_mem)

/-- A folder is taken, wherever it waited. -/
theorem Walked.take {rest : List ω} (h : Walked tree child folder top read waiting listed)
    (hwaiting : waiting.Perm (d :: rest)) :
    Reading tree child folder top read d [] rest listed where
  subset := h.subset
  distinct := h.distinct
  top_mem := h.top_mem
  parentsFirst := h.parentsFirst
  folders := (hwaiting.symm.append_left read).trans h.folders
  complete := h.complete
  fresh := fun d' hd' => h.fresh d' (hwaiting.symm.subset (List.mem_cons_of_mem d hd'))
  seen_iff := by
    intro e
    constructor
    · intro he
      cases he
    · rintro ⟨he, hchild⟩
      exact absurd hchild (h.fresh d (hwaiting.symm.subset List.mem_cons_self) e he)

theorem Reading.folder_mem (h : Reading tree child folder top read d seen waiting listed) :
    d ∈ listed ∧ folder d = true :=
  List.mem_filter.mp (h.folders.subset (List.mem_append_right _ List.mem_cons_self))

theorem Reading.waiting_mem (h : Reading tree child folder top read d seen waiting listed) {d' : ω}
    (hd' : d' ∈ waiting) : d' ∈ listed ∧ d' ≠ d := by
  refine ⟨(List.mem_filter.mp (h.folders.subset (List.mem_append_right _
    (List.mem_cons_of_mem d hd')))).1, ?_⟩
  rintro rfl
  have hnodup : (read ++ d' :: waiting).Nodup := h.folders.symm.nodup (h.distinct.filter _)
  exact (List.nodup_cons.mp (List.nodup_append.mp hnodup).2.1).1 hd'

/-- A child that was not seen before is not listed, and nothing below it is. -/
theorem Reading.list (hshape : Shape tree child folder top)
    (h : Reading tree child folder top read d seen waiting listed) (he : e ∈ tree)
    (hchild : child d e) (hnew : e ∉ seen) :
    Reading tree child folder top read d (seen ++ [e])
      (waiting ++ [e].filter folder) (listed ++ [e]) := by
  have hd := h.folder_mem.1
  have hdtree : d ∈ tree := h.subset hd
  have hnot : e ∉ listed := fun hmem => hnew ((h.seen_iff e).mpr ⟨hmem, hchild⟩)
  have hne : e ≠ d := fun heq => hnot (heq ▸ hd)
  -- a listed child of `e` would have been listed after it
  have hbelow : ∀ x ∈ listed, ¬child e x := by
    intro x hx hex
    obtain ⟨before, after, hsplit⟩ := List.append_of_mem hx
    rcases h.parentsFirst before x after hsplit with rfl | ⟨p, hp, hpx⟩
    · exact hshape.top_alone e he hex
    · have hplisted : p ∈ listed := hsplit ▸ List.mem_append_left _ hp
      exact hnot (hshape.only_parent e he p (h.subset hplisted) x hex hpx ▸ hplisted)
  refine ⟨?_, ?_, List.mem_append_left _ h.top_mem, h.parentsFirst.append hd hchild, ?_, ?_, ?_, ?_⟩
  · exact List.append_subset.mpr ⟨h.subset, fun x hx => List.mem_singleton.mp hx ▸ he⟩
  · exact List.nodup_append.mpr ⟨h.distinct, List.pairwise_singleton _ e, fun x hx y hy hxy =>
      hnot (List.mem_singleton.mp hy ▸ hxy ▸ hx)⟩
  · rw [List.filter_append, ← List.cons_append, ← List.append_assoc]
    exact h.folders.append_right _
  · exact fun d' hd' x hx hc => List.mem_append_left _ (h.complete d' hd' x hx hc)
  · intro d' hd' x hx hc
    rcases List.mem_append.mp hd' with hd' | hd'
    · obtain ⟨hmem, hne⟩ := h.waiting_mem hd'
      rcases List.mem_append.mp hx with hx | hx
      · exact h.fresh d' hd' x hx hc
      · rw [List.mem_singleton.mp hx] at hc
        exact hne (hshape.only_parent d' (h.subset hmem) d hdtree e hc hchild)
    · rw [List.mem_singleton.mp (List.mem_filter.mp hd').1] at hc
      rcases List.mem_append.mp hx with hx | hx
      · exact hbelow x hx hc
      · rw [List.mem_singleton.mp hx] at hc
        exact hne (hshape.only_parent e he d hdtree e hc hchild)
  · intro x
    rw [List.mem_append, List.mem_append, List.mem_singleton, h.seen_iff]
    constructor
    · rintro (⟨hx, hc⟩ | rfl)
      · exact ⟨Or.inl hx, hc⟩
      · exact ⟨Or.inr rfl, hchild⟩
    · rintro ⟨hx | rfl, hc⟩
      · exact Or.inl ⟨hx, hc⟩
      · exact Or.inr rfl

/-- All children of the folder have been seen. -/
theorem Reading.close (h : Reading tree child folder top read d seen waiting listed)
    (hall : ∀ e ∈ tree, child d e → e ∈ seen) :
    Walked tree child folder top (read ++ [d]) waiting listed where
  subset := h.subset
  distinct := h.distinct
  top_mem := h.top_mem
  parentsFirst := h.parentsFirst
  folders := by
    rw [List.append_assoc, List.singleton_append]
    exact h.folders
  complete := by
    intro d' hd' e he hc
    rcases List.mem_append.mp hd' with hd' | hd'
    · exact h.complete d' hd' e he hc
    · rw [List.mem_singleton.mp hd'] at hc
      exact ((h.seen_iff e).mp (hall e he hc)).1
  fresh := h.fresh

/-! ## The end of a walk -/

theorem Walked.read_length_le (h : Walked tree child folder top read waiting listed) :
    read.length + waiting.length ≤ tree.length := by
  rw [← List.length_append, h.folders.length_eq]
  exact Nat.le_trans (List.length_filter_le _ _) (h.distinct.subperm h.subset).length_le

theorem Walked.finished (hshape : Shape tree child folder top)
    (h : Walked tree child folder top read [] listed) : listed.Perm tree := by
  refine (List.perm_ext_iff_of_nodup h.distinct hshape.distinct).mpr fun e =>
    ⟨fun he => h.subset he, fun he => ?_⟩
  induction e using hshape.founded.induction with
  | h e ih =>
    by_cases htop : e = top
    · exact htop ▸ h.top_mem
    · obtain ⟨d, hd, hfolder, hchild⟩ := hshape.parent e he htop
      have hread : d ∈ read := by
        have hmem := h.folders.symm.subset (List.mem_filter.mpr ⟨ih d hchild hd, hfolder⟩)
        rwa [List.append_nil] at hmem
      exact h.complete d hread e he hchild

end TreeWalk

end Excise
