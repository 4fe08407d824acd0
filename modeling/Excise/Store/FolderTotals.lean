import Excise.Store.DirectoryFold
import Excise.Store.DoubtIndex
import Excise.Store.FilteredPages
import Excise.Store.IdentityGroups

/-!
# Folder totals

An allocation is charged to the header of every folder at or above its recipient and to the entries
on the way. So a header of a finished table holds what the path observations below it add up to and
the allocations whose recipient lies below it, and the entries of a folder hold what its header
does, less the allocations shared at the folder itself.
-/

namespace Excise
set_option autoImplicit false

namespace PageIndex
variable {t t' : PageIndex} {f : RelativePath}

/-! ## What one allocation changes -/

/-- The header of `f` after `c` was charged. -/
def chargeHeader (c : AllocationContribution) (f : RelativePath) (h : StoredHeader) : StoredHeader :=
  if c.recipient.startsWith f = true ∧ (f ≠ c.recipient ∨ c.placement = .Shared) then
    { h with
      metrics := h.metrics.addPhysical c.allocatedBytes c.reclaimableBytes
      shared :=
        if f = c.recipient then
          some ((h.shared.getD .zero).addPhysical c.allocatedBytes c.reclaimableBytes)
        else h.shared }
  else h

/-- An entry that `c` reaches, after it was charged. -/
def reach (c : AllocationContribution) (isLeaf : Bool) (e : StoredEntry) : StoredEntry :=
  if isLeaf then
    { e with
      metrics :=
        { e.metrics with
          allocatedBytes := c.allocatedBytes
          reclaimableBytes := c.reclaimableBytes }
      leafAllocationSeen := true }
  else { e with metrics := e.metrics.addPhysical c.allocatedBytes c.reclaimableBytes }

def chargeEntry (c : AllocationContribution) (e : StoredEntry) : StoredEntry :=
  if e.path ≠ .root ∧ c.recipient.startsWith e.path = true then
    reach c (decide (c.placement = .Leaf ∧ e.path = c.recipient)) e
  else e

@[simp] theorem reach_observation (c : AllocationContribution) (isLeaf : Bool) (e : StoredEntry) :
    (reach c isLeaf e).observation = e.observation := by
  unfold reach
  split <;> rfl

@[simp] theorem chargeEntry_observation (c : AllocationContribution) (e : StoredEntry) :
    (chargeEntry c e).observation = e.observation := by
  unfold chargeEntry
  split
  · exact reach_observation c _ e
  · rfl

theorem setEntry_entries {p : RelativePath} {e : StoredEntry} (hd : t.Distinct)
    (he : t.entry? p = some e) (g : StoredEntry → StoredEntry) :
    (t.setEntry p (g e)).entries = t.entries.map fun x => if x.path = p then g x else x := by
  obtain ⟨hmem, hpath⟩ := entry?_some he
  unfold setEntry
  refine List.map_congr_left fun x hx => ?_
  by_cases hxp : x.path = p
  · rw [if_pos hxp, if_pos hxp, hd.eq_of_path hx hmem (hxp.trans hpath.symm)]
  · rw [if_neg hxp, if_neg hxp]

theorem updateEntryPhysical_entries {p : RelativePath} {c : AllocationContribution} {isLeaf : Bool}
    (hd : t.Distinct) (h : t.updateEntryPhysical p c isLeaf = .ok t') :
    t'.headers = t.headers ∧
      t'.entries = t.entries.map (fun x => if x.path = p then reach c isLeaf x else x) ∧
      ∃ e ∈ t.entries, e.path = p ∧ (e.observation.kind = .Directory ↔ isLeaf = false) := by
  unfold updateEntryPhysical at h
  split at h
  · cases h
  rename_i entry hentry
  obtain ⟨hmem, hpath⟩ := entry?_some hentry
  cases hleaf : isLeaf with
  | true =>
    rw [hleaf, if_pos rfl] at h
    split at h
    · cases h
    rename_i hkind
    cases h
    exact ⟨rfl, setEntry_entries hd hentry (reach c true), entry, hmem, hpath,
      iff_of_false hkind Bool.noConfusion⟩
  | false =>
    rw [hleaf, if_neg Bool.false_ne_true] at h
    split at h
    · cases h
    rename_i hkind
    rw [not_not] at hkind
    cases h
    exact ⟨rfl, setEntry_entries hd hentry (reach c false), entry, hmem, hpath, iff_of_true hkind rfl⟩

theorem updateHeaderPhysical_header? {c : AllocationContribution} {addShared : Bool}
    (h : t.updateHeaderPhysical f c addShared = .ok t') :
    t'.entries = t.entries ∧ (t.header? f).isSome = true ∧
      ∀ g, t'.header? g = (t.header? g).map fun x =>
        if g = f then
          { x with
            metrics := x.metrics.addPhysical c.allocatedBytes c.reclaimableBytes
            shared :=
              if addShared then
                some ((x.shared.getD .zero).addPhysical c.allocatedBytes c.reclaimableBytes)
              else x.shared }
        else x := by
  unfold updateHeaderPhysical at h
  split at h
  · cases h
  rename_i header hheader
  cases h
  refine ⟨rfl, by rw [hheader]; rfl, fun g => ?_⟩
  rw [header?_setHeader]
  by_cases hgf : g = f
  · rw [hgf, hheader]
    rfl
  · cases t.header? g with
    | none => rfl
    | some x => rw [Option.map_some, Option.map_some, if_neg hgf, if_neg hgf]

theorem eq_ancestorAt_iff {r q : RelativePath} {n : Nat} (hn : n ≤ r.depth) :
    q = ancestorAt r n ↔ r.startsWith q = true ∧ q.depth = n := by
  rw [RelativePath.startsWith_iff]
  unfold RelativePath.depth at hn ⊢
  constructor
  · rintro rfl
    exact ⟨List.take_prefix _ _, by rw [ancestorAt, List.length_take]; omega⟩
  · rintro ⟨hstarts, rfl⟩
    exact RelativePath.ext_components (List.prefix_iff_eq_take.mp hstarts)

/-- The table after the first `n` levels on the way to the recipient of `c`. -/
structure ChargedTo (t s : PageIndex) (c : AllocationContribution) (n : Nat) : Prop where
  headers : ∀ g, s.header? g = (t.header? g).map fun h =>
    if c.recipient.startsWith g = true ∧ g.depth < n then
      { h with metrics := h.metrics.addPhysical c.allocatedBytes c.reclaimableBytes }
    else h
  entries : s.entries = t.entries.map fun e =>
    if e.path ≠ .root ∧ c.recipient.startsWith e.path = true ∧ e.path.depth ≤ n then
      reach c (decide (c.placement = .Leaf ∧ e.path = c.recipient)) e
    else e
  found : ∀ q, q ≠ .root → c.recipient.startsWith q = true → q.depth ≤ n →
    ∃ e ∈ t.entries, e.path = q ∧
      (e.observation.kind = .Directory ↔ ¬(c.placement = .Leaf ∧ q = c.recipient))

theorem ChargedTo.zero (t : PageIndex) (c : AllocationContribution) : ChargedTo t t c 0 where
  headers g := by simp
  entries := by
    have hnone : ∀ e ∈ t.entries, ¬(e.path ≠ .root ∧ c.recipient.startsWith e.path = true ∧
        e.path.depth ≤ 0) := by
      rintro e - ⟨hroot, -, hdepth⟩
      exact hroot (RelativePath.ext_components (List.length_eq_zero_iff.mp (Nat.le_zero.mp hdepth)))
    conv_lhs => rw [← List.map_id t.entries]
    refine List.map_congr_left fun e he => ?_
    rw [if_neg (hnone e he)]
    rfl
  found q hroot _ hdepth :=
    absurd (RelativePath.ext_components (List.length_eq_zero_iff.mp (Nat.le_zero.mp hdepth))) hroot

theorem ChargedTo.distinct {s : PageIndex} {c : AllocationContribution} {n : Nat}
    (h : ChargedTo t s c n) (hd : t.Distinct) : s.Distinct := by
  have hobs : s.observations = t.observations := by
    unfold observations
    rw [h.entries, List.map_map]
    refine List.map_congr_left fun e _ => ?_
    dsimp only [Function.comp_apply]
    split
    · exact reach_observation c _ e
    · rfl
  unfold Distinct
  rw [hobs]
  exact hd

theorem ChargedTo.level {s s' : PageIndex} {c : AllocationContribution} {n : Nat}
    (h : ChargedTo t s c n) (hd : t.Distinct) (hn : n < c.recipient.depth)
    (hs : chargeLevel c s n = .ok s') : ChargedTo t s' c (n + 1) := by
  obtain ⟨m, hm, hentry⟩ := bind_eq_ok hs
  obtain ⟨hentries, -, hheaders⟩ := updateHeaderPhysical_header? hm
  have hdm : m.Distinct := (updateHeaderPhysical_refines hm).distinct (h.distinct hd)
  obtain ⟨hheads, hall, e, he, hpath, hkind⟩ := updateEntryPhysical_entries hdm hentry
  have hleaf : ∀ q, q = ancestorAt c.recipient (n + 1) →
      ((c.placement = .Leaf ∧ n + 1 = c.recipient.depth) ↔
        (c.placement = .Leaf ∧ q = c.recipient)) := by
    rintro q hq
    obtain ⟨hstarts, hdepth⟩ := (eq_ancestorAt_iff (by omega)).mp hq
    refine and_congr_right fun _ => ⟨fun hlast => ?_, fun heq => ?_⟩
    · rw [RelativePath.startsWith_iff] at hstarts
      exact RelativePath.ext_components (hstarts.eq_of_length (hdepth.trans hlast))
    · rw [← heq, hdepth]
  refine ⟨?_, ?_, ?_⟩
  · intro g
    have hheader : s'.header? g = m.header? g := by
      unfold header?
      rw [hheads]
    rw [hheader, hheaders g, h.headers g, Option.map_map]
    refine Option.map_congr fun x _ => ?_
    dsimp only [Function.comp_apply]
    by_cases hg : g = ancestorAt c.recipient n
    · obtain ⟨hstarts, hdepth⟩ := (eq_ancestorAt_iff (by omega)).mp hg
      have hbefore : ¬(c.recipient.startsWith g = true ∧ g.depth < n) := fun hlt => by omega
      have hafter : c.recipient.startsWith g = true ∧ g.depth < n + 1 := ⟨hstarts, by omega⟩
      rw [if_pos hg, if_neg hbefore, if_pos hafter, if_neg Bool.false_ne_true]
    · rw [if_neg hg]
      by_cases hbelow : c.recipient.startsWith g = true ∧ g.depth < n
      · rw [if_pos hbelow, if_pos ⟨hbelow.1, by omega⟩]
      · rw [if_neg hbelow, if_neg]
        rintro ⟨hstarts, hlt⟩
        by_cases hdepth : g.depth = n
        · exact hg ((eq_ancestorAt_iff (by omega)).mpr ⟨hstarts, hdepth⟩)
        · exact hbelow ⟨hstarts, by omega⟩
  · rw [hall, hentries, h.entries, List.map_map]
    refine List.map_congr_left fun x _ => ?_
    dsimp only [Function.comp_apply]
    by_cases hbelow : x.path ≠ .root ∧ c.recipient.startsWith x.path = true ∧ x.path.depth ≤ n
    · have hother : x.path ≠ ancestorAt c.recipient (n + 1) := by
        intro heq
        have hdepth := ((eq_ancestorAt_iff (by omega)).mp heq).2
        omega
      rw [if_pos hbelow, if_neg (by simpa [StoredEntry.path] using hother),
        if_pos ⟨hbelow.1, hbelow.2.1, by omega⟩]
    · rw [if_neg hbelow]
      by_cases hx : x.path = ancestorAt c.recipient (n + 1)
      · obtain ⟨hstarts, hdepth⟩ := (eq_ancestorAt_iff (by omega)).mp hx
        have hroot : x.path ≠ .root := by
          intro hroot
          rw [hroot] at hdepth
          exact absurd hdepth (Nat.succ_ne_zero n).symm
        rw [if_pos hx, if_pos ⟨hroot, hstarts, by omega⟩,
          decide_eq_decide.mpr (hleaf x.path hx)]
      · rw [if_neg hx, if_neg]
        rintro ⟨hroot, hstarts, hle⟩
        by_cases hdepth : x.path.depth = n + 1
        · exact hx ((eq_ancestorAt_iff (by omega)).mpr ⟨hstarts, hdepth⟩)
        · exact hbelow ⟨hroot, hstarts, by omega⟩
  · intro q hroot hstarts hle
    by_cases hdepth : q.depth = n + 1
    · have hq := (eq_ancestorAt_iff (by omega)).mpr ⟨hstarts, hdepth⟩
      rw [hentries, h.entries] at he
      obtain ⟨x, hx, rfl⟩ := List.mem_map.mp he
      have hobs : (if x.path ≠ .root ∧ c.recipient.startsWith x.path = true ∧ x.path.depth ≤ n then
          reach c (decide (c.placement = .Leaf ∧ x.path = c.recipient)) x else x).observation
            = x.observation := by
        split
        · exact reach_observation c _ x
        · rfl
      refine ⟨x, hx, ?_, ?_⟩
      · rw [StoredEntry.path, hobs] at hpath
        exact hpath.trans hq.symm
      · rw [hobs, decide_eq_false_iff_not] at hkind
        exact hkind.trans (not_congr (hleaf q hq))
    · exact h.found q hroot hstarts (by omega)

/-- What charging `c` changes. -/
structure Charged (t t' : PageIndex) (c : AllocationContribution) : Prop where
  headers : ∀ f, t'.header? f = (t.header? f).map (chargeHeader c f)
  entries : t'.entries = t.entries.map (chargeEntry c)
  found : ∀ q, q ≠ .root → c.recipient.startsWith q = true →
    ∃ e ∈ t.entries, e.path = q ∧
      (e.observation.kind = .Directory ↔ ¬(c.placement = .Leaf ∧ q = c.recipient))

theorem applyAllocation_charged (hd : t.Distinct) {c : AllocationContribution}
    (h : t.applyAllocation c = .ok t') : Charged t t' c := by
  obtain ⟨m, hm, h⟩ := bind_eq_ok h
  have hlevels : ∀ n s, n ≤ c.recipient.depth →
      (List.range n).foldlM (chargeLevel c) t = .ok s → ChargedTo t s c n := by
    intro n
    induction n with
    | zero =>
      intro s _ hs
      cases hs
      exact ChargedTo.zero t c
    | succ n ih =>
      intro s hn hs
      rw [List.range_succ, List.foldlM_append] at hs
      obtain ⟨r, hr, hs⟩ := bind_eq_ok hs
      rw [List.foldlM_cons] at hs
      obtain ⟨s', hs', hnil⟩ := bind_eq_ok hs
      cases hnil
      exact (ih r (by omega) hr).level hd (by omega) hs'
  have hlast := hlevels _ m (le_refl _) hm
  have hbelow : ∀ q : RelativePath, c.recipient.startsWith q = true → q.depth ≤ c.recipient.depth := by
    intro q hq
    rw [RelativePath.startsWith_iff] at hq
    exact hq.length_le
  have habove : ∀ q : RelativePath, (c.recipient.startsWith q = true ∧ q.depth < c.recipient.depth) ↔
      (c.recipient.startsWith q = true ∧ q ≠ c.recipient) := by
    intro q
    refine and_congr_right fun hq => ?_
    have hle := hbelow q hq
    rw [RelativePath.startsWith_iff] at hq
    constructor
    · rintro hlt rfl
      exact lt_irrefl _ hlt
    · intro hne
      refine lt_of_le_of_ne hle fun heq => hne (RelativePath.ext_components (hq.eq_of_length heq))
  have hentries : m.entries = t.entries.map (chargeEntry c) := by
    rw [hlast.entries]
    refine List.map_congr_left fun e _ => ?_
    unfold chargeEntry
    by_cases hcharged : e.path ≠ .root ∧ c.recipient.startsWith e.path = true
    · rw [if_pos hcharged, if_pos ⟨hcharged.1, hcharged.2, hbelow _ hcharged.2⟩]
    · rw [if_neg hcharged, if_neg fun hall => hcharged ⟨hall.1, hall.2.1⟩]
  have hfound : ∀ q, q ≠ .root → c.recipient.startsWith q = true → ∃ e ∈ t.entries, e.path = q ∧
      (e.observation.kind = .Directory ↔ ¬(c.placement = .Leaf ∧ q = c.recipient)) :=
    fun q hroot hq => hlast.found q hroot hq (hbelow q hq)
  split at h
  · -- the recipient is charged last, as the folder that shares the allocation
    rename_i hshared
    obtain ⟨hsame, -, hheaders⟩ := updateHeaderPhysical_header? h
    refine ⟨fun f => ?_, hsame.trans hentries, hfound⟩
    rw [hheaders f, hlast.headers f, Option.map_map]
    refine Option.map_congr fun x _ => ?_
    dsimp only [Function.comp_apply]
    unfold chargeHeader
    by_cases hf : f = c.recipient
    · have hbefore : ¬(c.recipient.startsWith f = true ∧ f.depth < c.recipient.depth) :=
        fun hlt => ((habove f).mp hlt).2 hf
      have hcharged : c.recipient.startsWith f = true ∧
          (f ≠ c.recipient ∨ c.placement = .Shared) :=
        ⟨hf ▸ RelativePath.startsWith_refl _, Or.inr hshared⟩
      rw [if_pos hf, if_neg hbefore, if_pos hcharged, if_pos hf, if_pos (rfl : true = true)]
    · rw [if_neg hf]
      by_cases hstarts : c.recipient.startsWith f = true
      · rw [if_pos ((habove f).mpr ⟨hstarts, hf⟩), if_pos ⟨hstarts, Or.inl hf⟩, if_neg hf]
      · rw [if_neg fun hlt => hstarts hlt.1, if_neg fun hlt => hstarts hlt.1]
  · rename_i hleaf
    cases h
    refine ⟨fun f => ?_, hentries, hfound⟩
    rw [hlast.headers f]
    refine Option.map_congr fun x _ => ?_
    unfold chargeHeader
    by_cases hf : c.recipient.startsWith f = true ∧ f ≠ c.recipient
    · rw [if_pos ((habove f).mpr hf), if_pos ⟨hf.1, Or.inl hf.2⟩, if_neg hf.2]
    · rw [if_neg fun hlt => hf ((habove f).mp hlt), if_neg]
      rintro ⟨hstarts, hne | hshared⟩
      · exact hf ⟨hstarts, hne⟩
      · exact hleaf hshared

/-! ## What all allocations change -/

/-- The known bytes of the allocations whose recipient lies at or below `f`. -/
abbrev chargedUnder (f : RelativePath) (cs : List AllocationContribution) : Nat :=
  sumWhere (fun c => c.recipient.startsWith f) (fun c => c.allocatedBytes.lower) cs

/-- The known bytes of the allocations shared at `f` itself. -/
abbrev sharedAt (f : RelativePath) (cs : List AllocationContribution) : Nat :=
  sumWhere (fun c => decide (c.recipient = f ∧ c.placement = .Shared))
    (fun c => c.allocatedBytes.lower) cs

/-- Allocations that can be charged to the table of `paths`: no total saturates, and a leaf gets at
most one of them and had no bytes of its own. -/
structure Chargeable (paths : List PathObservation) (cs : List AllocationContribution) : Prop where
  bounded : totalOf (fun m => m.allocatedBytes.lower) paths +
    (cs.map fun c => c.allocatedBytes.lower).sum ≤ satMax byteBits
  leaves : ∀ c ∈ cs, c.placement = .Leaf → c.recipient ≠ .root ∧
    ∀ o ∈ paths, o.path = c.recipient → o.metrics.allocatedBytes.lower = 0
  apart : cs.Pairwise fun a b => a.placement = .Leaf → b.placement = .Leaf → a.recipient ≠ b.recipient

theorem Chargeable.front {paths : List PathObservation} {cs more : List AllocationContribution}
    (h : Chargeable paths (cs ++ more)) : Chargeable paths cs := by
  refine ⟨?_, fun c hc => h.leaves c (List.mem_append_left _ hc), (List.pairwise_append.mp h.apart).1⟩
  have hb := h.bounded
  rw [List.map_append, List.sum_append] at hb
  omega

/-- The table of `paths` after the allocations `done` were charged. -/
structure Totalled (paths : List PathObservation) (done : List AllocationContribution)
    (t : PageIndex) : Prop where
  observations : t.observations = paths
  distinct : t.Distinct
  apparent : ∀ f h, t.header? f = some h →
    h.metrics.apparentBytes = totalUnder SummaryMetrics.apparentBytes f paths
  allocated : ∀ f h, t.header? f = some h → h.metrics.allocatedBytes.lower =
    totalUnder (fun m => m.allocatedBytes.lower) f paths + chargedUnder f done
  shared : ∀ f h, t.header? f = some h →
    (h.shared.elim 0 fun m => m.allocatedBytes.lower) = sharedAt f done
  folders : ∀ f, (t.header? f).isSome = true →
    f = .root ∨ ∃ e ∈ t.entries, e.path = f ∧ e.observation.kind = .Directory
  headed : ∀ e ∈ t.entries, e.observation.kind = .Directory → e.directorySummarySeen = true ∧
    ∃ h, t.header? e.path = some h ∧ e.metrics = h.metrics ∧ e.coverage = h.coverage
  known : ∀ e ∈ t.entries, e.observation.kind ≠ .Directory → e.identity.isSome = true
  leaves : ∀ e ∈ t.entries, e.observation.kind ≠ .Directory →
    e.intoPageEntry.metrics.allocatedBytes.lower =
      e.observation.metrics.allocatedBytes.lower + chargedUnder e.path done
  reached : ∀ c ∈ done, ∀ q, q ≠ .root → c.recipient.startsWith q = true →
    ∃ o ∈ paths, o.path = q ∧ (o.kind = .Directory ↔ ¬(c.placement = .Leaf ∧ q = c.recipient))

theorem intoPageEntry_lower (e : StoredEntry) :
    e.intoPageEntry.metrics.allocatedBytes.lower = e.shown.1.allocatedBytes.lower := by
  unfold StoredEntry.intoPageEntry clearUncertainPhysicalBounds
  dsimp only
  split <;> rfl

theorem mem_of_observations {paths : List PathObservation} (h : t.observations = paths)
    {e : StoredEntry} (he : e ∈ t.entries) : e.observation ∈ paths :=
  h ▸ List.mem_map_of_mem he

section Charge

variable {paths : List PathObservation} {done : List AllocationContribution}
  {c : AllocationContribution}

theorem chargedUnder_snoc (f : RelativePath) : chargedUnder f (done ++ [c]) =
    chargedUnder f done + if c.recipient.startsWith f then c.allocatedBytes.lower else 0 := by
  simp only [chargedUnder, sumWhere_append, sumWhere_cons, sumWhere_nil, Nat.add_zero]

theorem sharedAt_snoc (f : RelativePath) : sharedAt f (done ++ [c]) = sharedAt f done +
    if c.recipient = f ∧ c.placement = .Shared then c.allocatedBytes.lower else 0 := by
  simp only [sharedAt, sumWhere_append, sumWhere_cons, sumWhere_nil, Nat.add_zero,
    decide_eq_true_eq]

/-- What the next allocation adds cannot saturate a total. -/
theorem Chargeable.room (hc : Chargeable paths (done ++ [c])) (p : AllocationContribution → Bool)
    (f : RelativePath) : totalUnder (fun m => m.allocatedBytes.lower) f paths +
      sumWhere p (fun c => c.allocatedBytes.lower) done + c.allocatedBytes.lower
        ≤ satMax byteBits := by
  have hbounded := hc.bounded
  have htotal := totalUnder_le (fun m => m.allocatedBytes.lower) f paths
  have hsum := sumWhere_le_sum p (fun c => c.allocatedBytes.lower) done
  rw [List.map_append, List.sum_append, List.map_singleton, List.sum_singleton] at hbounded
  omega

/-- An entry is charged exactly when the header of its folder is. -/
theorem Charged.folder (h : Charged t t' c) {e : StoredEntry} (hd : t.Distinct)
    (he : e ∈ t.entries) (hroot : e.path ≠ .root) (hk : e.observation.kind = .Directory) :
    (c.recipient.startsWith e.path = true ∧ (e.path ≠ c.recipient ∨ c.placement = .Shared) ∧
        chargeEntry c e = reach c false e) ∨
      (c.recipient.startsWith e.path ≠ true ∧ chargeEntry c e = e) := by
  unfold chargeEntry
  by_cases hstarts : c.recipient.startsWith e.path = true
  · obtain ⟨x, hx, hpath, hkind⟩ := h.found e.path hroot hstarts
    obtain rfl := hd.eq_of_path hx he hpath
    have hnot := hkind.mp hk
    refine Or.inl ⟨hstarts, ?_, ?_⟩
    · cases hplacement : c.placement with
      | Shared => exact Or.inr rfl
      | Leaf => exact Or.inl fun heq => hnot ⟨hplacement, heq⟩
    · rw [if_pos ⟨hroot, hstarts⟩, decide_eq_false hnot]
  · exact Or.inr ⟨hstarts, if_neg fun hall => hstarts hall.2⟩

/-- A file that an allocation reaches is its leaf. -/
theorem Charged.leaf (h : Charged t t' c) {e : StoredEntry} (hd : t.Distinct)
    (he : e ∈ t.entries) (hroot : e.path ≠ .root) (hk : e.observation.kind ≠ .Directory) :
    (c.placement = .Leaf ∧ e.path = c.recipient ∧ chargeEntry c e = reach c true e) ∨
      (c.recipient.startsWith e.path ≠ true ∧ chargeEntry c e = e) := by
  unfold chargeEntry
  by_cases hstarts : c.recipient.startsWith e.path = true
  · obtain ⟨x, hx, hpath, hkind⟩ := h.found e.path hroot hstarts
    obtain rfl := hd.eq_of_path hx he hpath
    have hleaf := not_not.mp (mt hkind.mpr hk)
    exact Or.inl ⟨hleaf.1, hleaf.2, by rw [if_pos ⟨hroot, hstarts⟩, decide_eq_true hleaf]⟩
  · exact Or.inr ⟨hstarts, if_neg fun hall => hstarts hall.2⟩

/-- What a header says after the charge, for the headers the table can have. -/
theorem Totalled.chargeHeader_eq (h : Totalled paths done t) (hc : Chargeable paths (done ++ [c]))
    (hcharged : Charged t t' c) (hroot : ∀ o ∈ paths, o.path ≠ .root) {x : StoredHeader}
    (hx : t.header? f = some x) :
    chargeHeader c f x =
      if c.recipient.startsWith f = true then
        { x with
          metrics := x.metrics.addPhysical c.allocatedBytes c.reclaimableBytes
          shared :=
            if c.recipient = f ∧ c.placement = .Shared then
              some ((x.shared.getD .zero).addPhysical c.allocatedBytes c.reclaimableBytes)
            else x.shared }
      else x := by
  unfold chargeHeader
  by_cases hstarts : c.recipient.startsWith f = true
  · have hcondition : f ≠ c.recipient ∨ c.placement = .Shared := by
      rcases h.folders f (by rw [hx]; rfl) with rfl | ⟨e, he, rfl, hk⟩
      · cases hplacement : c.placement with
        | Shared => exact Or.inr rfl
        | Leaf =>
          exact Or.inl fun heq => (hc.leaves c (by simp) hplacement).1 heq.symm
      · rcases hcharged.folder h.distinct he (hroot _ (mem_of_observations h.observations he)) hk with
          ⟨-, hcondition, -⟩ | ⟨hnot, -⟩
        · exact hcondition
        · exact absurd hstarts hnot
    rw [if_pos ⟨hstarts, hcondition⟩, if_pos hstarts]
    by_cases hf : f = c.recipient
    · have hshared := hcondition.resolve_left (not_not.mpr hf)
      rw [if_pos hf, if_pos ⟨hf.symm, hshared⟩]
    · rw [if_neg hf, if_neg fun hall => hf hall.1.symm]
  · rw [if_neg fun hall => hstarts hall.1, if_neg hstarts]

/-- One allocation is charged. -/
theorem Totalled.charge (h : Totalled paths done t) (hc : Chargeable paths (done ++ [c]))
    (hroot : ∀ o ∈ paths, o.path ≠ .root) (hok : t.applyAllocation c = .ok t') :
    Totalled paths (done ++ [c]) t' := by
  have hcharged := applyAllocation_charged h.distinct hok
  have hrefines := applyAllocation_refines h.distinct hok
  have hnonroot : ∀ e ∈ t.entries, e.path ≠ .root := fun e he =>
    hroot _ (mem_of_observations h.observations he)
  have hheader : ∀ f y, t'.header? f = some y → ∃ x, t.header? f = some x ∧ y = chargeHeader c f x := by
    intro f y hy
    rw [hcharged.headers f] at hy
    obtain ⟨x, hx, rfl⟩ := Option.map_eq_some_iff.mp hy
    exact ⟨x, hx, rfl⟩
  have hentry : ∀ e ∈ t'.entries, ∃ x ∈ t.entries, e = chargeEntry c x := by
    intro e he
    rw [hcharged.entries] at he
    obtain ⟨x, hx, rfl⟩ := List.mem_map.mp he
    exact ⟨x, hx, rfl⟩
  refine ⟨hrefines.1.trans h.observations, hrefines.distinct h.distinct, ?_, ?_, ?_, ?_, ?_, ?_, ?_, ?_⟩
  · intro f y hy
    obtain ⟨x, hx, rfl⟩ := hheader f y hy
    rw [← h.apparent f x hx, h.chargeHeader_eq hc hcharged hroot hx]
    split <;> rfl
  · intro f y hy
    obtain ⟨x, hx, rfl⟩ := hheader f y hy
    have hbefore := h.allocated f x hx
    rw [h.chargeHeader_eq hc hcharged hroot hx, chargedUnder_snoc]
    split
    · show satAdd byteBits x.metrics.allocatedBytes.lower c.allocatedBytes.lower = _
      have hroom := hc.room (fun c => c.recipient.startsWith f) f
      rw [hbefore, satAdd_of_le hroom, Nat.add_assoc]
    · exact hbefore
  · intro f y hy
    obtain ⟨x, hx, rfl⟩ := hheader f y hy
    have hbefore := h.shared f x hx
    rw [h.chargeHeader_eq hc hcharged hroot hx, sharedAt_snoc]
    by_cases hshared : c.recipient = f ∧ c.placement = .Shared
    · have hstarts : c.recipient.startsWith f = true := hshared.1 ▸ RelativePath.startsWith_refl _
      rw [if_pos hstarts, if_pos hshared, if_pos hshared]
      show satAdd byteBits (x.shared.getD .zero).allocatedBytes.lower c.allocatedBytes.lower = _
      have hsame : (x.shared.getD .zero).allocatedBytes.lower = sharedAt f done := by
        rw [← hbefore]
        cases x.shared <;> rfl
      have hroom : totalUnder (fun m => m.allocatedBytes.lower) f paths + sharedAt f done +
          c.allocatedBytes.lower ≤ satMax byteBits := hc.room _ f
      rw [hsame, satAdd_of_le (by omega)]
    · rw [if_neg hshared, if_neg hshared, Nat.add_zero, ← hbefore]
      split <;> rfl
  · intro f hf
    rw [hcharged.headers f, Option.isSome_map] at hf
    refine (h.folders f hf).imp_right ?_
    rintro ⟨e, he, hpath, hk⟩
    refine ⟨chargeEntry c e, by rw [hcharged.entries]; exact List.mem_map_of_mem he, ?_, ?_⟩
    · rw [StoredEntry.path, chargeEntry_observation]
      exact hpath
    · rw [chargeEntry_observation]
      exact hk
  · intro e he hk
    obtain ⟨x, hx, rfl⟩ := hentry e he
    rw [chargeEntry_observation] at hk
    obtain ⟨hseen, y, hy, hmetrics, hcoverage⟩ := h.headed x hx hk
    have hpath : (chargeEntry c x).path = x.path := by
      rw [StoredEntry.path, chargeEntry_observation]
    rw [hpath, hcharged.headers x.path, hy, Option.map_some, h.chargeHeader_eq hc hcharged hroot hy]
    rcases hcharged.folder h.distinct hx (hnonroot x hx) hk with ⟨hstarts, -, heq⟩ | ⟨hnot, heq⟩
    · rw [heq, if_pos hstarts]
      refine ⟨hseen, _, rfl, ?_, hcoverage⟩
      show x.metrics.addPhysical _ _ = y.metrics.addPhysical _ _
      rw [hmetrics]
    · rw [heq, if_neg hnot]
      exact ⟨hseen, y, rfl, hmetrics, hcoverage⟩
  · intro e he hk
    obtain ⟨x, hx, rfl⟩ := hentry e he
    rw [chargeEntry_observation] at hk
    have hknown := h.known x hx hk
    rcases hcharged.leaf h.distinct hx (hnonroot x hx) hk with ⟨-, -, heq⟩ | ⟨-, heq⟩
    · rw [heq]
      exact hknown
    · rw [heq]
      exact hknown
  · intro e he hk
    obtain ⟨x, hx, rfl⟩ := hentry e he
    rw [chargeEntry_observation] at hk
    have hbefore := h.leaves x hx hk
    have hpath : (chargeEntry c x).path = x.path := by
      rw [StoredEntry.path, chargeEntry_observation]
    rw [hpath, chargeEntry_observation, chargedUnder_snoc]
    rcases hcharged.leaf h.distinct hx (hnonroot x hx) hk with ⟨hleaf, hrecipient, heq⟩ | ⟨hnot, heq⟩
    · -- the file had no bytes of its own and no allocation
      have hown := (hc.leaves c (by simp) hleaf).2 x.observation
        (mem_of_observations h.observations hx) hrecipient
      have hnone : chargedUnder x.path done = 0 := by
        refine sumWhere_eq_zero fun d hd hstarts => ?_
        obtain ⟨o, ho, hsame, hkind⟩ := h.reached d hd x.path (hnonroot x hx) hstarts
        rw [← h.observations] at ho
        obtain ⟨z, hz, rfl⟩ := List.mem_map.mp ho
        obtain rfl := h.distinct.eq_of_path hz hx hsame
        obtain ⟨hdleaf, hdrecipient⟩ := not_not.mp (mt hkind.mpr hk)
        have hapart := (List.pairwise_append.mp hc.apart).2.2 d hd c (List.mem_singleton_self c)
        exact absurd (hdrecipient.symm.trans hrecipient) (hapart hdleaf hleaf)
      have hstarts : c.recipient.startsWith x.path = true :=
        hrecipient ▸ RelativePath.startsWith_refl _
      rw [heq, hown, hnone, if_pos hstarts, intoPageEntry_lower]
      have hidentity : (reach c true x).identity.isNone = false := by
        show x.identity.isNone = false
        rw [Option.isNone_eq_false_iff]
        exact h.known x hx hk
      unfold StoredEntry.shown
      rw [reach_observation, if_neg hk, hidentity, if_neg Bool.false_ne_true,
        show (reach c true x).leafAllocationSeen = true from rfl]
      simp [reach]
    · rw [heq, hbefore, if_neg hnot, Nat.add_zero]
  · intro d hd q hq hstarts
    rcases List.mem_append.mp hd with hd | hd
    · exact h.reached d hd q hq hstarts
    · obtain rfl := List.mem_singleton.mp hd
      obtain ⟨e, he, hpath, hkind⟩ := hcharged.found q hq hstarts
      exact ⟨e.observation, mem_of_observations h.observations he, hpath, hkind⟩

end Charge

end PageIndex

/-! ## What the scanner records -/

namespace PathObservation

def identity? (o : PathObservation) : Option NativeIdentity := o.snapshot.bind EntrySnapshot.identity

/-- The allocation the snapshot saw, unknown without one. -/
def snapshotBounds (o : PathObservation) : ByteBounds :=
  (o.snapshot.bind EntrySnapshot.allocatedBytes).elim .unknown .exact

end PathObservation

/-- A file with one link carries its allocation in its path observation, any other file in one
identity observation, and a directory carries none. -/
structure ScannerConvention (paths : List PathObservation) (identities : List IdentityObservation) :
    Prop where
  directories : ∀ o ∈ paths, o.kind = .Directory → o.metrics.allocatedBytes = .exact 0 ∧
    o.metrics.reclaimableBytes = .exact 0 ∧ ∀ i ∈ identities, i.path ≠ o.path
  files : ∀ o ∈ paths, o.kind ≠ .Directory → ∃ identity, o.identity? = some identity ∧
    ((identity.linkCount = some 1 ∧ o.metrics.allocatedBytes = o.snapshotBounds ∧
        o.metrics.reclaimableBytes = o.snapshotBounds ∧ ∀ i ∈ identities, i.path ≠ o.path) ∨
      (identity.linkCount ≠ some 1 ∧ o.metrics.allocatedBytes = .exact 0 ∧
        o.metrics.reclaimableBytes = .exact 0 ∧
        identities.filter (fun i => i.path = o.path)
          = [⟨o.path, identity.fileId, identity.linkCount, o.snapshotBounds⟩]))
  recorded : ∀ i ∈ identities, ∃ o ∈ paths, o.path = i.path

namespace ScannerConvention

variable {paths : List PathObservation} {identities : List IdentityObservation}

/-- The path of an identity observation is that of a file whose path carries nothing. -/
theorem carrier (h : ScannerConvention paths identities) {i : IdentityObservation}
    (hi : i ∈ identities) {o : PathObservation} (ho : o ∈ paths) (hpath : o.path = i.path) :
    o.kind ≠ .Directory ∧ o.metrics.allocatedBytes = .exact 0 ∧
      identities.filter (fun x => x.path = i.path) = [i] ∧ i.allocatedBytes = o.snapshotBounds := by
  have hkind : o.kind ≠ .Directory := fun hk => (h.directories o ho hk).2.2 i hi hpath.symm
  obtain ⟨identity, -, ⟨-, -, -, hnone⟩ | ⟨-, hzero, -, hone⟩⟩ := h.files o ho hkind
  · exact absurd hpath.symm (hnone i hi)
  · have hmem : i ∈ identities.filter fun x => x.path = o.path :=
      List.mem_filter.mpr ⟨hi, decide_eq_true hpath.symm⟩
    rw [hone] at hmem
    have hsame := List.mem_singleton.mp hmem
    refine ⟨hkind, hzero, ?_, by rw [hsame]⟩
    rw [← hpath, hone, ← hsame]

theorem eq_of_path (h : ScannerConvention paths identities) {i j : IdentityObservation}
    (hi : i ∈ identities) (hj : j ∈ identities) (hpath : j.path = i.path) : j = i := by
  obtain ⟨o, ho, hsame⟩ := h.recorded i hi
  obtain ⟨-, -, hone, -⟩ := h.carrier hi ho hsame
  have hmem : j ∈ identities.filter fun x => x.path = i.path :=
    List.mem_filter.mpr ⟨hj, decide_eq_true hpath⟩
  rw [hone] at hmem
  exact List.mem_singleton.mp hmem

end ScannerConvention

theorem Contributes.recipient_of_leaf {os : List IdentityObservation} {c : AllocationContribution}
    (h : Contributes os c) (hleaf : c.placement = .Leaf) : ∃ i, os = [i] ∧ c.recipient = i.path := by
  obtain ⟨i, rfl⟩ := List.length_eq_one_iff.mp (h.leaf.mp hleaf)
  refine ⟨i, rfl, RelativePath.startsWith_antisymm ?_ ?_⟩
  · exact h.lowest i.path fun o ho => by
      rw [List.mem_singleton.mp ho]
      exact RelativePath.startsWith_refl _
  · exact h.below i (List.mem_singleton_self i)

/-- The contributions of what the scanner records can be charged. -/
theorem Contributed.chargeable {paths : List PathObservation} {identities : List IdentityObservation}
    {contributions : List (FileId × AllocationContribution)}
    (h : Contributed identities contributions) (hscan : ScannerConvention paths identities)
    (hroot : ∀ o ∈ paths, o.path ≠ .root)
    (hbounded : totalOf (fun m => m.allocatedBytes.lower) paths +
      (contributions.map fun r => r.2.allocatedBytes.lower).sum ≤ satMax byteBits) :
    PageIndex.Chargeable paths (contributions.map Prod.snd) := by
  have hleaf : ∀ r ∈ contributions, r.2.placement = .Leaf →
      ∃ i ∈ identities, i.fileId = r.1 ∧ r.2.recipient = i.path := by
    intro r hr hplacement
    obtain ⟨i, hi, hrecipient⟩ := (h.contributes r.1 r.2 hr).recipient_of_leaf hplacement
    have hmem : i ∈ observationsOf r.1 identities := by rw [hi]; exact List.mem_singleton_self i
    obtain ⟨hmem, hid⟩ := List.mem_filter.mp hmem
    exact ⟨i, hmem, of_decide_eq_true hid, hrecipient⟩
  refine ⟨?_, ?_, ?_⟩
  · rw [List.map_map]
    exact hbounded
  · intro c hc hplacement
    obtain ⟨r, hr, rfl⟩ := List.mem_map.mp hc
    obtain ⟨i, hi, -, hrecipient⟩ := hleaf r hr hplacement
    rw [hrecipient]
    obtain ⟨o, ho, hpath⟩ := hscan.recorded i hi
    refine ⟨hpath ▸ hroot o ho, fun x hx hsame => ?_⟩
    rw [(hscan.carrier hi hx hsame).2.1]
    rfl
  · rw [List.pairwise_map]
    refine h.sorted.imp_of_mem fun {a b} ha hb hlt haleaf hbleaf heq => ?_
    obtain ⟨i, hi, hid, hirecipient⟩ := hleaf a ha haleaf
    obtain ⟨j, hj, hjd, hjrecipient⟩ := hleaf b hb hbleaf
    have hsame := hscan.eq_of_path hj hi (hirecipient.symm.trans (heq.trans hjrecipient))
    rw [hsame] at hid
    exact absurd (hid.symm.trans hjd) (ne_of_lt hlt)

/-! ## The table before the allocations -/

namespace PageIndex
variable {t t' : PageIndex} {paths : List PathObservation} {identities : List IdentityObservation}

/-- The entry counts its allocation at its path as its observation did. -/
def Marked (e : StoredEntry) : Prop :=
  e.leafAllocationSeen = (StoredEntry.fromObservation e.observation).leafAllocationSeen ∧
    ((StoredEntry.fromObservation e.observation).identity.isSome = true → e.identity.isSome = true)

theorem indexPaths_marked (h : paths.foldlM indexPath empty = .ok t) : ∀ e ∈ t.entries, Marked e := by
  refine foldlM_ok (P := fun _ t => ∀ e ∈ t.entries, Marked e) h (by simp [empty]) ?_
  intro _ t o t' ht ho e he
  unfold indexPath at ho
  split at ho
  · cases ho
  split at ho
  · cases ho
  cases ho
  rcases List.mem_append.mp he with he | he
  · exact ht e he
  · rw [List.mem_singleton.mp he]
    exact ⟨rfl, id⟩

theorem indexIdentity_marked (hd : t.Distinct) (ht : ∀ e ∈ t.entries, Marked e)
    {o : IdentityObservation} (h : t.indexIdentity o = .ok t') : ∀ e ∈ t'.entries, Marked e := by
  unfold indexIdentity at h
  split at h
  · cases h
  rename_i entry hentry
  split at h
  · cases h
  split at h
  · cases h
  cases h
  intro e he
  rcases (mem_setEntry hentry hd).mp he with rfl | ⟨he, -⟩
  · exact ⟨(ht entry (entry?_some hentry).1).1, fun _ => rfl⟩
  · exact ht e he

theorem indexSummary_marked (hd : t.Distinct) (ht : ∀ e ∈ t.entries, Marked e) {s : DirectorySummary}
    (h : t.indexSummary s = .ok t') : ∀ e ∈ t'.entries, Marked e := by
  unfold indexSummary at h
  split at h
  · cases h
  generalize hadded :
    ({ t with headers := t.headers ++ [(s.path, ⟨s.metrics, s.coverage, none⟩)] } : PageIndex) =
      added at h
  have hentries : added.entries = t.entries := by rw [← hadded]
  dsimp only at h
  split at h
  · cases h
    rw [hentries]
    exact ht
  · split at h
    · cases h
    rename_i entry hentry
    split at h
    · cases h
    split at h
    · cases h
    cases h
    have hadistinct : added.Distinct := by
      unfold Distinct observations
      rw [hentries]
      exact hd
    intro e he
    rcases (mem_setEntry hentry hadistinct).mp he with rfl | ⟨he, -⟩
    · exact ht entry (hentries ▸ (entry?_some hentry).1)
    · exact ht e (hentries ▸ he)

theorem mem_folders {f : RelativePath} {h : StoredHeader} (hh : t.header? f = some h) :
    f ∈ t.folders := List.mem_map_of_mem (f := Prod.fst) (mem_headers hh)

/-- A file of the scanner's that no allocation has reached shows what its path carries. -/
theorem shown_of_marked {e : StoredEntry} (hscan : ScannerConvention paths identities)
    (he : e.observation ∈ paths) (hk : e.observation.kind ≠ .Directory)
    (hmetrics : e.metrics = e.observation.metrics) (hmarked : Marked e) :
    e.identity.isSome = true ∧ e.intoPageEntry.metrics.allocatedBytes.lower =
      e.observation.metrics.allocatedBytes.lower := by
  obtain ⟨identity, hidentity, hcases⟩ := hscan.files e.observation he hk
  obtain ⟨snapshot, hsnapshot, hsid⟩ := Option.bind_eq_some_iff.mp hidentity
  have hstored : (StoredEntry.fromObservation e.observation).identity =
      some ⟨identity.fileId, identity.linkCount, e.observation.snapshotBounds⟩ := by
    unfold StoredEntry.fromObservation StoredIdentity.fromSnapshot PathObservation.snapshotBounds
    dsimp only
    rw [hsnapshot, Option.bind_some, hsid, Option.bind_some, Option.map_some]
    cases snapshot.allocatedBytes <;> rfl
  have hknown : e.identity.isSome = true := hmarked.2 (by rw [hstored]; rfl)
  refine ⟨hknown, ?_⟩
  have hshown : e.shown = if !e.leafAllocationSeen then
      ({ e.metrics with allocatedBytes := .exact 0, reclaimableBytes := .exact 0 }, e.coverage)
      else (e.metrics, e.coverage) := by
    unfold StoredEntry.shown
    rw [if_neg hk, Option.isNone_eq_false_iff.mpr hknown, if_neg Bool.false_ne_true]
  have hseen : e.leafAllocationSeen = (decide (identity.linkCount = some 1 ∧
      e.observation.metrics.allocatedBytes = e.observation.snapshotBounds ∧
      e.observation.metrics.reclaimableBytes = e.observation.snapshotBounds)) := by
    rw [hmarked.1]
    have hunfold : (StoredEntry.fromObservation e.observation).leafAllocationSeen =
      (decide (e.observation.kind ≠ .Directory) &&
        (StoredEntry.fromObservation e.observation).identity.any fun identity =>
          decide (identity.declaredLinks = some 1 ∧
            e.observation.metrics.allocatedBytes = identity.allocatedBytes ∧
            e.observation.metrics.reclaimableBytes = identity.allocatedBytes)) := rfl
    rw [hunfold, hstored, decide_eq_true hk, Bool.true_and, Option.any_some]
  rw [intoPageEntry_lower, hshown, hseen, hmetrics]
  rcases hcases with ⟨hone, hallocated, hreclaimable, -⟩ | ⟨hmany, hallocated, -, -⟩
  · rw [decide_eq_true ⟨hone, hallocated, hreclaimable⟩]
    rfl
  · rw [decide_eq_false fun hall => hmany hall.1, hallocated]
    rfl

/-- The table of what the scanner recorded, before the first allocation. -/
theorem Filled.totalled {summaries : List DirectorySummary} (h : Filled t summaries)
    (hobs : t.observations = paths) (hfolders : t.folders = summaries.map DirectorySummary.path)
    (hroot : ∀ o ∈ paths, o.path ≠ .root) (hmarked : ∀ e ∈ t.entries, Marked e)
    (hsummaries : Summarised paths summaries) (hscan : ScannerConvention paths identities)
    (hallocated : totalOf (fun m => m.allocatedBytes.lower) paths ≤ satMax byteBits)
    (happarent : totalOf SummaryMetrics.apparentBytes paths ≤ satMax byteBits) :
    Totalled paths [] t := by
  have hheader : ∀ f x, t.header? f = some x →
      ∃ s ∈ summaries, s.path = f ∧ x = ⟨s.metrics, s.coverage, none⟩ := by
    intro f x hx
    have hf := mem_folders hx
    rw [hfolders] at hf
    obtain ⟨s, hs, rfl⟩ := List.mem_map.mp hf
    exact ⟨s, hs, rfl, Option.some.inj (hx.symm.trans (h.headers s hs))⟩
  refine ⟨hobs, h.distinct, ?_, ?_, ?_, ?_, ?_, ?_, ?_, by simp⟩
  · intro f x hx
    obtain ⟨s, hs, rfl, rfl⟩ := hheader f x hx
    exact hsummaries.amounts _ additive_apparentBytes happarent s hs
  · intro f x hx
    obtain ⟨s, hs, rfl, rfl⟩ := hheader f x hx
    rw [chargedUnder, sumWhere_nil, Nat.add_zero]
    exact hsummaries.amounts _ additive_allocatedLower hallocated s hs
  · intro f x hx
    obtain ⟨s, hs, rfl, rfl⟩ := hheader f x hx
    rfl
  · intro f hf
    obtain ⟨x, hx⟩ := Option.isSome_iff_exists.mp hf
    obtain ⟨s, hs, rfl, -⟩ := hheader f x hx
    by_cases hr : s.path = .root
    · exact Or.inl hr
    · obtain ⟨e, he, hpath, -, -, -, hk⟩ := h.summaries s hs hr
      exact Or.inr ⟨e, he, hpath, hk⟩
  · intro e he hk
    have hmem := mem_of_observations hobs he
    obtain ⟨s, hs, hpath⟩ := hsummaries.covered e.observation hmem hk
    obtain ⟨x, hx, hxpath, hcoverage, hmetrics, hseen, -⟩ :=
      h.summaries s hs (hpath ▸ hroot _ hmem)
    obtain rfl := h.distinct.eq_of_path he hx (hpath.symm.trans hxpath.symm)
    exact ⟨hseen, _, hxpath ▸ h.headers s hs, hmetrics, hcoverage⟩
  all_goals
    intro e he hk
    have hmetrics : e.metrics = e.observation.metrics := by
      rcases h.entries e he with hobserved | ⟨s, -, hsays⟩
      · exact hobserved.2.1
      · exact absurd hsays.2.2.2.2 hk
    have hshown := shown_of_marked hscan (mem_of_observations hobs he) hk hmetrics (hmarked e he)
  · exact hshown.1
  · rw [chargedUnder, sumWhere_nil, Nat.add_zero]
    exact hshown.2

/-- The finished table of what the scanner recorded. -/
theorem build_totalled {summaries : List DirectorySummary}
    {contributions : List (FileId × AllocationContribution)}
    (h : build paths identities summaries contributions = .ok t)
    (hsummaries : Summarised paths summaries) (hscan : ScannerConvention paths identities)
    (hcontributed : Contributed identities contributions)
    (hallocated : totalOf (fun m => m.allocatedBytes.lower) paths +
      (contributions.map fun r => r.2.allocatedBytes.lower).sum ≤ satMax byteBits)
    (happarent : totalOf SummaryMetrics.apparentBytes paths ≤ satMax byteBits) :
    Totalled paths (contributions.map Prod.snd) t := by
  obtain ⟨t₁, h₁, h⟩ := bind_eq_ok h
  obtain ⟨t₂, h₂, h⟩ := bind_eq_ok h
  obtain ⟨t₃, h₃, h⟩ := bind_eq_ok h
  obtain ⟨hobs, hnofolders, hd, hroot⟩ := indexPaths_ok h₁
  obtain ⟨hids, hobserved, hmarked⟩ : Refines t₁ t₂ ∧ (∀ e ∈ t₂.entries, Observed e) ∧
      ∀ e ∈ t₂.entries, Marked e := by
    refine foldlM_ok (P := fun _ s => Refines t₁ s ∧ (∀ e ∈ s.entries, Observed e) ∧
      ∀ e ∈ s.entries, Marked e) h₂ ⟨Refines.refl t₁, indexPaths_observed h₁, indexPaths_marked h₁⟩ ?_
    intro _ s o s' ⟨hs, hobserved, hmarked⟩ ho
    have hds := hs.distinct hd
    exact ⟨hs.trans (indexIdentity_refines hds ho), indexIdentity_observed hds hobserved ho,
      indexIdentity_marked hds hmarked ho⟩
  have hd₂ := hids.distinct hd
  obtain ⟨hobs₃, hfolders₃, hfilled, hmarked₃⟩ : t₃.observations = t₂.observations ∧
      t₃.folders = summaries.map DirectorySummary.path ∧ Filled t₃ summaries ∧
      ∀ e ∈ t₃.entries, Marked e := by
    refine foldlM_ok (P := fun done s => s.observations = t₂.observations ∧
      s.folders = done.map DirectorySummary.path ∧ Filled s done ∧ ∀ e ∈ s.entries, Marked e) h₃
      ⟨rfl, hids.2.trans hnofolders, ⟨hd₂, fun e he => Or.inl (hobserved e he), by simp, by simp⟩,
        hmarked⟩ ?_
    intro done s x s' ⟨hs, hfolders, hfilled, hmarked⟩ hx
    obtain ⟨hobs', hfolders'⟩ := indexSummary_ok hfilled.distinct hx
    exact ⟨hobs'.trans hs, by rw [hfolders', hfolders]; simp, hfilled.summary hx,
      indexSummary_marked hfilled.distinct hmarked hx⟩
  have hstart := hfilled.totalled (hobs₃.trans (hids.1.trans hobs)) hfolders₃ hroot hmarked₃
    hsummaries hscan (by omega) happarent
  have hchargeable := hcontributed.chargeable hscan hroot hallocated
  refine foldlM_ok (P := fun done s => Chargeable paths done → Totalled paths done s) h
    (fun _ => hstart) ?_ hchargeable
  intro done s c s' hs hc hcharge
  exact (hs hcharge.front).charge hcharge hroot hc

end PageIndex

/-! ## A folder and what it lists -/

section Children

variable {paths : List PathObservation}

theorem TreeShaped.nodup (h : TreeShaped paths) : paths.Nodup := h.sorted.nodup_keys.of_map

theorem TreeShaped.eq_of_path (h : TreeShaped paths) {a b : PathObservation} (ha : a ∈ paths)
    (hb : b ∈ paths) (hpath : a.path = b.path) : a = b :=
  List.inj_on_of_nodup_map h.sorted.nodup_keys ha hb hpath

theorem TreeShaped.below_leaf (h : TreeShaped paths) {o x : PathObservation} (ho : o ∈ paths)
    (hk : o.kind ≠ .Directory) (hx : x ∈ paths) (hstarts : x.path.startsWith o.path = true) :
    x = o := by
  by_contra hne
  have hpath : o.path ≠ x.path := fun heq => hne (h.eq_of_path hx ho heq.symm)
  obtain ⟨c, hc, hchild, -, -⟩ := h.child_above hx hstarts hpath
  obtain ⟨d, hd, hparent⟩ := h.parents c hc
  have hsame : o.path = d := Option.some.inj ((RelativePath.relativeParent_eq_some.mpr hchild).symm.trans
    (RelativePath.relativeParent_eq_some.mpr hd))
  rcases hparent with rfl | ⟨y, hy, hyk, rfl⟩
  · obtain ⟨q, hq, -⟩ := h.parents o ho
    exact RelativePath.ne_root_of_child hq hsame
  · rw [h.eq_of_path ho hy hsame] at hk
    exact hk hyk

/-- A path strictly below a folder lies in exactly one recorded child of it. -/
theorem TreeShaped.countP_children (h : TreeShaped paths) {f r : RelativePath}
    (hrecorded : ∃ o ∈ paths, o.path = r) (hbelow : r.startsWith f = true) (hne : r ≠ f) :
    (paths.filter fun b => b.path.isDirectChildOf f).countP (fun b => r.startsWith b.path) = 1 := by
  obtain ⟨o, ho, rfl⟩ := hrecorded
  obtain ⟨c, hc, hchild, habove, -⟩ := h.child_above ho hbelow hne.symm
  have hmem : c ∈ paths.filter fun b => b.path.isDirectChildOf f :=
    List.mem_filter.mpr ⟨hc, hchild⟩
  rw [← List.count_eq_one_of_mem (h.nodup.filter _) hmem]
  refine List.countP_congr fun b hb => ?_
  obtain ⟨hb, hbchild⟩ := List.mem_filter.mp hb
  rw [beq_iff_eq]
  constructor
  · intro hstarts
    exact h.eq_of_path hb hc (direct_unique hbchild hchild hstarts habove)
  · rintro rfl
    exact habove

/-- What does not lie strictly below a folder lies in none of its children. -/
theorem countP_children_eq_zero {f r : RelativePath}
    (hnot : ¬(r.startsWith f = true ∧ r ≠ f)) :
    (paths.filter fun b => b.path.isDirectChildOf f).countP (fun b => r.startsWith b.path) = 0 := by
  rw [List.countP_eq_zero]
  intro b hb hstarts
  have hchild := (List.mem_filter.mp hb).2
  refine hnot ⟨RelativePath.startsWith_trans hstarts (RelativePath.startsWith_of_child hchild), ?_⟩
  rintro rfl
  have hsame := RelativePath.startsWith_antisymm hstarts (RelativePath.startsWith_of_child hchild)
  exact RelativePath.ne_of_child hchild hsame

/-- The children of a folder add up to what is recorded strictly below it. -/
theorem TreeShaped.sum_children (h : TreeShaped paths) {w : SummaryMetrics → Nat} {f : RelativePath}
    (hown : ∀ o ∈ paths, o.path = f → w o.metrics = 0) :
    ((paths.filter fun b => b.path.isDirectChildOf f).map fun b => totalUnder w b.path paths).sum =
      totalUnder w f paths := by
  refine sum_sumWhere fun o ho hw => ?_
  by_cases hbelow : o.path.startsWith f = true
  · rw [if_pos hbelow]
    exact h.countP_children ⟨o, ho, rfl⟩ hbelow fun heq => hw (hown o ho heq)
  · rw [if_neg hbelow]
    exact countP_children_eq_zero fun hall => hbelow hall.1

end Children

namespace PageIndex
variable {t : PageIndex} {paths : List PathObservation} {cs : List AllocationContribution}

namespace Totalled

/-- An entry shows what is recorded and charged at or below its path. -/
theorem entry_lower (h : Totalled paths cs t) (htree : TreeShaped paths) {e : StoredEntry}
    (he : e ∈ t.entries) : e.intoPageEntry.metrics.allocatedBytes.lower =
      totalUnder (fun m => m.allocatedBytes.lower) e.path paths + chargedUnder e.path cs := by
  have hmem := mem_of_observations h.observations he
  by_cases hk : e.observation.kind = .Directory
  · obtain ⟨hseen, x, hx, hmetrics, -⟩ := h.headed e he hk
    rw [intoPageEntry_lower, StoredEntry.shown_directory hk hseen, ← h.allocated e.path x hx, hmetrics]
  · have hown : totalUnder (fun m => m.allocatedBytes.lower) e.path paths =
        e.observation.metrics.allocatedBytes.lower := by
      obtain ⟨front, back, hsplit⟩ := List.append_of_mem hmem
      have hnone : ∀ x ∈ front ++ back, x.path.startsWith e.path = false := by
        intro x hx
        rw [Bool.eq_false_iff]
        intro hstarts
        have hxp : x ∈ paths := by
          rw [hsplit]
          rcases List.mem_append.mp hx with hx | hx
          · exact List.mem_append_left _ hx
          · exact List.mem_append_right _ (List.mem_cons_of_mem _ hx)
        obtain rfl := htree.below_leaf hmem hk hxp hstarts
        have hnodup := htree.nodup
        rw [hsplit, List.nodup_middle] at hnodup
        exact (List.nodup_cons.mp hnodup).1 hx
      have hzero (l : List PathObservation) (hl : ∀ x ∈ l, x.path.startsWith e.path = false) :
          totalUnder (fun m => m.allocatedBytes.lower) e.path l = 0 :=
        sumWhere_eq_zero fun x hx hstarts => absurd hstarts (by
          rw [PathObservation.under, hl x hx]
          exact Bool.false_ne_true)
      have hfront := hzero front fun x hx => hnone x (List.mem_append_left _ hx)
      have hback := hzero back fun x hx => hnone x (List.mem_append_right _ hx)
      rw [totalUnder] at hfront hback
      rw [hsplit, totalUnder, sumWhere_append, sumWhere_cons, hfront, hback,
        if_pos (RelativePath.startsWith_refl _)]
      omega
    rw [h.leaves e he hk, hown]

/-- A leaf allocation has no folder as its recipient. -/
theorem shared_of_folder (h : Totalled paths cs t) (hc : Chargeable paths cs)
    (htree : TreeShaped paths) {f : RelativePath} (hf : (t.header? f).isSome = true)
    {c : AllocationContribution} (hmem : c ∈ cs) (hrecipient : c.recipient = f) :
    c.placement = .Shared := by
  cases hplacement : c.placement with
  | Shared => rfl
  | Leaf =>
    obtain ⟨hroot, -⟩ := hc.leaves c hmem hplacement
    rcases h.folders f hf with rfl | ⟨e, he, hpath, hk⟩
    · exact absurd hrecipient hroot
    · obtain ⟨o, ho, hopath, hkind⟩ := h.reached c hmem c.recipient hroot
        (RelativePath.startsWith_refl _)
      have hsame := htree.eq_of_path ho (mem_of_observations h.observations he)
        (hopath.trans (hrecipient.trans hpath.symm))
      rw [hsame] at hkind
      exact absurd ⟨hplacement, rfl⟩ (hkind.mp hk)

/-- What is charged below a folder is charged in one of its children, or shared at the folder. -/
theorem sum_charged (h : Totalled paths cs t) (hc : Chargeable paths cs) (htree : TreeShaped paths)
    {f : RelativePath} (hf : (t.header? f).isSome = true) :
    ((paths.filter fun b => b.path.isDirectChildOf f).map fun b => chargedUnder b.path cs).sum +
      sharedAt f cs = chargedUnder f cs := by
  have hstrict : ((paths.filter fun b => b.path.isDirectChildOf f).map fun b =>
      chargedUnder b.path cs).sum =
      sumWhere (fun c => c.recipient.startsWith f && decide (c.recipient ≠ f))
        (fun c => c.allocatedBytes.lower) cs := by
    refine sum_sumWhere (q := fun (b : PathObservation) (c : AllocationContribution) =>
      c.recipient.startsWith b.path) fun c hmem _ => ?_
    by_cases hbelow : c.recipient.startsWith f = true ∧ c.recipient ≠ f
    · rw [if_pos (by rw [hbelow.1, decide_eq_true hbelow.2]; rfl)]
      refine htree.countP_children ?_ hbelow.1 hbelow.2
      have hroot : c.recipient ≠ .root := by
        intro hroot
        rw [hroot, RelativePath.startsWith_iff] at hbelow
        exact hbelow.2 (RelativePath.ext_components (List.prefix_nil.mp hbelow.1)).symm
      obtain ⟨o, ho, hpath, -⟩ := h.reached c hmem c.recipient hroot (RelativePath.startsWith_refl _)
      exact ⟨o, ho, hpath⟩
    · rw [if_neg (by
        rw [Bool.and_eq_true, decide_eq_true_eq]
        exact hbelow)]
      exact countP_children_eq_zero hbelow
  rw [hstrict]
  refine (sumWhere_split (fun c hmem => ?_) fun c _ hnot => ?_).symm
  · by_cases heq : c.recipient = f
    · have hshared := h.shared_of_folder hc htree hf hmem heq
      rw [heq, decide_eq_false (not_not.mpr rfl), decide_eq_true ⟨rfl, hshared⟩,
        RelativePath.startsWith_refl]
      rfl
    · rw [decide_eq_true heq, decide_eq_false fun hall => heq hall.1, Bool.and_true, Bool.or_false]
  · rw [Bool.and_eq_true, decide_eq_true_eq] at hnot
    exact decide_eq_false fun hall => hnot.2 hall.1

/-- A header holds what the entries of its folder show and what is shared at the folder. -/
theorem additive (h : Totalled paths cs t) (hc : Chargeable paths cs) (htree : TreeShaped paths)
    (hdirectories : ∀ o ∈ paths, o.kind = .Directory → o.metrics.allocatedBytes = .exact 0)
    {f : RelativePath} {x : StoredHeader} (hx : t.header? f = some x) :
    x.metrics.allocatedBytes.lower =
      ((t.entries.filter fun e => e.path.isDirectChildOf f).map fun e =>
        e.intoPageEntry.metrics.allocatedBytes.lower).sum +
      x.shared.elim 0 fun m => m.allocatedBytes.lower := by
  have hf : (t.header? f).isSome = true := by rw [hx]; rfl
  have hown : ∀ o ∈ paths, o.path = f → o.metrics.allocatedBytes.lower = 0 := by
    intro o ho hpath
    rcases h.folders f hf with rfl | ⟨e, he, hepath, hk⟩
    · obtain ⟨q, hq, -⟩ := htree.parents o ho
      exact absurd hpath (RelativePath.ne_root_of_child hq)
    · have hsame := htree.eq_of_path ho (mem_of_observations h.observations he)
        (hpath.trans hepath.symm)
      rw [hdirectories o ho (hsame ▸ hk)]
      rfl
  have hpaths := htree.sum_children (w := fun m => m.allocatedBytes.lower) hown
  have hcharged := h.sum_charged hc htree hf
  have hlisted : ((t.entries.filter fun e => e.path.isDirectChildOf f).map fun e =>
      e.intoPageEntry.metrics.allocatedBytes.lower).sum =
      ((paths.filter fun b => b.path.isDirectChildOf f).map fun b =>
        totalUnder (fun m => m.allocatedBytes.lower) b.path paths).sum +
      ((paths.filter fun b => b.path.isDirectChildOf f).map fun b => chargedUnder b.path cs).sum := by
    have hfiltered : paths.filter (fun b => b.path.isDirectChildOf f) =
        (t.entries.filter fun e => e.path.isDirectChildOf f).map StoredEntry.observation := by
      have hobs : paths = t.entries.map StoredEntry.observation := h.observations.symm
      rw [hobs, List.filter_map]
      rfl
    rw [← List.sum_map_add, hfiltered, List.map_map]
    refine congrArg List.sum (List.map_congr_left fun e he => ?_)
    exact h.entry_lower htree (List.mem_of_mem_filter he)
  rw [h.allocated f x hx, h.shared f x hx, hlisted]
  omega

end Totalled

end PageIndex

end Excise
