import Excise.Store.Doubts
import Excise.Store.PageTable

/-!
# Doubts in the page index

The indexing passes copy the doubts of the facts and the summaries into the table, and an
allocation is charged to every folder above its recipient. So a doubt about an entry of the
finished table is a doubt about the header and the entry of each folder above it.
-/

namespace Excise
set_option autoImplicit false

def Doubt.In (d : Doubt) (c : AllocationContribution) : Prop :=
  match d with
  | .coverage => False
  | .allocated => c.allocatedBytes.upper = none
  | .reclaimable => c.reclaimableBytes.upper = none

theorem Doubt.about_addPhysical {d : Doubt} {a : Coverage} {m : SummaryMetrics}
    {c : AllocationContribution} :
    d.About a (m.addPhysical c.allocatedBytes c.reclaimableBytes) ↔ d.About a m ∨ d.In c := by
  cases d with
  | coverage => exact (or_iff_left not_false).symm
  | allocated => exact ByteBounds.add_upper_eq_none
  | reclaimable => exact ByteBounds.add_upper_eq_none

namespace PageIndex
variable {t t' : PageIndex} {d : Doubt} {p f : RelativePath}

def HeaderDoubt (t : PageIndex) (f : RelativePath) (d : Doubt) : Prop :=
  ∃ h, t.header? f = some h ∧ d.About h.coverage h.metrics

def EntryDoubt (t : PageIndex) (p : RelativePath) (d : Doubt) : Prop :=
  ∃ e ∈ t.entries, e.path = p ∧ d.About e.coverage e.metrics

def FolderDoubt (t : PageIndex) (p : RelativePath) (d : Doubt) : Prop :=
  ∃ e ∈ t.entries, e.path = p ∧ e.observation.kind = .Directory ∧ d.About e.coverage e.metrics

/-- Doubts about an entry are doubts about the folders above it. -/
def DoubtsUp (t : PageIndex) : Prop :=
  ∀ p d, t.EntryDoubt p d → ∀ f, p.startsWith f = true → f ≠ p →
    t.HeaderDoubt f d ∧ (f ≠ .root → t.FolderDoubt f d)

def AllSummarised (t : PageIndex) : Prop :=
  ∀ e ∈ t.entries, e.observation.kind = .Directory → e.directorySummarySeen = true

theorem mem_setEntry {e x : StoredEntry} (hp : t.entry? p = some e) (hd : t.Distinct)
    {new : StoredEntry} :
    x ∈ (t.setEntry p new).entries ↔ x = new ∨ (x ∈ t.entries ∧ x ≠ e) := by
  obtain ⟨he, hpath⟩ := entry?_some hp
  unfold setEntry
  rw [List.mem_map]
  constructor
  · rintro ⟨y, hy, rfl⟩
    by_cases hyp : y.path = p
    · exact Or.inl (if_pos hyp)
    · rw [if_neg hyp]
      refine Or.inr ⟨hy, ?_⟩
      rintro rfl
      exact hyp hpath
  · rintro (rfl | ⟨hx, hne⟩)
    · exact ⟨e, he, if_pos hpath⟩
    · refine ⟨x, hx, if_neg fun hxp => hne ?_⟩
      exact hd.eq_of_path hx he (hxp.trans hpath.symm)

theorem header?_setHeader (t : PageIndex) (f g : RelativePath) (header : StoredHeader) :
    (t.setHeader f header).header? g = (t.header? g).map fun h => if g = f then header else h := by
  obtain ⟨headers, entries⟩ := t
  unfold setHeader header?
  dsimp only
  induction headers with
  | nil => rfl
  | cons x xs ih =>
    rw [List.map_cons, List.find?_cons, List.find?_cons]
    by_cases hxf : x.1 = f
    · rw [if_pos hxf, hxf]
      by_cases hfg : f = g
      · simp [hfg]
      · simp only [hfg, decide_false]
        exact ih
    · rw [if_neg hxf]
      by_cases hxg : x.1 = g
      · have hgf : g ≠ f := hxg ▸ hxf
        simp [hxg, hgf]
      · simp only [hxg, decide_false]
        exact ih

theorem mem_headers {h : StoredHeader} (hh : t.header? f = some h) : (f, h) ∈ t.headers := by
  obtain ⟨y, hy, rfl⟩ := Option.map_eq_some_iff.mp hh
  have hfound := List.find?_some hy
  rw [decide_eq_true_eq] at hfound
  rw [← hfound]
  exact List.mem_of_find?_eq_some hy

/-! ## Charging an allocation -/

theorem updateHeaderPhysical_doubts {c : AllocationContribution} {shared : Bool}
    (h : t.updateHeaderPhysical f c shared = .ok t') :
    t'.entries = t.entries ∧ (∀ g d, t.HeaderDoubt g d → t'.HeaderDoubt g d) ∧
      ∀ d : Doubt, d.In c → t'.HeaderDoubt f d := by
  unfold updateHeaderPhysical at h
  split at h
  · cases h
  rename_i header hheader
  cases h
  refine ⟨rfl, ?_, ?_⟩
  · rintro g d ⟨h, hh, hd⟩
    unfold HeaderDoubt
    rw [header?_setHeader, hh]
    by_cases hgf : g = f
    · subst hgf
      obtain rfl := Option.some.inj (hheader.symm.trans hh)
      exact ⟨_, congrArg some (if_pos rfl), Doubt.about_addPhysical.mpr (Or.inl hd)⟩
    · exact ⟨h, congrArg some (if_neg hgf), hd⟩
  · intro d hd
    unfold HeaderDoubt
    rw [header?_setHeader, hheader]
    exact ⟨_, congrArg some (if_pos rfl), Doubt.about_addPhysical.mpr (Or.inr hd)⟩

/-- What charging `c` to the entry at `p` changes. -/
structure ChargedEntry (t t' : PageIndex) (p : RelativePath) (c : AllocationContribution)
    (isLeaf : Bool) : Prop where
  headers : t'.headers = t.headers
  kept : ∀ g d, t.FolderDoubt g d → t'.FolderDoubt g d
  charged : isLeaf = false → ∀ d : Doubt, d.In c → t'.FolderDoubt p d
  origin : ∀ q d, t'.EntryDoubt q d → t.EntryDoubt q d ∨ (q = p ∧ d.In c)
  summarised : t.AllSummarised → t'.AllSummarised

theorem updateEntryPhysical_doubts (hd : t.Distinct) {c : AllocationContribution} {isLeaf : Bool}
    (h : t.updateEntryPhysical p c isLeaf = .ok t') : ChargedEntry t t' p c isLeaf := by
  unfold updateEntryPhysical at h
  split at h
  · cases h
  rename_i entry hentry
  obtain ⟨he, hpath⟩ := entry?_some hentry
  have hmem {x new : StoredEntry} := @mem_setEntry t p entry x hentry hd new
  split at h
  · rename_i hleaf
    split at h
    · cases h
    rename_i hkind
    cases h
    refine ⟨rfl, ?_, fun hnot => absurd hleaf (by rw [hnot]; exact Bool.false_ne_true), ?_, ?_⟩
    · rintro g d ⟨x, hx, hxg, hxk, hxd⟩
      refine ⟨x, hmem.mpr (Or.inr ⟨hx, ?_⟩), hxg, hxk, hxd⟩
      rintro rfl
      exact hkind hxk
    · rintro q d ⟨x, hx, hxq, hxd⟩
      rcases hmem.mp hx with rfl | ⟨hx, -⟩
      · cases d with
        | coverage => exact Or.inl ⟨entry, he, hxq, hxd⟩
        | allocated => exact Or.inr ⟨hxq.symm.trans hpath, hxd⟩
        | reclaimable => exact Or.inr ⟨hxq.symm.trans hpath, hxd⟩
      · exact Or.inl ⟨x, hx, hxq, hxd⟩
    · intro hall x hx hxk
      rcases hmem.mp hx with rfl | ⟨hx, -⟩
      · exact hall entry he hxk
      · exact hall x hx hxk
  · split at h
    · cases h
    rename_i hkind
    rw [not_not] at hkind
    cases h
    refine ⟨rfl, ?_, fun _ d hc => ?_, ?_, ?_⟩
    · rintro g d ⟨x, hx, hxg, hxk, hxd⟩
      by_cases hxe : x = entry
      · subst hxe
        exact ⟨_, hmem.mpr (Or.inl rfl), hxg, hkind, Doubt.about_addPhysical.mpr (Or.inl hxd)⟩
      · exact ⟨x, hmem.mpr (Or.inr ⟨hx, hxe⟩), hxg, hxk, hxd⟩
    · exact ⟨_, hmem.mpr (Or.inl rfl), hpath, hkind, Doubt.about_addPhysical.mpr (Or.inr hc)⟩
    · rintro q d ⟨x, hx, hxq, hxd⟩
      rcases hmem.mp hx with rfl | ⟨hx, -⟩
      · rcases Doubt.about_addPhysical.mp hxd with hxd | hc
        · exact Or.inl ⟨entry, he, hxq, hxd⟩
        · exact Or.inr ⟨hxq.symm.trans hpath, hc⟩
      · exact Or.inl ⟨x, hx, hxq, hxd⟩
    · intro hall x hx hxk
      rcases hmem.mp hx with rfl | ⟨hx, -⟩
      · exact hall entry he hxk
      · exact hall x hx hxk

/-- What charging `c` at these levels changes. -/
structure ChargedLevels (t t' : PageIndex) (c : AllocationContribution) (levels : List Nat) :
    Prop where
  distinct : t'.Distinct
  headers : ∀ g d, t.HeaderDoubt g d → t'.HeaderDoubt g d
  folders : ∀ g d, t.FolderDoubt g d → t'.FolderDoubt g d
  header : ∀ i ∈ levels, ∀ d : Doubt, d.In c → t'.HeaderDoubt (ancestorAt c.recipient i) d
  folder : ∀ i ∈ levels, i + 1 < c.recipient.depth → ∀ d : Doubt, d.In c →
    t'.FolderDoubt (ancestorAt c.recipient (i + 1)) d
  origin : ∀ q d, t'.EntryDoubt q d →
    t.EntryDoubt q d ∨ (d.In c ∧ ∃ i ∈ levels, q = ancestorAt c.recipient (i + 1))
  summarised : t.AllSummarised → t'.AllSummarised

theorem ChargedLevels.none (hd : t.Distinct) (c : AllocationContribution) :
    ChargedLevels t t c [] where
  distinct := hd
  headers _ _ h := h
  folders _ _ h := h
  header i hi := by cases hi
  folder i hi := by cases hi
  origin _ _ h := Or.inl h
  summarised h := h

theorem ChargedLevels.level {c : AllocationContribution} {levels : List Nat} {i : Nat}
    {s : PageIndex} (h : ChargedLevels t s c levels) (hi : chargeLevel c s i = .ok t') :
    ChargedLevels t t' c (levels ++ [i]) := by
  obtain ⟨m, hm, hentry⟩ := bind_eq_ok hi
  obtain ⟨hentries, hmheaders, hmheader⟩ := updateHeaderPhysical_doubts hm
  have hmd : m.Distinct := (updateHeaderPhysical_refines hm).distinct h.distinct
  have he := updateEntryPhysical_doubts hmd hentry
  have hheaders : ∀ g d, m.HeaderDoubt g d → t'.HeaderDoubt g d := by
    intro g d
    unfold HeaderDoubt header?
    rw [he.headers]
    exact id
  have hfolders : ∀ g d, s.FolderDoubt g d → t'.FolderDoubt g d := by
    intro g d hg
    refine he.kept g d ?_
    unfold FolderDoubt
    rw [hentries]
    exact hg
  refine ⟨(updateEntryPhysical_refines hmd hentry).distinct hmd,
    fun g d hg => hheaders g d (hmheaders g d (h.headers g d hg)),
    fun g d hg => hfolders g d (h.folders g d hg), ?_, ?_, ?_, ?_⟩
  · intro j hj d hc
    rcases List.mem_append.mp hj with hj | hj
    · exact hheaders _ d (hmheaders _ d (h.header j hj d hc))
    · rw [List.mem_singleton.mp hj]
      exact hheaders _ d (hmheader d hc)
  · intro j hj hlt d hc
    rcases List.mem_append.mp hj with hj | hj
    · exact hfolders _ d (h.folder j hj hlt d hc)
    · rw [List.mem_singleton.mp hj] at hlt ⊢
      exact he.charged (decide_eq_false fun hleaf => absurd hleaf.2 (by omega)) d hc
  · intro q d hq
    rcases he.origin q d hq with hq | ⟨rfl, hc⟩
    · have hs : s.EntryDoubt q d := by
        unfold EntryDoubt at hq ⊢
        rwa [hentries] at hq
      rcases h.origin q d hs with hold | ⟨hc, j, hj, rfl⟩
      · exact Or.inl hold
      · exact Or.inr ⟨hc, j, List.mem_append_left _ hj, rfl⟩
    · exact Or.inr ⟨hc, i, List.mem_append_right _ (List.mem_singleton_self i), rfl⟩
  · intro hall
    refine he.summarised ?_
    unfold AllSummarised
    rw [hentries]
    exact h.summarised hall

/-- What lies above an ancestor of a path is an ancestor of it. -/
theorem above_ancestorAt {r : RelativePath} {n : Nat}
    (hf : (ancestorAt r n).startsWith f = true) (hne : f ≠ ancestorAt r n) :
    f.depth < n ∧ f.depth < r.depth ∧ f = ancestorAt r f.depth := by
  rw [RelativePath.startsWith_iff] at hf
  have hlength : f.components.length ≤ (r.components.take n).length := hf.length_le
  have hlt : f.components.length < (r.components.take n).length := by
    refine lt_of_le_of_ne hlength fun heq => hne ?_
    exact RelativePath.ext_components (hf.eq_of_length heq)
  rw [List.length_take] at hlt
  refine ⟨by unfold RelativePath.depth; omega, by unfold RelativePath.depth; omega, ?_⟩
  refine RelativePath.ext_components ?_
  show f.components = r.components.take f.components.length
  exact List.prefix_iff_eq_take.mp (hf.trans (List.take_prefix n r.components))

theorem applyAllocation_doubts (hd : t.Distinct) (hup : t.DoubtsUp) {c : AllocationContribution}
    (h : t.applyAllocation c = .ok t') :
    t'.Distinct ∧ t'.DoubtsUp ∧ (t.AllSummarised → t'.AllSummarised) := by
  obtain ⟨m, hm, h⟩ := bind_eq_ok h
  have hlevels : ChargedLevels t m c (List.range c.recipient.depth) :=
    foldlM_ok (P := fun levels s => ChargedLevels t s c levels) hm (ChargedLevels.none hd c)
      fun _ _ _ _ hs hi => hs.level hi
  have hmup : m.DoubtsUp := by
    intro p d hp f hf hne
    rcases hlevels.origin p d hp with hold | ⟨hc, i, hi, rfl⟩
    · obtain ⟨hheader, hfolder⟩ := hup p d hold f hf hne
      exact ⟨hlevels.headers f d hheader, fun hroot => hlevels.folders f d (hfolder hroot)⟩
    · -- the folder lies on the way to the recipient
      obtain ⟨hlt, hdepth, heq⟩ := above_ancestorAt hf hne
      rw [heq]
      refine ⟨hlevels.header _ (List.mem_range.mpr hdepth) d hc, fun hroot => ?_⟩
      cases hn : f.depth with
      | zero =>
        rw [hn] at hroot
        exact absurd rfl hroot
      | succ k =>
        exact hlevels.folder k (List.mem_range.mpr (by omega)) (by omega) d hc
  split at h
  · obtain ⟨hentries, hheaders, -⟩ := updateHeaderPhysical_doubts h
    refine ⟨(updateHeaderPhysical_refines h).distinct hlevels.distinct, ?_, ?_⟩
    · intro p d hp f hf hne
      unfold EntryDoubt at hp
      rw [hentries] at hp
      obtain ⟨hheader, hfolder⟩ := hmup p d hp f hf hne
      refine ⟨hheaders f d hheader, fun hroot => ?_⟩
      unfold FolderDoubt
      rw [hentries]
      exact hfolder hroot
    · intro hall
      unfold AllSummarised
      rw [hentries]
      exact hlevels.summarised hall
  · cases h
    exact ⟨hlevels.distinct, hmup, hlevels.summarised⟩

/-! ## Filling the table -/

/-- The entry still says what was observed. -/
def Observed (e : StoredEntry) : Prop :=
  e.coverage = e.observation.coverage ∧ e.metrics = e.observation.metrics ∧
    e.directorySummarySeen = false

/-- The entry says what the summary says. -/
def SaysSummary (e : StoredEntry) (s : DirectorySummary) : Prop :=
  e.path = s.path ∧ e.coverage = s.coverage ∧ e.metrics = s.metrics ∧
    e.directorySummarySeen = true ∧ e.observation.kind = .Directory

theorem indexPaths_observed {paths : List PathObservation}
    (h : paths.foldlM indexPath empty = .ok t) : ∀ e ∈ t.entries, Observed e := by
  refine foldlM_ok (P := fun _ t => ∀ e ∈ t.entries, Observed e) h (by simp [empty]) ?_
  intro _ t o t' ht ho e he
  unfold indexPath at ho
  split at ho
  · cases ho
  split at ho
  · cases ho
  cases ho
  rcases List.mem_append.mp he with he | he
  · exact ht e he
  · rw [List.mem_singleton.mp he]
    exact ⟨rfl, rfl, rfl⟩

theorem indexIdentity_observed (hd : t.Distinct) (ht : ∀ e ∈ t.entries, Observed e)
    {o : IdentityObservation} (h : t.indexIdentity o = .ok t') : ∀ e ∈ t'.entries, Observed e := by
  unfold indexIdentity at h
  split at h
  · cases h
  rename_i entry hentry
  split at h
  · cases h
  split at h
  · cases h
  cases h
  intro e he
  rcases (mem_setEntry hentry hd).mp he with rfl | ⟨he, -⟩
  · exact ht entry (entry?_some hentry).1
  · exact ht e he

/-- The table after the summaries `done`. -/
structure Filled (t : PageIndex) (done : List DirectorySummary) : Prop where
  distinct : t.Distinct
  entries : ∀ e ∈ t.entries, Observed e ∨ ∃ s ∈ done, SaysSummary e s
  headers : ∀ s ∈ done, t.header? s.path = some ⟨s.metrics, s.coverage, none⟩
  summaries : ∀ s ∈ done, s.path ≠ .root → ∃ e ∈ t.entries, SaysSummary e s

theorem header?_append (t : PageIndex) (g : RelativePath) (h : StoredHeader) (f : RelativePath) :
    ({ t with headers := t.headers ++ [(g, h)] } : PageIndex).header? f =
      (t.header? f).or (if g = f then some h else none) := by
  unfold header?
  dsimp only
  rw [List.find?_append]
  cases t.headers.find? fun h => h.1 = f with
  | some x => rfl
  | none =>
    by_cases hgf : g = f
    · simp [hgf]
    · simp [hgf]

theorem Filled.summary {done : List DirectorySummary} (h : Filled t done) {s : DirectorySummary}
    (hs : t.indexSummary s = .ok t') : Filled t' (done ++ [s]) := by
  have hdistinct : t'.Distinct := by
    unfold Distinct
    rw [(indexSummary_ok h.distinct hs).1]
    exact h.distinct
  unfold indexSummary at hs
  split at hs
  · cases hs
  rename_i hnone
  generalize hadded :
    ({ t with headers := t.headers ++ [(s.path, ⟨s.metrics, s.coverage, none⟩)] } : PageIndex) =
      added at hs
  have hheaders : ∀ x ∈ done ++ [s], added.header? x.path = some ⟨x.metrics, x.coverage, none⟩ := by
    intro x hx
    rw [← hadded, header?_append]
    rcases List.mem_append.mp hx with hx | hx
    · rw [h.headers x hx]
      rfl
    · rw [List.mem_singleton.mp hx, hnone, if_pos rfl]
      rfl
  have hentries : added.entries = t.entries := by rw [← hadded]
  dsimp only at hs
  split at hs
  · rename_i hroot
    cases hs
    refine ⟨hdistinct, ?_, hheaders, ?_⟩
    · rw [hentries]
      intro e he
      rcases h.entries e he with ho | ⟨x, hx, hsays⟩
      · exact Or.inl ho
      · exact Or.inr ⟨x, List.mem_append_left _ hx, hsays⟩
    · rw [hentries]
      intro x hx hne
      rcases List.mem_append.mp hx with hx | hx
      · exact h.summaries x hx hne
      · rw [List.mem_singleton.mp hx] at hne
        exact absurd ((RelativePath.isRoot_iff s.path).mp hroot) hne
  · split at hs
    · cases hs
    rename_i entry hentry
    split at hs
    · cases hs
    rename_i hkind
    rw [not_not] at hkind
    split at hs
    · cases hs
    rename_i hseen
    cases hs
    have hd : added.Distinct := by
      unfold Distinct observations
      rw [hentries]
      exact h.distinct
    obtain ⟨he, hpath⟩ := entry?_some hentry
    have hmem {x new : StoredEntry} := @mem_setEntry added s.path entry x hentry hd new
    have hsays : SaysSummary { entry with
        metrics := s.metrics, coverage := s.coverage, directorySummarySeen := true } s :=
      ⟨hpath, rfl, rfl, rfl, hkind⟩
    refine ⟨hdistinct, ?_, hheaders, ?_⟩
    · intro e he
      rcases hmem.mp he with rfl | ⟨he, -⟩
      · exact Or.inr ⟨s, List.mem_append_right _ (List.mem_singleton_self s), hsays⟩
      · rw [hentries] at he
        rcases h.entries e he with ho | ⟨x, hx, hsays⟩
        · exact Or.inl ho
        · exact Or.inr ⟨x, List.mem_append_left _ hx, hsays⟩
    · intro x hx hne
      rcases List.mem_append.mp hx with hx | hx
      · obtain ⟨e, he, hold⟩ := h.summaries x hx hne
        refine ⟨e, hmem.mpr (Or.inr ⟨hentries ▸ he, ?_⟩), hold⟩
        rintro rfl
        exact hseen hold.2.2.2.1
      · rw [List.mem_singleton.mp hx]
        exact ⟨_, hmem.mpr (Or.inl rfl), hsays⟩

/-- The table filled with every summary passes doubts up, because the summaries do. -/
theorem Filled.doubtsUp {paths : List PathObservation} {summaries : List DirectorySummary}
    (h : Filled t summaries) (hobs : t.observations = paths) (hroot : ∀ o ∈ paths, o.path ≠ .root)
    (hrise : DoubtsRise paths summaries) (hsummaries : Summarised paths summaries) :
    t.DoubtsUp ∧ t.AllSummarised := by
  have hmem : ∀ e ∈ t.entries, e.observation ∈ paths := fun e he =>
    hobs ▸ List.mem_map_of_mem he
  have hall : t.AllSummarised := by
    intro e he hk
    obtain ⟨s, hs, hpath⟩ := hsummaries.covered e.observation (hmem e he) hk
    obtain ⟨e', he', hsays⟩ := h.summaries s hs (hpath ▸ hroot _ (hmem e he))
    obtain rfl := h.distinct.eq_of_path he he' (hpath.symm.trans hsays.1.symm)
    exact hsays.2.2.2.1
  refine ⟨?_, hall⟩
  rintro p d ⟨e, he, rfl, hd⟩ f hf hne
  have hreported : Reported summaries e.path d := by
    rcases h.entries e he with ⟨hcoverage, hmetrics, hseen⟩ | ⟨s, hs, hpath, hcoverage, hmetrics, -⟩
    · refine hrise.leaves e.observation (hmem e he) (fun hk => ?_) d ?_
      · rw [hall e he hk] at hseen
        cases hseen
      · rwa [← hcoverage, ← hmetrics]
    · rw [hcoverage, hmetrics] at hd
      rw [hpath]
      exact (hrise.closed s hs d hd).resolve_left (hpath ▸ hroot _ (hmem e he))
  obtain ⟨x, hx, rfl, hxd⟩ := hrise.above hreported hf hne
  refine ⟨⟨_, h.headers x hx, hxd⟩, fun hfr => ?_⟩
  obtain ⟨e', he', hpath, hcoverage, hmetrics, -, hk⟩ := h.summaries x hx hfr
  exact ⟨e', he', hpath, hk, by rwa [hcoverage, hmetrics]⟩

/-- In a finished table every doubt has reached the folders above. -/
theorem build_doubts {paths : List PathObservation} {identities : List IdentityObservation}
    {summaries : List DirectorySummary} {contributions : List (FileId × AllocationContribution)}
    (h : build paths identities summaries contributions = .ok t)
    (hrise : DoubtsRise paths summaries) (hsummaries : Summarised paths summaries) :
    t.DoubtsUp ∧ t.AllSummarised := by
  obtain ⟨t₁, h₁, h⟩ := bind_eq_ok h
  obtain ⟨t₂, h₂, h⟩ := bind_eq_ok h
  obtain ⟨t₃, h₃, h⟩ := bind_eq_ok h
  obtain ⟨hobs, -, hd, hroot⟩ := indexPaths_ok h₁
  obtain ⟨hids, hobserved⟩ : Refines t₁ t₂ ∧ ∀ e ∈ t₂.entries, Observed e := by
    refine foldlM_ok (P := fun _ s => Refines t₁ s ∧ ∀ e ∈ s.entries, Observed e) h₂
      ⟨Refines.refl t₁, indexPaths_observed h₁⟩ ?_
    intro _ s o s' ⟨hs, hobserved⟩ ho
    exact ⟨hs.trans (indexIdentity_refines (hs.distinct hd) ho),
      indexIdentity_observed (hs.distinct hd) hobserved ho⟩
  have hd₂ := hids.distinct hd
  obtain ⟨hobs₃, hfilled⟩ : t₃.observations = t₂.observations ∧ Filled t₃ summaries := by
    refine foldlM_ok (P := fun done s => s.observations = t₂.observations ∧ Filled s done) h₃
      ⟨rfl, hd₂, fun e he => Or.inl (hobserved e he), by simp, by simp⟩ ?_
    intro done s x s' ⟨hs, hfilled⟩ hx
    exact ⟨(indexSummary_ok hfilled.distinct hx).1.trans hs, hfilled.summary hx⟩
  obtain ⟨hup, hall⟩ := hfilled.doubtsUp (hobs₃.trans (hids.1.trans hobs)) hroot hrise hsummaries
  obtain ⟨-, hup, hall⟩ : t.Distinct ∧ t.DoubtsUp ∧ t.AllSummarised := by
    refine foldlM_ok (P := fun _ s => s.Distinct ∧ s.DoubtsUp ∧ s.AllSummarised) h
      ⟨hfilled.distinct, hup, hall⟩ ?_
    intro _ s c s' ⟨hd, hup, hall⟩ hc
    obtain ⟨hd', hup', hall'⟩ := applyAllocation_doubts hd hup hc
    exact ⟨hd', hup', hall' hall⟩
  exact ⟨hup, hall⟩

end PageIndex

end Excise
