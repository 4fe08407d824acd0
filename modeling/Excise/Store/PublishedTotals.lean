import Excise.Report.Exactness
import Excise.Store.FolderTotals
import Excise.Store.Pages

/-!
# The totals of a published generation

The table that a publication wrote, read through its records: the header of a folder adds up the
entries its page lists and what is shared at it, and the root counts every file with one link at
its path and every other file once for its identity.
-/

namespace Excise
set_option autoImplicit false

/-! ## What a publication was made of -/

/-- The decoded facts that `p` was reduced from and the contributions they came to. -/
structure PublishedFrom (a : ActiveGeneration) (p : PublishedGeneration)
    (paths : List PathObservation) (identities : List IdentityObservation)
    (contributions : List (FileId × AllocationContribution)) : Prop where
  pathFacts : PathsOf a paths
  identityFacts : ∃ facts, facts.Perm (recordsOf a.identityRuns.intoRuns) ∧
    decodeIdentities facts = .ok identities
  contributed : Contributed identities contributions
  tree : TreeShaped paths
  /-- Every path has an id of its own. -/
  numbered : paths.length + 1 < 2 ^ 64
  table : ∃ summaries t root, Summarised paths summaries ∧
    PageIndex.build paths identities summaries contributions = .ok t ∧
    t.header? .root = some root ∧ p.rootPageMetrics = root.metrics ∧
    t.queryRecords = p.childQueries.records

theorem buildPathCatalog_length {paths : List PathObservation} {rows : List PathCatalogEntry}
    (h : buildPathCatalog paths = .ok rows) : paths.length + 1 < 2 ^ 64 := by
  obtain ⟨s, hs, -⟩ := map_eq_ok h
  have hlast := foldlM_ok (P := fun done s => s.nextId = done.length + 1 ∧ done.length + 1 < 2 ^ 64)
    hs ⟨rfl, by decide⟩ fun done s o s' hP ho => ?_
  · exact hlast.2
  obtain ⟨hnext, -⟩ := hP
  unfold CatalogState.catalogue at ho
  dsimp only at ho
  split at ho
  · cases ho
  split at ho
  · cases ho
  rename_i hroom
  cases ho
  rw [List.length_append, List.length_singleton]
  exact ⟨by dsimp only; omega, by omega⟩

theorem decodeIdentities_facts {facts : List Fact} {identities : List IdentityObservation}
    (h : decodeIdentities facts = .ok identities) : facts = identities.map Fact.identity := by
  have hall : List.Forall₂ (· = ·) facts (identities.map Fact.identity) := by
    refine List.forall₂_map_right_iff.mpr ((mapM_eq_ok h).imp fun fact o ho => ?_)
    cases fact with
    | identity x =>
      cases ho
      rfl
    | path x => cases ho
  rwa [List.forall₂_eq_eq_eq] at hall

theorem decodePaths_facts {facts : List Fact} {paths : List PathObservation}
    (h : decodePaths facts = .ok paths) : facts = paths.map Fact.path := by
  have hall : List.Forall₂ (· = ·) facts (paths.map Fact.path) := by
    refine List.forall₂_map_right_iff.mpr ((mapM_eq_ok h).imp fun fact o ho => ?_)
    cases fact with
    | identity x => cases ho
    | path x =>
      dsimp only at ho
      split at ho
      · cases ho
        rfl
      · cases ho
  rwa [List.forall₂_eq_eq_eq] at hall

/-- An identity observation is filed under the entry of its path. -/
theorem PageIndex.build_identities {paths : List PathObservation}
    {identities : List IdentityObservation} {summaries : List DirectorySummary}
    {contributions : List (FileId × AllocationContribution)} {t : PageIndex}
    (h : PageIndex.build paths identities summaries contributions = .ok t) :
    ∀ i ∈ identities, ∃ o ∈ paths, o.path = i.path := by
  obtain ⟨t₁, h₁, h⟩ := bind_eq_ok h
  obtain ⟨t₂, h₂, -⟩ := bind_eq_ok h
  obtain ⟨hobs, -, hd, -⟩ := indexPaths_ok h₁
  have hfold := foldlM_ok (P := fun done s => Refines t₁ s ∧
    ∀ i ∈ done, ∃ o ∈ t₁.observations, o.path = i.path) h₂ ⟨Refines.refl t₁, by simp⟩
    fun done s i s' hs hi => ?_
  · rw [hobs] at hfold
    exact hfold.2
  obtain ⟨hrefines, hdone⟩ := hs
  refine ⟨hrefines.trans (indexIdentity_refines (hrefines.distinct hd) hi), ?_⟩
  rw [List.forall_mem_append, List.forall_mem_singleton]
  refine ⟨hdone, ?_⟩
  unfold indexIdentity at hi
  split at hi
  · cases hi
  rename_i entry hentry
  obtain ⟨hmem, hpath⟩ := entry?_some hentry
  rw [← hrefines.1]
  exact ⟨entry.observation, List.mem_map_of_mem hmem, hpath⟩

theorem PublishesInto.publishedFrom {a : ActiveGeneration} {p : PublishedGeneration}
    (h : PublishesInto a p) :
    ∃ paths identities contributions, PublishedFrom a p paths identities contributions := by
  obtain ⟨reduced, hreduced, hrecords⟩ := h.records
  obtain ⟨paths, hpaths, hstream⟩ := reducedSummaries_ok hreduced.summaries
  obtain ⟨htree, hsummaries⟩ := reduceSortedPathStream_ok hstream
  obtain ⟨paths', hpaths', hcatalog⟩ := bind_eq_ok hreduced.catalog
  obtain rfl : paths = paths' := Except.ok.inj (hpaths.symm.trans hpaths')
  have hnumbered : paths.length + 1 < 2 ^ 64 := by
    split at hcatalog
    · cases hcatalog
    · rename_i rows hrows
      exact buildPathCatalog_length hrows
  obtain ⟨identities, hidentities, hcontributions⟩ := bind_eq_ok hreduced.contributions
  unfold childQueryRecords at hrecords
  obtain ⟨paths', hpaths', hrecords⟩ := bind_eq_ok hrecords
  obtain rfl : paths = paths' := Except.ok.inj (hpaths.symm.trans hpaths')
  obtain ⟨identities', hidentities', hrecords⟩ := bind_eq_ok hrecords
  obtain rfl : identities = identities' := Except.ok.inj (hidentities.symm.trans hidentities')
  split at hrecords
  · cases hrecords
  rename_i result hresult
  cases hrecords
  obtain ⟨t, ht, hmeta⟩ := bind_eq_ok hresult
  split at hmeta
  · cases hmeta
  rename_i root hroot
  obtain ⟨hq, hmetadata⟩ := Prod.mk.inj (Except.ok.inj hmeta)
  have hsorted := reduced.identityObservations.sorted
  rw [decodeIdentities_facts hidentities, SortedBy, List.pairwise_map] at hsorted
  have hidentityroot : ∀ i ∈ identities, i.path.isRoot = false := by
    intro i hi
    obtain ⟨o, ho, hpath⟩ := PageIndex.build_identities ht i hi
    obtain ⟨q, hq, -⟩ := htree.parents o ho
    rw [← hpath, Bool.eq_false_iff, Ne, RelativePath.isRoot_iff]
    exact RelativePath.ne_root_of_child hq
  refine ⟨paths, identities, reduced.allocationContributions.records, ⟨_, hreduced.paths, hpaths⟩,
    ⟨_, hreduced.identities, hidentities⟩, ?_, htree, hnumbered,
    _, t, root, hsummaries, ht, hroot, (congrArg PageIndexMetadata.rootMetrics hmetadata).symm, hq⟩
  split at hcontributions
  · cases hcontributions
  rename_i contributions hreduce
  cases hcontributions
  exact ((identity_reduction hsorted hidentityroot).1 _ hreduce).1

/-! ## The records and the table -/

section Records

variable {t : PageIndex} {f : RelativePath}

theorem mem_headerRecords {x : StoredHeader} :
    PageRecord.header f x ∈ t.queryRecords ↔ (f, x) ∈ t.headers := by
  rw [(perm_queryRecords t).mem_iff, List.mem_append, List.mem_map, List.mem_filterMap]
  constructor
  · rintro (⟨h, hmem, heq⟩ | ⟨e, -, heq⟩)
    · cases heq
      exact hmem
    · obtain ⟨q, -, heq⟩ := Option.map_eq_some_iff.mp heq
      cases heq
  · exact fun hmem => Or.inl ⟨_, hmem, rfl⟩

theorem header?_of_record (hsorted : SortedBy PageRecord.key t.queryRecords) {x : StoredHeader}
    (hx : PageRecord.header f x ∈ t.queryRecords) : t.header? f = some x := by
  have hfound : (t.header? f).isSome = true := by
    unfold PageIndex.header?
    rw [Option.isSome_map, List.find?_isSome]
    exact ⟨(f, x), mem_headerRecords.mp hx, decide_eq_true rfl⟩
  obtain ⟨y, hy⟩ := Option.isSome_iff_exists.mp hfound
  have hmem : PageRecord.header f y ∈ t.queryRecords :=
    mem_headerRecords.mpr (PageIndex.mem_headers hy)
  have hsame := List.inj_on_of_nodup_map hsorted.nodup_keys hmem hx rfl
  cases hsame
  exact hy

/-- What a page lists are the entries directly in its folder. -/
theorem children_queryRecords (t : PageIndex) (f : RelativePath) :
    (children t.queryRecords f).Perm
      ((t.entries.filter fun e => e.path.isDirectChildOf f).map StoredEntry.intoPageEntry) := by
  refine ((perm_queryRecords t).filterMap (PageRecord.childOf f)).trans ?_
  have hheaders : (t.headers.map fun h => PageRecord.header h.1 h.2).filterMap
      (PageRecord.childOf f) = [] := by
    rw [List.filterMap_eq_nil_iff]
    intro r hr
    obtain ⟨h, -, rfl⟩ := List.mem_map.mp hr
    rfl
  have hentries : (t.entries.filterMap fun e =>
      e.path.relativeParent.map fun p => PageRecord.entry p e).filterMap (PageRecord.childOf f) =
      (t.entries.filter fun e => e.path.isDirectChildOf f).map StoredEntry.intoPageEntry := by
    rw [List.filterMap_filterMap, ← List.filterMap_eq_map, List.filterMap_filter]
    refine List.filterMap_congr fun e he => ?_
    rw [Option.bind_map]
    by_cases hchild : e.path.isDirectChildOf f = true
    · rw [RelativePath.relativeParent_eq_some.mpr hchild, if_pos hchild]
      exact if_pos rfl
    · rw [if_neg hchild]
      cases hparent : e.path.relativeParent with
      | none => rfl
      | some q =>
        refine if_neg ?_
        rintro rfl
        exact hchild (RelativePath.relativeParent_eq_some.mp hparent)
  rw [List.filterMap_append, hheaders, hentries, List.nil_append]

end Records

/-! ## Identities -/

/-- The bytes that the observations of one identity agree on. -/
def agreedBytes : List IdentityObservation → Nat
  | [] => 0
  | o :: rest =>
    if ∀ x ∈ o :: rest, x.allocatedBytes = .exact o.allocatedBytes.lower then o.allocatedBytes.lower
    else 0

/-- Every distinct identity once. -/
def identityBytes (identities : List IdentityObservation) : Nat :=
  ((identities.map IdentityObservation.fileId).dedup.map fun id =>
    agreedBytes (observationsOf id identities)).sum

theorem Contributes.lower {os : List IdentityObservation} {c : AllocationContribution}
    (h : Contributes os c) (hne : os ≠ []) : c.allocatedBytes.lower = agreedBytes os := by
  cases os with
  | nil => exact absurd rfl hne
  | cons o rest =>
    show _ = if ∀ x ∈ o :: rest, x.allocatedBytes = .exact o.allocatedBytes.lower
      then o.allocatedBytes.lower else 0
    by_cases hall : ∀ x ∈ o :: rest, x.allocatedBytes = .exact o.allocatedBytes.lower
    · rw [if_pos hall, (h.exact _).mpr hall]
      rfl
    · rw [if_neg hall, h.unknown]
      · rfl
      · rintro ⟨n, hn⟩
        refine hall ?_
        rw [hn o List.mem_cons_self]
        exact hn

/-- The contributions are what the distinct identities come to. -/
theorem Contributed.sum_lower {identities : List IdentityObservation}
    {contributions : List (FileId × AllocationContribution)}
    (h : Contributed identities contributions) :
    (contributions.map fun r => r.2.allocatedBytes.lower).sum = identityBytes identities := by
  have hids : (contributions.map Prod.fst).Perm (identities.map IdentityObservation.fileId).dedup := by
    rw [List.perm_ext_iff_of_nodup h.sorted.nodup_keys (List.nodup_dedup _)]
    intro id
    rw [List.mem_dedup, List.mem_map, List.mem_map, ← h.ids id]
    constructor
    · rintro ⟨r, hr, rfl⟩
      exact ⟨r.2, hr⟩
    · rintro ⟨c, hc⟩
      exact ⟨(id, c), hc, rfl⟩
  have heach : contributions.map (fun r => r.2.allocatedBytes.lower) =
      (contributions.map Prod.fst).map fun id => agreedBytes (observationsOf id identities) := by
    rw [List.map_map]
    refine List.map_congr_left fun r hr => (h.contributes r.1 r.2 hr).lower ?_
    obtain ⟨o, ho, hid⟩ := (h.ids r.1).mp ⟨r.2, hr⟩
    exact List.ne_nil_of_mem (List.mem_filter.mpr ⟨ho, decide_eq_true hid⟩)
  rw [heach, identityBytes, (hids.map _).sum_eq]

theorem agreedBytes_eq {os : List IdentityObservation} {n : Nat} (hne : os ≠ [])
    (h : ∀ x ∈ os, x.allocatedBytes = .exact n) : agreedBytes os = n := by
  cases os with
  | nil => exact absurd rfl hne
  | cons o rest =>
    have hn : o.allocatedBytes.lower = n := congrArg ByteBounds.lower (h o List.mem_cons_self)
    unfold agreedBytes
    dsimp only
    rw [hn, if_pos h]

theorem agreedBytes_eq_zero {os : List IdentityObservation}
    (h : ¬∃ n, ∀ x ∈ os, x.allocatedBytes = .exact n) : agreedBytes os = 0 := by
  cases os with
  | nil => rfl
  | cons o rest => exact if_neg fun hall => h ⟨_, hall⟩

theorem agreedBytes_perm {os os' : List IdentityObservation} (h : os.Perm os') :
    agreedBytes os = agreedBytes os' := by
  by_cases hagree : ∃ n, ∀ x ∈ os, x.allocatedBytes = .exact n
  · obtain ⟨n, hn⟩ := hagree
    by_cases hne : os = []
    · subst hne
      rw [h.nil_eq]
    · have hne' : os' ≠ [] := fun hnil => hne (hnil ▸ h).eq_nil
      rw [agreedBytes_eq hne hn, agreedBytes_eq hne' fun x hx => hn x (h.mem_iff.mpr hx)]
  · rw [agreedBytes_eq_zero hagree, agreedBytes_eq_zero]
    rintro ⟨n, hn⟩
    exact hagree ⟨n, fun x hx => hn x (h.mem_iff.mp hx)⟩

theorem identityBytes_perm {identities identities' : List IdentityObservation}
    (h : identities.Perm identities') : identityBytes identities = identityBytes identities' := by
  have hsame : (fun id => agreedBytes (observationsOf id identities)) =
      fun id => agreedBytes (observationsOf id identities') :=
    funext fun id => agreedBytes_perm (h.filter _)
  unfold identityBytes
  rw [hsame]
  exact (((h.map _).dedup).map _).sum_eq

/-- A file that its snapshot says has one link. -/
def PathObservation.oneLink (o : PathObservation) : Bool :=
  decide (o.kind ≠ .Directory) && o.identity?.any fun identity => decide (identity.linkCount = some 1)

/-- Every file with one link, at its path. -/
def oneLinkBytes (paths : List PathObservation) : Nat :=
  sumWhere PathObservation.oneLink (fun o => o.snapshotBounds.lower) paths

/-- The paths carry the files with one link and nothing else. -/
theorem ScannerConvention.totalOf_lower {paths : List PathObservation}
    {identities : List IdentityObservation} (h : ScannerConvention paths identities) :
    totalOf (fun m => m.allocatedBytes.lower) paths = oneLinkBytes paths := by
  unfold totalOf oneLinkBytes sumWhere
  refine congrArg List.sum (List.map_congr_left fun o ho => ?_)
  rw [if_pos rfl]
  unfold PathObservation.oneLink
  dsimp only
  by_cases hk : o.kind = .Directory
  · rw [(h.directories o ho hk).1, hk]
    rfl
  · rw [decide_eq_true hk, Bool.true_and]
    obtain ⟨identity, hidentity, ⟨hone, hbytes, -⟩ | ⟨hmany, hbytes, -⟩⟩ := h.files o ho hk
    · rw [hidentity, Option.any_some, decide_eq_true hone, if_pos rfl, hbytes]
    · rw [hidentity, Option.any_some, decide_eq_false hmany, if_neg Bool.false_ne_true, hbytes]
      rfl

/-! ## The accounting of a publication -/

/-- No total of the generation saturates. -/
structure Unsaturated (paths : List PathObservation) (identities : List IdentityObservation) :
    Prop where
  allocated : totalOf (fun m => m.allocatedBytes.lower) paths + identityBytes identities
    ≤ satMax byteBits
  apparent : totalOf SummaryMetrics.apparentBytes paths ≤ satMax byteBits

/-- The order in which facts were recorded does not matter. -/
theorem ScannerConvention.of_perm {paths paths' : List PathObservation}
    {identities identities' : List IdentityObservation} (h : ScannerConvention paths' identities')
    (hpaths : paths.Perm paths') (hidentities : identities.Perm identities') :
    ScannerConvention paths identities where
  directories o ho hk := by
    obtain ⟨hallocated, hreclaimable, hnone⟩ := h.directories o (hpaths.mem_iff.mp ho) hk
    exact ⟨hallocated, hreclaimable, fun i hi => hnone i (hidentities.mem_iff.mp hi)⟩
  files o ho hk := by
    obtain ⟨identity, hidentity, hcase⟩ := h.files o (hpaths.mem_iff.mp ho) hk
    refine ⟨identity, hidentity, ?_⟩
    rcases hcase with ⟨hone, hallocated, hreclaimable, hnone⟩ | ⟨hmany, hallocated, hreclaimable, hobs⟩
    · exact Or.inl ⟨hone, hallocated, hreclaimable, fun i hi => hnone i (hidentities.mem_iff.mp hi)⟩
    · refine Or.inr ⟨hmany, hallocated, hreclaimable, ?_⟩
      exact List.perm_singleton.mp (hobs ▸ hidentities.filter _)
  recorded i hi := by
    obtain ⟨o, ho, hpath⟩ := h.recorded i (hidentities.mem_iff.mp hi)
    exact ⟨o, hpaths.mem_iff.mpr ho, hpath⟩

theorem Unsaturated.of_perm {paths paths' : List PathObservation}
    {identities identities' : List IdentityObservation} (h : Unsaturated paths' identities')
    (hpaths : paths.Perm paths') (hidentities : identities.Perm identities') :
    Unsaturated paths identities where
  allocated := by
    unfold totalOf
    rw [sumWhere_perm hpaths, identityBytes_perm hidentities]
    exact h.allocated
  apparent := by
    unfold totalOf
    rw [sumWhere_perm hpaths]
    exact h.apparent

namespace PublishedGeneration

/-- The header of a folder adds up the entries of its page and what is shared at it. -/
def AddsUp (p : PublishedGeneration) : Prop :=
  ∀ f header, PageRecord.header f header ∈ p.childQueries.records →
    header.metrics.allocatedBytes.lower =
      ((children p.childQueries.records f).map fun x => x.metrics.allocatedBytes.lower).sum +
      header.shared.elim 0 fun m => m.allocatedBytes.lower

/-- A listed directory shows what the page of that directory shows. -/
def ListsHeaders (p : PublishedGeneration) : Prop :=
  ∀ f, ∀ x ∈ children p.childQueries.records f, x.kind = .Directory →
    ∃ header, PageRecord.header x.path header ∈ p.childQueries.records ∧
      x.metrics = clearUncertainPhysicalBounds header.metrics header.coverage ∧
      x.coverage = header.coverage

end PublishedGeneration

namespace PublishedFrom

variable {a : ActiveGeneration} {p : PublishedGeneration} {paths : List PathObservation}
  {identities : List IdentityObservation} {contributions : List (FileId × AllocationContribution)}

/-- A publication is made of the facts that its generation recorded. -/
theorem decoded (h : PublishedFrom a p paths identities contributions)
    {paths' : List PathObservation} {identities' : List IdentityObservation}
    (hpaths : (recordsOf a.pathRuns.intoRuns).Perm (paths'.map Fact.path))
    (hidentities : (recordsOf a.identityRuns.intoRuns).Perm (identities'.map Fact.identity)) :
    paths.Perm paths' ∧ identities.Perm identities' := by
  obtain ⟨facts, hfacts, hdecode⟩ := h.pathFacts.facts
  obtain ⟨facts', hfacts', hdecode'⟩ := h.identityFacts
  rw [decodePaths_facts hdecode] at hfacts
  rw [decodeIdentities_facts hdecode'] at hfacts'
  exact ⟨(List.map_perm_map_iff fun x y => Fact.path.inj).mp (hfacts.trans hpaths),
    (List.map_perm_map_iff fun x y => Fact.identity.inj).mp (hfacts'.trans hidentities)⟩

theorem root_of_tree (h : PublishedFrom a p paths identities contributions) :
    ∀ o ∈ paths, o.path ≠ .root := by
  intro o ho
  obtain ⟨q, hq, -⟩ := h.tree.parents o ho
  exact RelativePath.ne_root_of_child hq

theorem chargeable (h : PublishedFrom a p paths identities contributions)
    (hscan : ScannerConvention paths identities) (hbounded : Unsaturated paths identities) :
    PageIndex.Chargeable paths (contributions.map Prod.snd) := by
  refine h.contributed.chargeable hscan h.root_of_tree ?_
  rw [h.contributed.sum_lower]
  exact hbounded.allocated

theorem totalled (h : PublishedFrom a p paths identities contributions)
    (hscan : ScannerConvention paths identities) (hbounded : Unsaturated paths identities) :
    ∃ (t : PageIndex) (root : StoredHeader),
      PageIndex.Totalled paths (contributions.map Prod.snd) t ∧ t.header? .root = some root ∧
      p.rootPageMetrics = root.metrics ∧ t.queryRecords = p.childQueries.records := by
  obtain ⟨summaries, t, root, hsummaries, hbuild, hroot, hmetrics, hrecords⟩ := h.table
  refine ⟨t, root, PageIndex.build_totalled hbuild hsummaries hscan h.contributed ?_
    hbounded.apparent, hroot, hmetrics, hrecords⟩
  rw [h.contributed.sum_lower]
  exact hbounded.allocated

theorem addsUp (h : PublishedFrom a p paths identities contributions)
    (hscan : ScannerConvention paths identities) (hbounded : Unsaturated paths identities) :
    p.AddsUp := by
  obtain ⟨t, -, ht, -, -, hrecords⟩ := h.totalled hscan hbounded
  have hsorted := p.childQueries.sorted
  unfold PublishedGeneration.AddsUp
  rw [← hrecords] at hsorted ⊢
  intro f header hheader
  rw [((children_queryRecords t f).map _).sum_eq, List.map_map]
  exact ht.additive (h.chargeable hscan hbounded) h.tree
    (fun o ho hk => (hscan.directories o ho hk).1) (header?_of_record hsorted hheader)

theorem listsHeaders (h : PublishedFrom a p paths identities contributions)
    (hscan : ScannerConvention paths identities) (hbounded : Unsaturated paths identities) :
    p.ListsHeaders := by
  obtain ⟨t, -, ht, -, -, hrecords⟩ := h.totalled hscan hbounded
  unfold PublishedGeneration.ListsHeaders
  rw [← hrecords]
  intro f x hx hk
  obtain ⟨e, he, rfl⟩ := List.mem_map.mp ((children_queryRecords t f).mem_iff.mp hx)
  have hmem := List.mem_of_mem_filter he
  obtain ⟨hseen, header, hheader, hmetrics, hcoverage⟩ := ht.headed e hmem hk
  have hshown := StoredEntry.shown_directory hk hseen
  refine ⟨header, mem_headerRecords.mpr (PageIndex.mem_headers hheader), ?_, ?_⟩
  · show clearUncertainPhysicalBounds e.shown.1 e.shown.2 = _
    rw [hshown, hmetrics, hcoverage]
  · show e.shown.2 = _
    rw [hshown, hcoverage]

theorem rootBytes (h : PublishedFrom a p paths identities contributions)
    (hscan : ScannerConvention paths identities) (hbounded : Unsaturated paths identities) :
    p.rootPageMetrics.allocatedBytes.lower = oneLinkBytes paths + identityBytes identities := by
  obtain ⟨t, root, ht, hroot, hmetrics, -⟩ := h.totalled hscan hbounded
  have hall : PageIndex.chargedUnder .root (contributions.map Prod.snd) =
      (contributions.map fun r => r.2.allocatedBytes.lower).sum := by
    unfold PageIndex.chargedUnder
    rw [sumWhere_congr fun c _ => c.recipient.startsWith_root, sumWhere_true, List.map_map]
    rfl
  have hpaths : totalUnder (fun m => m.allocatedBytes.lower) .root paths =
      totalOf (fun m => m.allocatedBytes.lower) paths :=
    sumWhere_congr fun o _ => RelativePath.startsWith_root o.path
  rw [hmetrics, ht.allocated _ _ hroot, hall, hpaths, hscan.totalOf_lower, h.contributed.sum_lower]

end PublishedFrom

/-- The accounting of a publication of what one generation of the run recorded: folders add up,
listed directories show their own headers, and the root counts every file with one link at its path
and every other identity once. -/
theorem published_accounting (session : ScanSessionId) (generation : ScanGeneration)
    (calls : List StoreCall) {p : PublishedGeneration}
    (hp : (ScanStore.machine.run (ScanStore.new session generation) calls).published = some p) :
    ∃ earlier io later a, calls = earlier ++ .publish io :: later ∧
      (ScanStore.machine.run (ScanStore.new session generation) earlier).active = some a ∧
      PublishesInto a p ∧
      ∃ paths identities contributions, PublishedFrom a p paths identities contributions ∧
        (ScannerConvention paths identities → Unsaturated paths identities →
          p.AddsUp ∧ p.ListsHeaders ∧
            p.rootPageMetrics.allocatedBytes.lower =
              oneLinkBytes paths + identityBytes identities) := by
  obtain ⟨earlier, io, later, a, hcalls, ha, hinto⟩ :=
    ScanStore.published_by_call session generation calls hp
  obtain ⟨paths, identities, contributions, hfrom⟩ := hinto.publishedFrom
  exact ⟨earlier, io, later, a, hcalls, ha, hinto, paths, identities, contributions, hfrom,
    fun hscan hbounded =>
      ⟨hfrom.addsUp hscan hbounded, hfrom.listsHeaders hscan hbounded, hfrom.rootBytes hscan hbounded⟩⟩

theorem linked_scannerConvention : ScannerConvention linkedPaths linkedIdentities where
  directories := by decide +kernel
  files o ho hk := by
    have hall : ∀ o ∈ linkedPaths, o.kind ≠ .Directory → o.identity?.any (fun identity => decide
        ((identity.linkCount = some 1 ∧ o.metrics.allocatedBytes = o.snapshotBounds ∧
            o.metrics.reclaimableBytes = o.snapshotBounds ∧ ∀ i ∈ linkedIdentities, i.path ≠ o.path) ∨
          (identity.linkCount ≠ some 1 ∧ o.metrics.allocatedBytes = .exact 0 ∧
            o.metrics.reclaimableBytes = .exact 0 ∧
            linkedIdentities.filter (fun i => i.path = o.path) =
              [⟨o.path, identity.fileId, identity.linkCount, o.snapshotBounds⟩]))) = true := by
      decide +kernel
    obtain ⟨identity, hidentity, hchecked⟩ := (Option.any_eq_true _ _).mp (hall o ho hk)
    exact ⟨identity, hidentity, of_decide_eq_true hchecked⟩
  recorded := by decide +kernel

theorem linked_unsaturated : Unsaturated linkedPaths linkedIdentities :=
  ⟨by decide +kernel, by decide +kernel⟩

/-- The last call published what the calls before it recorded. -/
theorem earlier_of_last {calls earlier later : List StoreCall} {io io' : Io}
    (hno : ∀ io, .publish io ∉ calls)
    (h : calls ++ [.publish io] = earlier ++ .publish io' :: later) : earlier = calls := by
  rcases List.append_eq_append_iff.mp h with ⟨rest, rfl, hrest⟩ | ⟨rest, rfl, hrest⟩
  · cases rest with
    | nil => exact List.append_nil _
    | cons call rest =>
      have hlength := congrArg List.length hrest
      simp only [List.length_cons, List.length_nil, List.length_append] at hlength
      omega
  · cases rest with
    | nil => exact (List.append_nil _).symm
    | cons call rest =>
      obtain ⟨rfl, -⟩ := List.cons.inj hrest
      exact absurd (List.mem_append_right _ List.mem_cons_self) (hno io')

/-- Two files of 4096 bytes, and one of 8192 bytes that has a name in `b` and one below it. -/
theorem published_accounting_linkedScan :
    ∃ p, (ScanStore.machine.run (ScanStore.new ⟨0⟩ ⟨0⟩)
        (linkedScan ++ [.publish Io.none])).published = some p ∧
      p.AddsUp ∧ p.ListsHeaders ∧ p.rootPageMetrics.allocatedBytes.lower = 4096 + 4096 + 8192 := by
  have hrecorded : (ScanStore.machine.run (ScanStore.new ⟨0⟩ ⟨0⟩) linkedScan).active.all (fun a =>
      decide ((recordsOf a.pathRuns.intoRuns).Perm (linkedPaths.map Fact.path) ∧
        (recordsOf a.identityRuns.intoRuns).Perm (linkedIdentities.map Fact.identity))) = true := by
    decide +kernel
  have hno : ∀ io, .publish io ∉ linkedScan := by
    intro io hmem
    obtain ⟨o, -, ho⟩ := List.mem_map.mp hmem
    cases ho
  obtain ⟨p, hp, -⟩ := published_linkedScan
  obtain ⟨earlier, io, later, a, hcalls, ha, -, paths, identities, _, hfrom, haccounted⟩ :=
    published_accounting ⟨0⟩ ⟨0⟩ _ hp
  obtain rfl := earlier_of_last hno hcalls
  rw [ha] at hrecorded
  obtain ⟨hpaths, hidentities⟩ := of_decide_eq_true hrecorded
  obtain ⟨hpaths, hidentities⟩ := hfrom.decoded hpaths hidentities
  obtain ⟨hadds, hlists, hroot⟩ :=
    haccounted (linked_scannerConvention.of_perm hpaths hidentities)
      (linked_unsaturated.of_perm hpaths hidentities)
  refine ⟨p, hp, hadds, hlists, ?_⟩
  unfold oneLinkBytes at hroot
  rw [hroot, sumWhere_perm hpaths, identityBytes_perm hidentities]
  decide +kernel

/-- A file of 4096 bytes with one link, named `a`. -/
def pageFile : PathObservation := scannedFile [nameA] 7 1 4096

/-- The same file found again as `b`, where it was renamed to. -/
def pageFileRenamed : PathObservation := { pageFile with path := ⟨[nameB]⟩ }

/-- A file with one link is counted at both paths that it was found at. -/
theorem renamed_file_counted_twice :
    ScannerConvention [pageFile, pageFileRenamed] [] ∧ Unsaturated [pageFile, pageFileRenamed] [] ∧
      pageFile.identity? = pageFileRenamed.identity? ∧ pageFile.snapshotBounds = .exact 4096 ∧
      ∃ p, (ScanStore.machine.run (ScanStore.new ⟨0⟩ ⟨0⟩)
          [.appendObservationBatch Io.none [pageFile] [],
            .appendObservationBatch Io.none [pageFileRenamed] [],
            .publish Io.none]).published = some p ∧
        p.rootPageMetrics.allocatedBytes = .exact 8192 := by
  have hone (o : PathObservation) (ho : o ∈ [pageFile, pageFileRenamed]) :
      o = pageFile ∨ o = pageFileRenamed := by
    simpa only [List.mem_cons, List.not_mem_nil, or_false] using ho
  refine ⟨⟨?_, ?_, ?_⟩, ⟨by decide, by decide⟩, rfl, rfl, ?_⟩
  · intro o ho hkind
    rcases hone o ho with rfl | rfl <;> cases hkind
  · intro o ho _
    have hnone : ∀ i ∈ ([] : List IdentityObservation), i.path ≠ o.path := fun i hi => by cases hi
    rcases hone o ho with rfl | rfl
    · exact ⟨_, rfl, Or.inl ⟨rfl, rfl, rfl, hnone⟩⟩
    · exact ⟨_, rfl, Or.inl ⟨rfl, rfl, rfl, hnone⟩⟩
  · intro i hi
    cases hi
  have hjoined : (ScanStore.machine.run (ScanStore.new ⟨0⟩ ⟨0⟩)
      [.appendObservationBatch Io.none [pageFile] [],
        .appendObservationBatch Io.none [pageFileRenamed] []]).joined.any
      (fun j => decide (j.1.nextRunId.toNat + 1 < 2 ^ 64 ∧ SortedBy PageRecord.key j.2.1.insertedRecords ∧
        j.2.2.metrics.allocatedBytes = .exact 8192)) = true := by decide +kernel
  obtain ⟨⟨w, t, root⟩, hrun, hchecked⟩ := (Option.any_eq_true _ _).mp hjoined
  obtain ⟨hid, hsorted, hbytes⟩ := of_decide_eq_true hchecked
  obtain ⟨p, hp, -, hmetrics, -⟩ := published_of_joined ⟨0⟩ ⟨0⟩ _ hrun hid hsorted
  exact ⟨p, hp, by rw [hmetrics, hbytes]⟩

end Excise
