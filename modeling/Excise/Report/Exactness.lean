import Excise.Report.Agreement
import Excise.Store.DoubtIndex

/-!
# What an exact report promises

A doubt that a page shows about an entry is shown about every folder above it and about the root,
so a report without doubts about the root has none in its rows. The exception is a file or link
whose identity nothing recorded: only its own row says that its allocation is unknown.
-/

namespace Excise
set_option autoImplicit false

/-- Not known to be complete and bounded. -/
def InDoubt (coverage : Coverage) (m : SummaryMetrics) : Prop :=
  coverage = .Uncertain ∨ m.allocatedBytes.upper = none

instance (coverage : Coverage) (m : SummaryMetrics) : Decidable (InDoubt coverage m) :=
  inferInstanceAs (Decidable (_ ∨ _))

theorem inDoubt_of_about {d : Doubt} {a b : Coverage} {m m' : SummaryMetrics}
    (h : d.About a m) (hd : d ≠ .reclaimable) (hkeep : ∀ d : Doubt, d.About a m → d.About b m') :
    InDoubt b m' := by
  cases d with
  | coverage => exact Or.inl (hkeep .coverage h)
  | allocated => exact Or.inr (hkeep .allocated h)
  | reclaimable => exact absurd rfl hd

theorem canonicalNodeState_eq_uncertain {a : Coverage} {m : SummaryMetrics} :
    canonicalNodeState a m = .Uncertain ↔ ∃ d : Doubt, d.About a m := by
  unfold canonicalNodeState
  constructor
  · intro h
    split at h
    · rename_i hdoubt
      rcases hdoubt with hd | hd | hd
      · exact ⟨.coverage, hd⟩
      · exact ⟨.allocated, hd⟩
      · exact ⟨.reclaimable, hd⟩
    · cases h
  · rintro ⟨d, hd⟩
    refine if_pos ?_
    cases d with
    | coverage => exact Or.inl hd
    | allocated => exact Or.inr (Or.inl hd)
    | reclaimable => exact Or.inr (Or.inr hd)

theorem canonicalNodeState_of_inDoubt {a : Coverage} {m : SummaryMetrics} (h : InDoubt a m) :
    canonicalNodeState a m = .Uncertain := by
  unfold canonicalNodeState
  rcases h with h | h
  · exact if_pos (Or.inl h)
  · exact if_pos (Or.inr (Or.inl h))

theorem about_clear {d : Doubt} {a : Coverage} {m : SummaryMetrics} (h : d.About a m) :
    d.About a (clearUncertainPhysicalBounds m a) := by
  cases a with
  | Complete => exact h
  | Uncertain => exact Doubt.about_openUpper h

namespace StoredEntry
variable {e : StoredEntry} {d : Doubt}

theorem about_intoPageEntry (hk : e.observation.kind = .Directory)
    (hseen : e.directorySummarySeen = true) (hd : d.About e.coverage e.metrics) :
    d.About e.intoPageEntry.coverage e.intoPageEntry.metrics := by
  unfold intoPageEntry
  rw [shown_directory hk hseen]
  exact about_clear hd

/-- What a page shows in doubt is in doubt itself, or not covered. -/
theorem about_of_intoPageEntry
    (hseen : e.observation.kind = .Directory → e.directorySummarySeen = true)
    (hidentity : e.observation.kind = .Directory ∨ e.identity.isSome = true)
    (hd : d.About e.intoPageEntry.coverage e.intoPageEntry.metrics) :
    Doubt.coverage.About e.coverage e.metrics ∨ d.About e.coverage e.metrics := by
  have hshown : e.shown.2 = e.coverage ∧
      (e.shown.1 = e.metrics ∨
        e.shown.1 = { e.metrics with allocatedBytes := .exact 0, reclaimableBytes := .exact 0 }) := by
    by_cases hk : e.observation.kind = .Directory
    · rw [shown_directory hk (hseen hk)]
      exact ⟨rfl, Or.inl rfl⟩
    · have hsome := hidentity.resolve_left hk
      have hnone : e.identity.isNone = false := by
        rw [← Option.not_isSome, hsome]
        rfl
      unfold shown
      rw [if_neg hk, hnone, if_neg Bool.false_ne_true]
      split
      · exact ⟨rfl, Or.inr rfl⟩
      · exact ⟨rfl, Or.inl rfl⟩
  obtain ⟨hcoverage, hmetrics⟩ := hshown
  unfold intoPageEntry at hd
  rw [hcoverage] at hd
  cases hc : e.coverage with
  | Uncertain => exact Or.inl rfl
  | Complete =>
    refine Or.inr ?_
    rw [hc] at hd
    rcases hmetrics with heq | heq
    · rw [heq] at hd
      exact hd
    · rw [heq] at hd
      cases d <;> cases hd

end StoredEntry

/-! ## Doubts in the records -/

/-- The doubts in the records of a published generation. -/
structure RecordDoubts (p : PublishedGeneration) : Prop where
  up : ∀ e ∈ storedEntries p.childQueries.records, ∀ d : Doubt, d.About e.coverage e.metrics →
    ∀ f, e.path.startsWith f = true → f ≠ e.path →
      (∃ header, PageRecord.header f header ∈ p.childQueries.records ∧
        d.About header.coverage header.metrics) ∧
      (f ≠ .root → ∃ e' ∈ storedEntries p.childQueries.records, e'.path = f ∧
        e'.observation.kind = .Directory ∧ d.About e'.coverage e'.metrics)
  summarised : ∀ e ∈ storedEntries p.childQueries.records, e.observation.kind = .Directory →
    e.directorySummarySeen = true
  root : ∃ header, PageRecord.header .root header ∈ p.childQueries.records ∧
    p.rootPageMetrics = header.metrics ∧ p.rootPageCoverage = header.coverage

theorem PublishesInto.doubts {a : ActiveGeneration} {p : PublishedGeneration}
    (h : PublishesInto a p) : RecordDoubts p := by
  obtain ⟨reduced, hreduced, hrecords⟩ := h.records
  obtain ⟨paths, hpaths, hstream⟩ := reducedSummaries_ok hreduced.summaries
  obtain ⟨-, hsummaries⟩ := reduceSortedPathStream_ok hstream
  have hrise := reduceSortedPathStream_doubts hstream
  unfold childQueryRecords at hrecords
  obtain ⟨paths', hpaths', hrecords⟩ := bind_eq_ok hrecords
  obtain rfl : paths = paths' := Except.ok.inj (hpaths.symm.trans hpaths')
  obtain ⟨identities, -, hrecords⟩ := bind_eq_ok hrecords
  split at hrecords
  · cases hrecords
  rename_i result hresult
  cases hrecords
  obtain ⟨t, ht, hmeta⟩ := bind_eq_ok hresult
  split at hmeta
  · cases hmeta
  rename_i root hroot
  obtain ⟨hq, hmetadata⟩ := Prod.mk.inj (Except.ok.inj hmeta)
  obtain ⟨hmetrics, hcoverage⟩ := PageIndexMetadata.mk.inj hmetadata
  obtain ⟨hup, hall⟩ := PageIndex.build_doubts ht hrise hsummaries
  have hstored : (storedEntries t.queryRecords).Perm t.entries :=
    perm_storedEntries ht
  have hheader : ∀ f header, t.header? f = some header →
      PageRecord.header f header ∈ t.queryRecords := fun f header hf =>
    (perm_queryRecords t).mem_iff.mpr
      (List.mem_append_left _ (List.mem_map_of_mem (PageIndex.mem_headers hf)))
  refine ⟨?_, ?_, ?_⟩ <;> rw [← hq]
  · intro e he d hd f hf hne
    obtain ⟨⟨header, hmem, hhd⟩, hfolder⟩ := hup e.path d ⟨e, hstored.mem_iff.mp he, rfl, hd⟩ f hf hne
    refine ⟨⟨header, hheader f header hmem, hhd⟩, fun hfr => ?_⟩
    obtain ⟨e', he', hrest⟩ := hfolder hfr
    exact ⟨e', hstored.mem_iff.mpr he', hrest⟩
  · exact fun e he => hall e (hstored.mem_iff.mp he)
  · exact ⟨root, hheader _ root hroot, hmetrics.symm, hcoverage.symm⟩

/-! ## Doubts on the pages -/

/-- An identity was recorded for the path, in its snapshot or by an identity observation. -/
def IdentityRecorded (p : PublishedGeneration) (path : RelativePath) : Prop :=
  ∃ e ∈ storedEntries p.childQueries.records, e.path = path ∧ e.identity.isSome = true

section Pages
variable {p : PublishedGeneration} {paths : List PathObservation} {x : ScanPageEntry} {d : Doubt}

theorem stored_of_listed (h : Indexes p.childQueries.records paths) (hx : Listed p x) :
    ∃ e ∈ storedEntries p.childQueries.records, x = e.intoPageEntry := by
  obtain ⟨e, he, hxe⟩ := List.mem_map.mp ((listed_iff h).mp hx)
  exact ⟨e, he, hxe.symm⟩

theorem listed_of_stored (h : Indexes p.childQueries.records paths) {e : StoredEntry}
    (he : e ∈ storedEntries p.childQueries.records) : Listed p e.intoPageEntry :=
  (listed_iff h).mpr (List.mem_map_of_mem he)

/-- A doubt shown about an entry with a known identity is in its record, perhaps as missing
coverage. -/
theorem stored_doubt (h : Indexes p.childQueries.records paths) (hdoubts : RecordDoubts p)
    (hx : Listed p x) (hidentity : x.kind = .Directory ∨ IdentityRecorded p x.path)
    (hd : d.About x.coverage x.metrics) :
    ∃ e ∈ storedEntries p.childQueries.records, e.path = x.path ∧
      (Doubt.coverage.About e.coverage e.metrics ∨ d.About e.coverage e.metrics) := by
  obtain ⟨e, he, rfl⟩ := stored_of_listed h hx
  refine ⟨e, he, rfl, StoredEntry.about_of_intoPageEntry (hdoubts.summarised e he) ?_ hd⟩
  rcases hidentity with hk | ⟨e', he', hpath, hsome⟩
  · exact Or.inl hk
  · obtain rfl := List.inj_on_of_nodup_map h.nodup_stored he he' hpath.symm
    exact Or.inr hsome

theorem page_header (h : Indexes p.childQueries.records paths) {folder : RelativePath}
    {header : StoredHeader}
    (hheader : PageRecord.header folder header ∈ p.childQueries.records)
    {after : Option PageCursor} {limit : Nat} {page : ScanPage}
    (hok : p.folderPages folder after limit = .ok page) :
    page.folderMetrics = clearUncertainPhysicalBounds header.metrics header.coverage ∧
      page.folderCoverage = header.coverage := by
  unfold PublishedGeneration.folderPages PublishedGeneration.page at hok
  obtain ⟨u, -, hok⟩ := bind_eq_ok hok
  dsimp only at hok
  rw [readHeaderFromRun_eq h.sorted hheader] at hok
  obtain ⟨listed, -, rfl⟩ := map_eq_ok hok
  exact ⟨rfl, rfl⟩

theorem about_shownRoot (hd : d.About p.rootPageCoverage p.rootPageMetrics) :
    d.About p.rootPageCoverage p.shownRootMetrics := by
  unfold PublishedGeneration.shownRootMetrics
  refine about_clear ?_
  split
  · cases d with
    | coverage => exact hd
    | allocated => rfl
    | reclaimable => rfl
  · exact hd

/-- A doubt about an entry is a doubt about the root. -/
theorem root_doubt (h : Indexes p.childQueries.records paths) (hdoubts : RecordDoubts p)
    {e : StoredEntry} (he : e ∈ storedEntries p.childQueries.records)
    (hd : d.About e.coverage e.metrics) : d.About p.rootPageCoverage p.rootPageMetrics := by
  have hne : RelativePath.root ≠ e.path := by
    intro heq
    exact path_ne_root_of_visited h (List.mem_map_of_mem he) heq.symm
  obtain ⟨⟨header, hheader, hhd⟩, -⟩ := hdoubts.up e he d hd .root e.path.startsWith_root hne
  obtain ⟨root, hroot, hmetrics, hcoverage⟩ := hdoubts.root
  have hsame : some header = some root :=
    (readHeaderFromRun_eq h.sorted hheader).symm.trans (readHeaderFromRun_eq h.sorted hroot)
  rw [hmetrics, hcoverage, ← Option.some.inj hsame]
  exact hhd

/-- What the pages say above an entry in doubt. -/
structure DoubtAbove (p : PublishedGeneration) (path : RelativePath) : Prop where
  folders : ∀ f, path.startsWith f = true → f ≠ path →
    ListedFolder p f ∧
    (∀ after limit page, p.folderPages f after limit = .ok page →
      InDoubt page.folderCoverage page.folderMetrics) ∧
    (f ≠ .root → ∃ y, Listed p y ∧ y.path = f ∧ InDoubt y.coverage y.metrics)
  root : ∀ request page, p.page request = .ok page → InDoubt page.rootCoverage page.rootMetrics

theorem doubtAbove_of_stored (h : Indexes p.childQueries.records paths) (hdoubts : RecordDoubts p)
    {e : StoredEntry} (he : e ∈ storedEntries p.childQueries.records)
    (hd : d.About e.coverage e.metrics) (hkind : d ≠ .reclaimable) : DoubtAbove p e.path := by
  constructor
  · intro f hf hne
    obtain ⟨⟨header, hheader, hhd⟩, hfolder⟩ := hdoubts.up e he d hd f hf hne
    refine ⟨listedFolder_of_isFolder h ?_, ?_, ?_⟩
    · by_cases hroot : f = .root
      · exact Or.inl hroot
      · obtain ⟨e', he', hpath, hk, -⟩ := hfolder hroot
        obtain ⟨g, hrecord⟩ := mem_storedEntries.mp he'
        exact Or.inr ⟨e'.observation, h.mem_paths hrecord, hk, hpath⟩
    · intro after limit page hok
      obtain ⟨hmetrics, hcoverage⟩ := page_header h hheader hok
      rw [hmetrics, hcoverage]
      exact inDoubt_of_about hhd hkind fun _ => about_clear
    · intro hroot
      obtain ⟨e', he', rfl, hk, hd'⟩ := hfolder hroot
      exact ⟨_, listed_of_stored h he', rfl, inDoubt_of_about hd' hkind fun _ =>
        StoredEntry.about_intoPageEntry hk (hdoubts.summarised e' he' hk)⟩
  · intro request page hok
    obtain ⟨hmetrics, hcoverage⟩ := page_root hok
    rw [hmetrics, hcoverage]
    exact inDoubt_of_about (root_doubt h hdoubts he hd) hkind fun _ => about_shownRoot

theorem doubtAbove_of_listed (h : Indexes p.childQueries.records paths) (hdoubts : RecordDoubts p)
    (hx : Listed p x) (hidentity : x.kind = .Directory ∨ IdentityRecorded p x.path)
    (hd : InDoubt x.coverage x.metrics) : DoubtAbove p x.path := by
  obtain ⟨d, hkind, hd⟩ : ∃ d : Doubt, d ≠ .reclaimable ∧ d.About x.coverage x.metrics := by
    rcases hd with hd | hd
    · exact ⟨.coverage, Doubt.noConfusion, hd⟩
    · exact ⟨.allocated, Doubt.noConfusion, hd⟩
  obtain ⟨e, he, hpath, hd | hd⟩ := stored_doubt h hdoubts hx hidentity hd
  · rw [← hpath]
    exact doubtAbove_of_stored h hdoubts he hd Doubt.noConfusion
  · rw [← hpath]
    exact doubtAbove_of_stored h hdoubts he hd hkind

/-- No doubt about the root, no doubt in the rows. -/
theorem complete_rows (h : Indexes p.childQueries.records paths) (hdoubts : RecordDoubts p)
    (hroot : canonicalNodeState p.rootPageCoverage p.rootPageMetrics ≠ .Uncertain)
    {rootIdentity : Option NativeIdentity} {row : ScanReportEntry}
    (hrow : row ∈ p.streamingCanonicalScanEntries rootIdentity)
    (hidentity : row.path = .root ∨ row.kind = .Directory ∨ IdentityRecorded p row.path) :
    row.state = .Complete := by
  have hstate : ∀ a m, canonicalNodeState a m ≠ .Uncertain → canonicalNodeState a m = .Complete := by
    intro a m hne
    unfold canonicalNodeState at hne ⊢
    split at hne
    · exact absurd rfl hne
    · exact if_neg ‹_›
  rcases List.mem_cons.mp hrow with rfl | hrow
  · exact hstate _ _ hroot
  · obtain ⟨x, hx, rfl⟩ := List.mem_map.mp hrow
    refine hstate x.coverage x.metrics fun hdoubt => hroot ?_
    obtain ⟨d, hd⟩ := canonicalNodeState_eq_uncertain.mp hdoubt
    have hknown : x.kind = .Directory ∨ IdentityRecorded p x.path := by
      rcases hidentity with hpath | hk | hrecorded
      · exact absurd hpath (path_ne_root_of_visited h hx)
      · refine Or.inl ?_
        cases hxk : x.kind with
        | Directory => rfl
        | File =>
          have hk : canonicalNodeKind x.kind = .Directory := hk
          rw [hxk] at hk
          cases hk
        | Link =>
          have hk : canonicalNodeKind x.kind = .Directory := hk
          rw [hxk] at hk
          cases hk
      · exact Or.inr hrecorded
    obtain ⟨e, he, -, hd | hd⟩ := stored_doubt h hdoubts ((listed_iff h).mpr hx) hknown hd
    · exact canonicalNodeState_eq_uncertain.mpr ⟨_, root_doubt h hdoubts he hd⟩
    · exact canonicalNodeState_eq_uncertain.mpr ⟨_, root_doubt h hdoubts he hd⟩

end Pages

/-- A file of one byte, read without its identity. -/
def unidentifiedFile : PathObservation :=
  ⟨⟨[⟨[97], valid_a⟩]⟩, .File, .leaf 1 (.exact 1) (.exact 1), .Complete, none⟩

/-! ## The result -/

/-- In every published generation of every session, a doubt shown about a directory, or about a
file or link whose identity was recorded, is shown about every folder above it and the root; and
in an exact report the rows of the root and of these entries are complete. -/
theorem doubts_reach_the_root (session : ScanSessionId) (generation : ScanGeneration)
    (calls : List StoreCall) (p : PublishedGeneration)
    (hp : (ScanStore.machine.run (ScanStore.new session generation) calls).published = some p) :
    (∀ x, Listed p x → (x.kind = .Directory ∨ IdentityRecorded p x.path) →
      InDoubt x.coverage x.metrics → DoubtAbove p x.path) ∧
    ∀ unreadableEntries cancelled rootIdentity,
      p.canonicalScanReportState unreadableEntries cancelled = .Exact →
      ∀ row ∈ p.streamingCanonicalScanEntries rootIdentity,
        (row.path = .root ∨ row.kind = .Directory ∨ IdentityRecorded p row.path) →
        row.state = .Complete := by
  obtain ⟨a, paths, hinto, -, hindex⟩ := ScanStore.published_indexes session generation calls hp
  have hdoubts := hinto.doubts
  refine ⟨fun x hx hidentity hd => doubtAbove_of_listed hindex hdoubts hx hidentity hd, ?_⟩
  intro unreadableEntries cancelled rootIdentity hexact row hrow hidentity
  refine complete_rows hindex hdoubts (fun hroot => ?_) hrow hidentity
  unfold PublishedGeneration.canonicalScanReportState at hexact
  rw [if_pos (Or.inr (Or.inr hroot))] at hexact
  split at hexact <;> cases hexact

/-- The file that could not be read completely lies below the folder `b`. -/
theorem doubts_reach_the_root_nestedFile :
    ∃ p x, (ScanStore.machine.run (ScanStore.new ⟨0⟩ ⟨0⟩)
        (linkedScan ++ [.publish Io.none])).published = some p ∧
      Listed p x ∧ x.path = halfReadFile.path ∧ InDoubt x.coverage x.metrics ∧
      (∃ y, Listed p y ∧ y.path = ⟨[nameB]⟩ ∧ InDoubt y.coverage y.metrics) ∧
      ∀ request page, p.page request = .ok page → InDoubt page.rootCoverage page.rootMetrics := by
  obtain ⟨p, hp, hrecords, -⟩ := published_linkedScan
  have hstored : ∃ e ∈ storedEntries linkedIndex.insertedRecords, e.path = halfReadFile.path ∧
      e.identity.isSome = true ∧ InDoubt e.intoPageEntry.coverage e.intoPageEntry.metrics := by
    decide +kernel
  obtain ⟨e, he, hpath, hidentity, hdoubt⟩ := hstored
  rw [← hrecords] at he
  obtain ⟨-, paths, -, -, hindex⟩ := ScanStore.published_indexes ⟨0⟩ ⟨0⟩ _ hp
  have hlisted := listed_of_stored hindex he
  have habove : DoubtAbove p e.path :=
    (doubts_reach_the_root ⟨0⟩ ⟨0⟩ _ p hp).1 _ hlisted (Or.inr ⟨e, he, rfl, hidentity⟩) hdoubt
  have hfolder := habove.folders ⟨[nameB]⟩ (by rw [hpath]; decide) (by rw [hpath]; decide)
  exact ⟨p, e.intoPageEntry, hp, hlisted, hpath, hdoubt, hfolder.2.2 (by decide), habove.root⟩

/-- The upper bound that is unknown on the row of the file is known at the root, and the report
is exact with an uncertain row. -/
theorem unidentified_file_alone_in_doubt :
    ∃ p x, (ScanStore.machine.run (ScanStore.new ⟨0⟩ ⟨0⟩)
        [.appendObservationBatch Io.none [unidentifiedFile] [], .publish Io.none]).published =
          some p ∧
      Listed p x ∧ InDoubt x.coverage x.metrics ∧
      ¬InDoubt p.rootPageCoverage p.rootPageMetrics ∧
      p.canonicalScanReportState 0 false = .Exact ∧
      canonicalScanEntry x ∈ p.streamingCanonicalScanEntries none ∧
      (canonicalScanEntry x).state = .Uncertain := by
  have hjoined : (ScanStore.machine.run (ScanStore.new ⟨0⟩ ⟨0⟩)
      [.appendObservationBatch Io.none [unidentifiedFile] []]).joined.any
      (fun j => decide (j.1.nextRunId.toNat + 1 < 2 ^ 64 ∧ SortedBy PageRecord.key j.2.1.insertedRecords ∧
        j.1.active.unrecordedPathCount = 0 ∧
        canonicalNodeState j.2.2.coverage j.2.2.metrics = .Complete ∧
        ∃ e ∈ storedEntries j.2.1.insertedRecords,
          InDoubt e.intoPageEntry.coverage e.intoPageEntry.metrics)) = true := by decide +kernel
  obtain ⟨⟨w, t, root⟩, hrun, hchecked⟩ := (Option.any_eq_true _ _).mp hjoined
  obtain ⟨hid, hsorted, hcount, hroot, e, he, hdoubt⟩ := of_decide_eq_true hchecked
  obtain ⟨p, hp, hrecords, hmetrics, hcoverage, hunrecorded, -⟩ :=
    published_of_joined ⟨0⟩ ⟨0⟩ _ hrun hid hsorted
  obtain ⟨-, paths, -, -, hindex⟩ := ScanStore.published_indexes ⟨0⟩ ⟨0⟩ _ hp
  rw [← hrecords] at he
  have hlisted := listed_of_stored hindex he
  have hcomplete : canonicalNodeState p.rootPageCoverage p.rootPageMetrics = .Complete := by
    rw [hmetrics, hcoverage]
    exact hroot
  refine ⟨p, e.intoPageEntry, hp, hlisted, hdoubt, fun hin => ?_, ?_,
    List.mem_cons_of_mem _ (List.mem_map_of_mem ((listed_iff hindex).mp hlisted)), ?_⟩
  · rw [canonicalNodeState_of_inDoubt hin] at hcomplete
    cases hcomplete
  · unfold PublishedGeneration.canonicalScanReportState
    rw [if_neg Bool.false_ne_true, hunrecorded, hcount, hcomplete]
    rfl
  · exact canonicalNodeState_of_inDoubt hdoubt

end Excise
