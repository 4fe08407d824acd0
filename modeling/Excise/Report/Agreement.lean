import Excise.Lib.Keyed
import Excise.Report.Canonical

/-!
# The report and the map

Every entry row of the report is the entry some page lists, and every listed entry has its row.
The root row is what the pages say of the root when those clear no bound of it.
-/

namespace Excise
set_option autoImplicit false

/-! ## What the pages list -/

section Listing
variable {p : PublishedGeneration} {paths : List PathObservation} {folder : RelativePath}
  {x : ScanPageEntry}

theorem lists_iff (h : Indexes p.childQueries.records paths) (hfolder : IsFolder paths folder) :
    p.Lists folder x ↔ x ∈ children p.childQueries.records folder := by
  constructor
  · rintro ⟨after, limit, page, hok, hx⟩
    obtain ⟨header, hpage⟩ := PublishedGeneration.folderPages_eq h hfolder
    rw [hpage after limit (PublishedGeneration.folderPages_valid hok)] at hok
    cases hok
    exact (Paging.mem_rest.mp (List.mem_of_mem_take hx)).1
  · intro hx
    have hsorted := sorted_children h.sorted folder
    have hreads := reads_folderPages h hfolder
    have hstart : Paging.IsCursor PageCursor.fromEntry (children p.childQueries.records folder)
        none := by simp [Paging.IsCursor]
    obtain ⟨pages, hwalk⟩ := @Paging.walk_exists _ _ _ _ _ _ _ _ _ _ _ _ (fun _ => 1) hsorted
      hreads (fun _ => ⟨Nat.one_pos, by decide⟩) (fun _ => Nat.one_pos) 0 hstart
    obtain ⟨hlists, -⟩ := hwalk.lists hsorted hreads (fun _ => Nat.one_pos) hstart
    rw [Paging.rest_none] at hlists
    rw [← hlists] at hx
    obtain ⟨page, hpage, hx⟩ := List.mem_flatMap.mp hx
    obtain ⟨after, limit, hok⟩ := hwalk.read_of_mem hpage
    exact ⟨after, limit, page, hok, hx⟩

/-- A recorded observation is the only one at its path. -/
theorem Indexes.eq_of_path (h : Indexes p.childQueries.records paths) {o o' : PathObservation}
    (ho : o ∈ paths) (ho' : o' ∈ paths) (heq : o.path = o'.path) : o = o' :=
  List.inj_on_of_nodup_map h.tree.sorted.nodup_keys ho ho' heq

theorem Indexes.folder_of_path (h : Indexes p.childQueries.records paths) {o : PathObservation}
    (ho : o ∈ paths) : ∃ d, o.path.isDirectChildOf d = true ∧ IsFolder paths d :=
  h.tree.parents o ho

theorem isFolder_of_listedFolder (h : Indexes p.childQueries.records paths)
    (hlisted : ListedFolder p folder) : IsFolder paths folder := by
  induction hlisted with
  | root => exact Or.inl rfl
  | child _ hx hkind ih =>
    obtain ⟨e, he, rfl⟩ := mem_children.mp ((lists_iff h ih).mp hx)
    exact Or.inr ⟨e.observation, h.mem_paths he, hkind, rfl⟩

theorem Indexes.lists_path (h : Indexes p.childQueries.records paths)
    (hfolder : IsFolder paths folder) {o : PathObservation} (ho : o ∈ paths)
    (hchild : o.path.isDirectChildOf folder = true) :
    ∃ e : StoredEntry, e.observation = o ∧ p.Lists folder e.intoPageEntry := by
  obtain ⟨x, hx, hpath⟩ := List.mem_map.mp ((h.children_paths folder o.path).mpr ⟨hchild, o, ho, rfl⟩)
  obtain ⟨e, he, rfl⟩ := mem_children.mp hx
  exact ⟨e, h.eq_of_path (h.mem_paths he) ho hpath, (lists_iff h hfolder).mpr hx⟩

theorem listedFolder_of_isFolder (h : Indexes p.childQueries.records paths)
    (hfolder : IsFolder paths folder) : ListedFolder p folder := by
  -- a folder is deeper than the one that holds it
  induction hn : folder.depth using Nat.strong_induction_on generalizing folder with
  | _ n ih =>
    rcases hfolder with rfl | ⟨o, ho, hkind, rfl⟩
    · exact .root
    · obtain ⟨d, hchild, hd⟩ := h.folder_of_path ho
      have hdepth : o.path.depth = d.depth + 1 := by
        rw [RelativePath.isDirectChildOf, Bool.and_eq_true] at hchild
        exact of_decide_eq_true hchild.1
      have hreached := ih d.depth (by omega) hd rfl
      obtain ⟨e, rfl, hlists⟩ := h.lists_path hd ho hchild
      exact .child hreached hlists hkind

/-- The entries that pages list are those the report visits. -/
theorem listed_iff (h : Indexes p.childQueries.records paths) :
    Listed p x ↔ x ∈ visitChildQueryPageEntries p.childQueries.records := by
  unfold visitChildQueryPageEntries
  rw [List.mem_map]
  constructor
  · rintro ⟨folder, hreached, hlists⟩
    obtain ⟨e, he, rfl⟩ := mem_children.mp
      ((lists_iff h (isFolder_of_listedFolder h hreached)).mp hlists)
    exact ⟨e, mem_storedEntries.mpr ⟨folder, he⟩, rfl⟩
  · rintro ⟨e, he, rfl⟩
    obtain ⟨folder, he⟩ := mem_storedEntries.mp he
    obtain ⟨d, hchild, hd⟩ := h.folder_of_path (h.mem_paths he)
    have hparent := h.parents folder e he
    rw [RelativePath.relativeParent_eq_some.mpr hchild] at hparent
    obtain rfl := Option.some.inj hparent
    exact ⟨d, listedFolder_of_isFolder h hd,
      (lists_iff h hd).mpr (mem_children.mpr ⟨e, he, rfl⟩)⟩

end Listing

/-! ## The rows -/

theorem shows_serializeCanonicalEntry (path : RelativePath) (kind : NodeKind)
    (identity : Option NativeIdentity) (metrics : SummaryMetrics) (coverage : Coverage) :
    (serializeCanonicalEntry path kind identity metrics coverage).Shows metrics coverage :=
  ⟨rfl, rfl, rfl, rfl⟩

theorem table_eq_map (p : PublishedGeneration) (rootIdentity : Option NativeIdentity) :
    p.writeCanonicalScanReportTable =
      (p.streamingCanonicalScanEntries rootIdentity).map fun row =>
        ⟨row.state, displayBounds row.allocatedBytes, displayBounds row.reclaimableBytes,
          row.apparentBytes, row.kind, row.path⟩ := by
  unfold PublishedGeneration.streamingCanonicalScanEntries
  rw [List.map_cons, List.map_map]
  rfl

section Rows
variable {p : PublishedGeneration} {paths : List PathObservation}

theorem path_ne_root_of_visited (h : Indexes p.childQueries.records paths) {x : ScanPageEntry}
    (hx : x ∈ visitChildQueryPageEntries p.childQueries.records) : x.path ≠ .root := by
  obtain ⟨e, he, rfl⟩ := List.mem_map.mp hx
  obtain ⟨folder, he⟩ := mem_storedEntries.mp he
  have hparent := h.parents folder e he
  show e.path ≠ .root
  intro hroot
  rw [hroot] at hparent
  cases hparent

theorem nodup_rows (h : Indexes p.childQueries.records paths)
    (rootIdentity : Option NativeIdentity) :
    ((p.streamingCanonicalScanEntries rootIdentity).map ScanReportEntry.path).Nodup := by
  unfold PublishedGeneration.streamingCanonicalScanEntries
  rw [List.map_cons, List.map_map, List.nodup_cons]
  constructor
  · intro hmem
    obtain ⟨x, hx, hpath⟩ := List.mem_map.mp hmem
    exact path_ne_root_of_visited h hx hpath
  · have hstored := h.nodup_stored
    unfold visitChildQueryPageEntries
    rw [List.map_map]
    exact hstored

theorem rows_of_path (h : Indexes p.childQueries.records paths)
    (rootIdentity : Option NativeIdentity) {row : ScanReportEntry}
    (hrow : row ∈ p.streamingCanonicalScanEntries rootIdentity) :
    (p.streamingCanonicalScanEntries rootIdentity).filter (fun r => r.path = row.path) = [row] :=
  Keyed.filter_key_eq_singleton (nodup_rows h rootIdentity) hrow

theorem entry_row (h : Indexes p.childQueries.records paths)
    (rootIdentity : Option NativeIdentity) {x : ScanPageEntry} (hx : Listed p x) :
    ∃ row, (p.streamingCanonicalScanEntries rootIdentity).filter (fun r => r.path = x.path) = [row] ∧
      row.Shows x.metrics x.coverage := by
  have hmem : canonicalScanEntry x ∈ p.streamingCanonicalScanEntries rootIdentity :=
    List.mem_cons_of_mem _ (List.mem_map_of_mem ((listed_iff h).mp hx))
  exact ⟨_, rows_of_path h rootIdentity hmem, shows_serializeCanonicalEntry ..⟩

theorem row_listed (h : Indexes p.childQueries.records paths)
    (rootIdentity : Option NativeIdentity) {row : ScanReportEntry}
    (hrow : row ∈ p.streamingCanonicalScanEntries rootIdentity) :
    row.path = .root ∨ ∃ x, Listed p x ∧ x.path = row.path := by
  rcases List.mem_cons.mp hrow with rfl | hrow
  · exact Or.inl rfl
  · obtain ⟨x, hx, rfl⟩ := List.mem_map.mp hrow
    exact Or.inr ⟨x, (listed_iff h).mpr hx, rfl⟩

/-! ## The root -/

/-- The pages clear no upper bound of the root: nothing asks for it, or none is known. -/
def PublishedGeneration.RootShownAsStored (p : PublishedGeneration) : Prop :=
  (p.unrecordedPathCount = 0 ∧ p.rootPageCoverage = .Complete) ∨
    (p.rootPageMetrics.allocatedBytes.upper = none ∧ p.rootPageMetrics.reclaimableBytes.upper = none)

instance (p : PublishedGeneration) : Decidable p.RootShownAsStored :=
  inferInstanceAs (Decidable (_ ∨ _))

theorem openUpper_eq_self_iff {m : SummaryMetrics} :
    m.openUpper = m ↔ m.allocatedBytes.upper = none ∧ m.reclaimableBytes.upper = none := by
  obtain ⟨apparent, ⟨lower, upper⟩, ⟨lower', upper'⟩, descendants⟩ := m
  simp [SummaryMetrics.openUpper, eq_comm]

theorem openUpper_openUpper (m : SummaryMetrics) : m.openUpper.openUpper = m.openUpper := rfl

/-- What every page says of the root. -/
def PublishedGeneration.shownRootMetrics (p : PublishedGeneration) : SummaryMetrics :=
  clearUncertainPhysicalBounds
    (if p.unrecordedPathCount > 0 then p.rootPageMetrics.openUpper else p.rootPageMetrics)
    p.rootPageCoverage

theorem shownRootMetrics_eq_iff :
    p.shownRootMetrics = p.rootPageMetrics ↔ p.RootShownAsStored := by
  unfold PublishedGeneration.RootShownAsStored
  rw [← openUpper_eq_self_iff]
  unfold PublishedGeneration.shownRootMetrics
  by_cases hcount : p.unrecordedPathCount = 0
  · rw [if_neg (by omega)]
    cases p.rootPageCoverage with
    | Complete => exact iff_of_true rfl (Or.inl ⟨hcount, rfl⟩)
    | Uncertain =>
      show p.rootPageMetrics.openUpper = p.rootPageMetrics ↔ _
      simp
  · rw [if_pos (by omega)]
    have hopen : clearUncertainPhysicalBounds p.rootPageMetrics.openUpper p.rootPageCoverage =
        p.rootPageMetrics.openUpper := by
      cases p.rootPageCoverage with
      | Complete => rfl
      | Uncertain => exact openUpper_openUpper _
    rw [hopen]
    exact ⟨Or.inr, fun hor => hor.resolve_left fun hnone => hcount hnone.1⟩

theorem page_root {request : PageRequest} {page : ScanPage} (hok : p.page request = .ok page) :
    page.rootMetrics = p.shownRootMetrics ∧ page.rootCoverage = p.rootPageCoverage := by
  unfold PublishedGeneration.page at hok
  obtain ⟨u, -, hok⟩ := bind_eq_ok hok
  split at hok
  · cases hok
  · obtain ⟨listed, -, rfl⟩ := map_eq_ok hok
    exact ⟨rfl, rfl⟩

theorem page_exists (h : Indexes p.childQueries.records paths) :
    ∃ request page, p.page request = .ok page := by
  have hreads := reads_folderPages h (Or.inl rfl : IsFolder paths .root)
  obtain ⟨page, hpage⟩ := hreads.total none 1 (by simp [Paging.IsCursor]) ⟨Nat.one_pos, by decide⟩
  exact ⟨⟨.root, none, 1⟩, page, hpage⟩

/-- Clearing a bound of the root changes what the pages show of it. -/
theorem shows_root_iff {rootIdentity : Option NativeIdentity} :
    (p.canonicalRootEntry rootIdentity).Shows p.shownRootMetrics p.rootPageCoverage ↔
      p.RootShownAsStored := by
  rw [← shownRootMetrics_eq_iff]
  constructor
  · intro hshows
    have hsame : p.shownRootMetrics.descendants = p.rootPageMetrics.descendants := by
      unfold PublishedGeneration.shownRootMetrics
      cases p.rootPageCoverage <;> split <;> rfl
    have happarent := hshows.apparent
    have hallocated := hshows.allocated
    have hreclaimable := hshows.reclaimable
    show p.shownRootMetrics = p.rootPageMetrics
    cases hshown : p.shownRootMetrics with
    | mk apparent allocated reclaimable descendants =>
      rw [hshown] at hsame happarent hallocated hreclaimable
      cases hstored : p.rootPageMetrics with
      | mk apparent' allocated' reclaimable' descendants' =>
        unfold PublishedGeneration.canonicalRootEntry serializeCanonicalEntry at happarent hallocated hreclaimable
        rw [hstored] at hsame happarent hallocated hreclaimable
        rw [SummaryMetrics.mk.injEq]
        exact ⟨happarent.symm, hallocated.symm, hreclaimable.symm, hsame⟩
  · intro heq
    rw [heq]
    exact shows_serializeCanonicalEntry ..

theorem root_row (h : Indexes p.childQueries.records paths)
    (rootIdentity : Option NativeIdentity) :
    (∃ row, (p.streamingCanonicalScanEntries rootIdentity).filter (fun r => r.path = .root) = [row] ∧
      ∀ request page, p.page request = .ok page →
        row.Shows page.rootMetrics page.rootCoverage) ↔ p.RootShownAsStored := by
  have hone := rows_of_path h rootIdentity
    (show p.canonicalRootEntry rootIdentity ∈ _ from List.mem_cons_self)
  rw [← @shows_root_iff p rootIdentity]
  constructor
  · rintro ⟨row, hrow, hshows⟩
    have hsame : [p.canonicalRootEntry rootIdentity] = [row] := hone.symm.trans hrow
    obtain rfl := (List.cons.inj hsame).1
    obtain ⟨request, page, hok⟩ := page_exists h
    obtain ⟨hmetrics, hcoverage⟩ := page_root hok
    have hpage := hshows request page hok
    rwa [hmetrics, hcoverage] at hpage
  · intro hshows
    refine ⟨_, hone, fun request page hok => ?_⟩
    obtain ⟨hmetrics, hcoverage⟩ := page_root hok
    rwa [hmetrics, hcoverage]

end Rows

/-- In every published generation of every session, the report agrees with the pages exactly when
the pages clear no upper bound of the root. -/
theorem report_agrees_iff (session : ScanSessionId) (generation : ScanGeneration)
    (calls : List StoreCall) (p : PublishedGeneration) (rootIdentity : Option NativeIdentity)
    (hp : (ScanStore.machine.run (ScanStore.new session generation) calls).published = some p) :
    ReportAgrees p rootIdentity ↔ p.RootShownAsStored := by
  obtain ⟨-, paths, -, -, hindex⟩ := ScanStore.published_indexes session generation calls hp
  rw [← root_row hindex rootIdentity]
  constructor
  · exact ReportAgrees.root
  · intro hroot
    exact ⟨hroot, fun x hx => entry_row hindex rootIdentity hx,
      fun row hrow => row_listed hindex rootIdentity hrow, table_eq_map p rootIdentity⟩

/-- The scanned tree: the rows of the half read file, of the folder that holds it and of the root
are uncertain. -/
theorem report_agrees_iff_linkedScan :
    ∃ p, (ScanStore.machine.run (ScanStore.new ⟨0⟩ ⟨0⟩)
        (linkedScan ++ [.publish Io.none])).published = some p ∧
      ReportAgrees p none ∧
      (p.streamingCanonicalScanEntries none).map (fun row => (row.path, row.kind, row.state)) =
        [(.root, .Root, .Uncertain), (⟨[nameB]⟩, .Directory, .Uncertain),
          (⟨[nameA]⟩, .File, .Complete), (⟨[nameC]⟩, .File, .Complete),
          (⟨[nameB, nameA]⟩, .File, .Complete), (⟨[nameB, nameB]⟩, .File, .Uncertain),
          (⟨[nameB, nameC]⟩, .Directory, .Complete),
          (⟨[nameB, nameC, nameA]⟩, .File, .Complete)] := by
  obtain ⟨p, hp, hrecords, hmetrics, hcoverage, -⟩ := published_linkedScan
  have hstored : p.RootShownAsStored := by
    refine Or.inr ?_
    rw [hmetrics]
    exact ⟨rfl, rfl⟩
  refine ⟨p, hp, (report_agrees_iff ⟨0⟩ ⟨0⟩ _ p none hp).mpr hstored, ?_⟩
  unfold PublishedGeneration.streamingCanonicalScanEntries PublishedGeneration.canonicalRootEntry
  rw [hrecords, hmetrics, hcoverage]
  decide +kernel

/-- One path was left unrecorded: the pages show an unknown upper bound of the root, the report
row an exact one. -/
theorem unrecorded_root_row_differs :
    ∃ p, (ScanStore.machine.run (ScanStore.new ⟨0⟩ ⟨0⟩)
      [.recordUnrecordedPaths 1, .publish Io.none]).published = some p ∧ ¬ReportAgrees p none := by
  have hroot : (ScanStore.machine.run (ScanStore.new ⟨0⟩ ⟨0⟩)
      [.recordUnrecordedPaths 1, .publish Io.none]).published.any
      (fun p => !decide p.RootShownAsStored) = true := by decide +kernel
  obtain ⟨p, hp, hshown⟩ := (Option.any_eq_true _ _).mp hroot
  obtain ⟨-, paths, -, -, hindex⟩ := ScanStore.published_indexes ⟨0⟩ ⟨0⟩ _ hp
  refine ⟨p, hp, fun hagrees => ?_⟩
  have hstored := (root_row hindex none).mp hagrees.root
  simp [hstored] at hshown

end Excise
