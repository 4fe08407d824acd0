import Excise.Lib.Paging
import Excise.Store.PageTable

/-!
# Pages of a published folder

`page` and `filtered_page` of `page.rs` over the sorted child-query records. A record key starts
with its folder, headers come before entries, and entries follow by descending allocated lower
bound and path (`PageKey`); the prefix tests of the source are tests on the folder of a record.
The sparse seek of a run is left out: a reader skips what lies before its bound.
-/

namespace Excise
set_option autoImplicit false

structure PageCursor where
  path : RelativePath
  representedBytes : Nat

/-- Cursors are ordered as the entries of a folder are. -/
instance : LinearOrder PageCursor :=
  LinearOrder.lift' (fun c => toLex (OrderDual.toDual c.representedBytes, c.path)) fun a b h => by
    cases a
    cases b
    simpa [toLex_inj, and_comm] using h

def PageCursor.fromEntry (entry : ScanPageEntry) : PageCursor :=
  ⟨entry.path, entry.metrics.allocatedBytes.lower⟩

/-- `page_entry_query_key_into`. -/
def PageCursor.key (folder : RelativePath) (cursor : PageCursor) : PageKey :=
  ⟨folder, ↑(OrderDual.toDual cursor.representedBytes), cursor.path⟩

structure PageRequest where
  folder : RelativePath
  after : Option PageCursor
  limit : Nat

structure SharedAllocationSummary where
  metrics : SummaryMetrics
  coverage : Coverage

structure ScanPage where
  generation : ScanGeneration
  folder : RelativePath
  folderMetrics : SummaryMetrics
  folderCoverage : Coverage
  rootMetrics : SummaryMetrics
  rootCoverage : Coverage
  entries : List ScanPageEntry
  nextAfter : Option PageCursor
  sharedAllocation : Option SharedAllocationSummary
  unrecordedPathCount : Nat

inductive ScanPageError where
  | Malformed
  | InvalidLimit
  | InvalidCursor
  | MissingFolder
  | NotDirectory
  deriving DecidableEq, Repr

def maxPageEntries : Nat := 4096

def validatePageRequest (request : PageRequest) : Except ScanPageError Unit :=
  if request.limit = 0 ∨ request.limit > maxPageEntries then .error .InvalidLimit
  else if request.after.any fun after => !after.path.isDirectChildOf request.folder then
    .error .InvalidCursor
  else .ok ()

/-! ## Reading a run -/

namespace PageRecord

/-- `key < entry_prefix`. -/
def precedesEntriesOf (folder : RelativePath) : PageRecord → Bool
  | .header f _ => decide (f ≤ folder)
  | .entry f _ => decide (f < folder)

/-- `key.starts_with(&folder_key)`. -/
def inSubtreeOf (folder : RelativePath) (r : PageRecord) : Bool := r.key.folder.startsWith folder

end PageRecord

def readHeaderFromRun (folder : RelativePath) : List PageRecord → Option StoredHeader
  | [] => none
  | r :: rest =>
    if r.key < ⟨folder, ⊥, .root⟩ then readHeaderFromRun folder rest
    else
      match r with
      | .header f header => if f = folder then some header else none
      | .entry _ _ => none

def readExactEntryFromRun (parent child : RelativePath) : List PageRecord → Option StoredEntry
  | [] => none
  | r :: rest =>
    if r.precedesEntriesOf parent then readExactEntryFromRun parent child rest
    else
      match r with
      | .header _ _ => none
      | .entry f e =>
        if f ≠ parent then none
        else if e.path ≠ child then readExactEntryFromRun parent child rest
        else some e

def classifyMissingFolder (records : List PageRecord) (folder : RelativePath) : ScanPageError :=
  match folder.relativeParent with
  | none => .MissingFolder
  | some parent =>
    match readExactEntryFromRun parent folder records with
    | none => .MissingFolder
    | some entry => if entry.observation.kind = .Directory then .MissingFolder else .NotDirectory

/-- `key < lower_bound`, and with a cursor also `key == lower_bound`. -/
def PageRequest.skips (request : PageRequest) (r : PageRecord) : Bool :=
  match request.after with
  | none => r.precedesEntriesOf request.folder
  | some after => decide (r.key ≤ after.key request.folder)

/-- The loop of `read_page_entries`, with the entries read so far. -/
def readPageEntriesFrom (request : PageRequest) :
    List PageRecord → List ScanPageEntry →
      Except ScanPageError (List ScanPageEntry × Option PageCursor)
  | [], entries => .ok (entries, none)
  | r :: rest, entries =>
    if request.skips r then readPageEntriesFrom request rest entries
    else
      match r with
      | .header _ _ => .ok (entries, none)
      | .entry f e =>
        if f ≠ request.folder then .ok (entries, none)
        else if !e.intoPageEntry.path.isDirectChildOf request.folder then .error .Malformed
        else if entries.length = request.limit then
          .ok (entries, entries.getLast?.map PageCursor.fromEntry)
        else readPageEntriesFrom request rest (entries ++ [e.intoPageEntry])

def readPageEntries (records : List PageRecord) (request : PageRequest) :
    Except ScanPageError (List ScanPageEntry × Option PageCursor) :=
  readPageEntriesFrom request records []

/-! ## Pages -/

def boundsAreExact (b : ByteBounds) : Bool := decide (b.upper = some b.lower)

def sharedAllocation (metrics : SummaryMetrics) : SharedAllocationSummary where
  metrics := metrics
  coverage :=
    if boundsAreExact metrics.allocatedBytes && boundsAreExact metrics.reclaimableBytes then .Complete
    else .Uncertain

namespace PublishedGeneration

/-- What both kinds of page say beside their entries. -/
def scanPage (p : PublishedGeneration) (request : PageRequest) (header : StoredHeader)
    (listed : List ScanPageEntry × Option PageCursor) : ScanPage where
  generation := p.manifest.generation
  folder := request.folder
  folderMetrics := clearUncertainPhysicalBounds header.metrics header.coverage
  folderCoverage := header.coverage
  rootMetrics :=
    clearUncertainPhysicalBounds
      (if p.unrecordedPathCount > 0 then p.rootPageMetrics.openUpper else p.rootPageMetrics)
      p.rootPageCoverage
  rootCoverage := p.rootPageCoverage
  entries := listed.1
  nextAfter := listed.2
  sharedAllocation := header.shared.map Excise.sharedAllocation
  unrecordedPathCount := p.unrecordedPathCount

def page (p : PublishedGeneration) (request : PageRequest) : Except ScanPageError ScanPage :=
  (validatePageRequest request).bind fun _ =>
    match readHeaderFromRun request.folder p.childQueries.records with
    | none => .error (classifyMissingFolder p.childQueries.records request.folder)
    | some header =>
      (readPageEntries p.childQueries.records request).map (p.scanPage request header)

end PublishedGeneration

/-! ## The order of the records -/

theorem PageKey.lt_iff {a b : PageKey} :
    a < b ↔ a.folder < b.folder ∨ a.folder = b.folder ∧
      (a.rank < b.rank ∨ a.rank = b.rank ∧ a.child < b.child) := by
  change toLex (a.folder, toLex (a.rank, a.child)) < toLex (b.folder, toLex (b.rank, b.child)) ↔ _
  rw [Prod.Lex.toLex_lt_toLex, Prod.Lex.toLex_lt_toLex]

theorem PageCursor.lt_iff {a b : PageCursor} :
    a < b ↔ b.representedBytes < a.representedBytes ∨
      a.representedBytes = b.representedBytes ∧ a.path < b.path := by
  change toLex (OrderDual.toDual a.representedBytes, a.path) <
    toLex (OrderDual.toDual b.representedBytes, b.path) ↔ _
  rw [Prod.Lex.toLex_lt_toLex, OrderDual.toDual_lt_toDual]
  simp

theorem PageCursor.key_lt_key {folder : RelativePath} {a b : PageCursor} :
    a.key folder < b.key folder ↔ a < b := by
  rw [PageKey.lt_iff, PageCursor.lt_iff]
  simp [PageCursor.key]

theorem entry_key (folder : RelativePath) (e : StoredEntry) :
    (PageRecord.entry folder e).key = (PageCursor.fromEntry e.intoPageEntry).key folder := rfl

theorem PageKey.folder_le {a b : PageKey} (h : a ≤ b) : a.folder ≤ b.folder := by
  rcases h.lt_or_eq with hlt | rfl
  · rcases PageKey.lt_iff.mp hlt with hf | ⟨hf, -⟩
    · exact hf.le
    · exact hf.le
  · exact le_refl _

/-! ## The children of a folder -/

def PageRecord.childOf (folder : RelativePath) : PageRecord → Option ScanPageEntry
  | .header _ _ => none
  | .entry f e => if f = folder then some e.intoPageEntry else none

/-- The entries of a folder in record order. -/
def children (records : List PageRecord) (folder : RelativePath) : List ScanPageEntry :=
  records.filterMap (PageRecord.childOf folder)

theorem childOf_eq_some {folder : RelativePath} {r : PageRecord} {x : ScanPageEntry}
    (h : r.childOf folder = some x) : ∃ e, r = .entry folder e ∧ x = e.intoPageEntry := by
  cases r with
  | header f header => cases h
  | entry f e =>
    simp only [PageRecord.childOf] at h
    split at h
    · rename_i hf
      obtain rfl := Option.some.inj h
      exact ⟨e, by rw [hf], rfl⟩
    · simp at h

theorem mem_children {records : List PageRecord} {folder : RelativePath} {x : ScanPageEntry} :
    x ∈ children records folder ↔
      ∃ e, PageRecord.entry folder e ∈ records ∧ x = e.intoPageEntry := by
  unfold children
  rw [List.mem_filterMap]
  constructor
  · rintro ⟨r, hr, hx⟩
    obtain ⟨e, rfl, rfl⟩ := childOf_eq_some hx
    exact ⟨e, hr, rfl⟩
  · rintro ⟨e, hr, rfl⟩
    exact ⟨_, hr, by simp [PageRecord.childOf]⟩

theorem sorted_children {records : List PageRecord} (h : SortedBy PageRecord.key records)
    (folder : RelativePath) : SortedBy PageCursor.fromEntry (children records folder) := by
  refine List.Pairwise.filterMap _ ?_ h
  intro r r' hlt x hx x' hx'
  obtain ⟨e, rfl, rfl⟩ := childOf_eq_some hx
  obtain ⟨e', rfl, rfl⟩ := childOf_eq_some hx'
  rw [entry_key, entry_key, PageCursor.key_lt_key] at hlt
  exact hlt

theorem children_beyond {records : List PageRecord} {folder : RelativePath}
    (h : ∀ r ∈ records, folder < r.key.folder) : children records folder = [] := by
  unfold children
  rw [List.filterMap_eq_nil_iff]
  intro r hr
  rw [Option.eq_none_iff_forall_not_mem]
  intro x hx
  obtain ⟨e, rfl, -⟩ := childOf_eq_some hx
  exact lt_irrefl _ (h _ hr)

/-! ## Reading one page -/

section Reading
variable {request : PageRequest} {records : List PageRecord} {r : PageRecord}

/-- What a request still has to list of these records. -/
def PageRequest.remaining (request : PageRequest) (records : List PageRecord) :
    List ScanPageEntry :=
  Paging.rest PageCursor.fromEntry (children records request.folder) request.after

theorem remaining_cons (request : PageRequest) (r : PageRecord) (records : List PageRecord) :
    request.remaining (r :: records) =
      ((r.childOf request.folder).toList.filter fun x =>
        request.after.all fun k => decide (k < PageCursor.fromEntry x)) ++
        request.remaining records := by
  unfold PageRequest.remaining Paging.rest children
  rw [List.filterMap_cons]
  cases r.childOf request.folder <;> simp [List.filter_cons]
  split <;> simp

theorem remaining_skipped (h : request.skips r = true) :
    request.remaining (r :: records) = request.remaining records := by
  rw [remaining_cons]
  suffices hnone : ((r.childOf request.folder).toList.filter fun x =>
      request.after.all fun k => decide (k < PageCursor.fromEntry x)) = [] by
    rw [hnone, List.nil_append]
  rw [List.filter_eq_nil_iff]
  intro x hx
  obtain ⟨e, rfl, rfl⟩ := childOf_eq_some (Option.mem_toList.mp hx)
  unfold PageRequest.skips at h
  split at h
  · simp [PageRecord.precedesEntriesOf] at h
  · rename_i after hafter
    rw [decide_eq_true_eq, entry_key] at h
    rw [hafter]
    simp only [Option.all_some, decide_eq_true_eq, not_lt]
    rw [← not_lt, ← @PageCursor.key_lt_key request.folder, not_lt]
    exact h

/-- A record that is not skipped and is no entry of the folder lies past it. -/
theorem beyond_of_not_skipped (h : request.skips r = false)
    (hnot : ∀ e, r ≠ .entry request.folder e) : request.folder < r.key.folder := by
  unfold PageRequest.skips at h
  split at h
  · cases r with
    | header f header =>
      have hlt : request.folder < f := by simpa [PageRecord.precedesEntriesOf] using h
      exact hlt
    | entry f e =>
      have hle : request.folder ≤ f := by simpa [PageRecord.precedesEntriesOf] using h
      refine lt_of_le_of_ne hle ?_
      rintro rfl
      exact hnot e rfl
  · rename_i after hafter
    rw [decide_eq_false_iff_not, not_le, PageKey.lt_iff] at h
    rcases h with hlt | ⟨heq, hlater⟩
    · exact hlt
    · exfalso
      cases r with
      | header f header => simp [PageRecord.key, PageCursor.key] at hlater
      | entry f e =>
        have hf : request.folder = f := heq
        exact hnot e (by rw [hf])

theorem remaining_beyond (hsorted : SortedBy PageRecord.key (r :: records))
    (h : request.folder < r.key.folder) : request.remaining (r :: records) = [] := by
  unfold PageRequest.remaining
  rw [children_beyond]
  · rfl
  · intro x hx
    exact lt_of_lt_of_le h (PageKey.folder_le (hsorted.head_le hx))

theorem remaining_listed {e : StoredEntry} (h : request.skips (.entry request.folder e) = false) :
    request.remaining (.entry request.folder e :: records) =
      e.intoPageEntry :: request.remaining records := by
  rw [remaining_cons]
  have hchild : (PageRecord.entry request.folder e).childOf request.folder =
      some e.intoPageEntry := by simp [PageRecord.childOf]
  have hafter : (request.after.all fun k =>
      decide (k < PageCursor.fromEntry e.intoPageEntry)) = true := by
    unfold PageRequest.skips at h
    split at h
    · rename_i hnone
      rw [hnone]
      rfl
    · rename_i after hsome
      rw [decide_eq_false_iff_not, not_le, entry_key, PageCursor.key_lt_key] at h
      rw [hsome]
      simpa using h
  rw [hchild]
  simp [hafter]

/-- The loop lists what remains, up to the limit, and looks one entry further. -/
theorem readPageEntriesFrom_eq (hsorted : SortedBy PageRecord.key records)
    (hdirect : ∀ x ∈ children records request.folder, x.path.isDirectChildOf request.folder = true)
    (entries : List ScanPageEntry) (hlength : entries.length ≤ request.limit) :
    readPageEntriesFrom request records entries =
      .ok (entries ++ (request.remaining records).take (request.limit - entries.length),
        if request.limit < entries.length + (request.remaining records).length then
          (entries ++ (request.remaining records).take
            (request.limit - entries.length)).getLast?.map PageCursor.fromEntry
        else none) := by
  induction records generalizing entries with
  | nil =>
    have hnone : request.remaining [] = [] := rfl
    simp [readPageEntriesFrom, hnone, not_lt.mpr hlength]
  | cons r records ih =>
    have hrest : ∀ x ∈ children records request.folder,
        x.path.isDirectChildOf request.folder = true := by
      intro x hx
      obtain ⟨e, he, rfl⟩ := mem_children.mp hx
      exact hdirect _ (mem_children.mpr ⟨e, List.mem_cons_of_mem r he, rfl⟩)
    unfold readPageEntriesFrom
    cases hskip : request.skips r with
    | true =>
      rw [if_pos rfl, remaining_skipped hskip]
      exact ih hsorted.tail hrest entries hlength
    | false =>
      rw [if_neg (by simp)]
      have hstop : (∀ e, r ≠ .entry request.folder e) →
          request.remaining (r :: records) = [] :=
        fun hnot => remaining_beyond hsorted (beyond_of_not_skipped hskip hnot)
      cases r with
      | header f header =>
        rw [hstop (by simp)]
        simp [not_lt.mpr hlength]
      | entry f e =>
        dsimp only
        by_cases hf : f = request.folder
        · subst hf
          have hchild : e.intoPageEntry.path.isDirectChildOf request.folder = true :=
            hdirect _ (mem_children.mpr ⟨e, List.mem_cons_self, rfl⟩)
          rw [if_neg (by simp), hchild, remaining_listed hskip]
          simp only [Bool.not_true, Bool.false_eq_true, if_false]
          split
          · rename_i hfull
            simp [hfull]
          · rename_i hroom
            rw [ih hsorted.tail hrest (entries ++ [e.intoPageEntry])
              (by rw [List.length_append, List.length_singleton]; omega)]
            obtain ⟨n, hn⟩ : ∃ n, request.limit - entries.length = n + 1 :=
              ⟨request.limit - entries.length - 1, by omega⟩
            have hn' : request.limit - (entries ++ [e.intoPageEntry]).length = n := by
              rw [List.length_append, List.length_singleton]
              omega
            rw [hn, hn', List.take_succ_cons, List.append_assoc, List.singleton_append]
            simp only [List.length_append, List.length_cons, List.length_nil]
            rw [show entries.length + (0 + 1) + (request.remaining records).length =
              entries.length + ((request.remaining records).length + 1) by omega]
        · rw [if_pos hf, hstop (by
            intro e' heq
            exact hf (PageRecord.entry.inj heq).1)]
          simp [not_lt.mpr hlength]

theorem readPageEntries_eq (hsorted : SortedBy PageRecord.key records)
    (hdirect : ∀ x ∈ children records request.folder, x.path.isDirectChildOf request.folder = true) :
    readPageEntries records request =
      .ok (Paging.pageOf PageCursor.fromEntry (children records request.folder) request.after
        request.limit) := by
  unfold readPageEntries
  rw [readPageEntriesFrom_eq hsorted hdirect [] (Nat.zero_le _)]
  simp [Paging.pageOf, PageRequest.remaining]

end Reading

/-! ## Listing a folder -/

theorem readHeaderFromRun_eq {records : List PageRecord} {folder : RelativePath}
    {header : StoredHeader} (hsorted : SortedBy PageRecord.key records)
    (h : PageRecord.header folder header ∈ records) :
    readHeaderFromRun folder records = some header := by
  induction records with
  | nil => cases h
  | cons r records ih =>
    unfold readHeaderFromRun
    rcases List.mem_cons.mp h with rfl | h
    · have hnot : ¬(PageRecord.header folder header).key < ⟨folder, ⊥, .root⟩ := lt_irrefl _
      rw [if_neg hnot]
      simp
    · have hlt : r.key < ⟨folder, ⊥, .root⟩ := (List.pairwise_cons.mp hsorted).1 _ h
      rw [if_pos hlt]
      exact ih hsorted.tail h

theorem Indexes.direct {records : List PageRecord} {paths : List PathObservation}
    (h : Indexes records paths) (folder : RelativePath) :
    ∀ x ∈ children records folder, x.path.isDirectChildOf folder = true := by
  intro x hx
  obtain ⟨e, he, rfl⟩ := mem_children.mp hx
  exact RelativePath.relativeParent_eq_some.mp (h.parents folder e he)

theorem Indexes.mem_paths {records : List PageRecord} {paths : List PathObservation}
    (h : Indexes records paths) {folder : RelativePath} {e : StoredEntry}
    (he : PageRecord.entry folder e ∈ records) : e.observation ∈ paths :=
  h.entries.mem_iff.mp (List.mem_map_of_mem (mem_storedEntries.mpr ⟨folder, he⟩))

theorem Indexes.entry_of_path {records : List PageRecord} {paths : List PathObservation}
    (h : Indexes records paths) {o : PathObservation} (ho : o ∈ paths) :
    ∃ folder e, PageRecord.entry folder e ∈ records ∧ e.observation = o := by
  obtain ⟨e, he, heq⟩ := List.mem_map.mp (h.entries.mem_iff.mpr ho)
  obtain ⟨folder, hr⟩ := mem_storedEntries.mp he
  exact ⟨folder, e, hr, heq⟩

/-- The recorded children of a folder are its entries. -/
theorem Indexes.children_paths {records : List PageRecord} {paths : List PathObservation}
    (h : Indexes records paths) (folder path : RelativePath) :
    path ∈ (children records folder).map ScanPageEntry.path ↔
      path.isDirectChildOf folder = true ∧ ∃ o ∈ paths, o.path = path := by
  rw [List.mem_map]
  constructor
  · rintro ⟨x, hx, rfl⟩
    refine ⟨h.direct folder x hx, ?_⟩
    obtain ⟨e, he, rfl⟩ := mem_children.mp hx
    exact ⟨e.observation, h.mem_paths he, rfl⟩
  · rintro ⟨hdirect, o, ho, rfl⟩
    obtain ⟨f, e, he, rfl⟩ := h.entry_of_path ho
    have hf : f = folder := by
      have hparent := h.parents f e he
      rw [RelativePath.relativeParent_eq_some.mpr hdirect] at hparent
      exact (Option.some.inj hparent).symm
    subst hf
    exact ⟨e.intoPageEntry, mem_children.mpr ⟨e, he, rfl⟩, rfl⟩

theorem Indexes.nodup_stored {records : List PageRecord} {paths : List PathObservation}
    (h : Indexes records paths) : ((storedEntries records).map StoredEntry.path).Nodup := by
  have hpaths := (h.entries.map PathObservation.path).nodup_iff.mpr h.tree.sorted.nodup_keys
  rwa [List.map_map] at hpaths

theorem Indexes.nodup_paths {records : List PageRecord} {paths : List PathObservation}
    (h : Indexes records paths) (folder : RelativePath) :
    ((children records folder).map ScanPageEntry.path).Nodup := by
  refine h.nodup_stored.sublist ?_
  -- the children are some of the entries
  unfold children storedEntries
  rw [List.map_filterMap, List.map_filterMap]
  have hsub : ∀ l : List PageRecord,
      (l.filterMap fun r => (r.childOf folder).map ScanPageEntry.path).Sublist
        (l.filterMap fun r => r.entry?.map StoredEntry.path) := by
    intro l
    induction l with
    | nil => exact List.Sublist.refl _
    | cons r l ih =>
      cases r with
      | header f header => exact ih
      | entry f e =>
        by_cases hf : f = folder
        · simp only [List.filterMap_cons, PageRecord.childOf, if_pos hf, PageRecord.entry?,
            Option.map_some]
          exact ih.cons_cons _
        · simp only [List.filterMap_cons, PageRecord.childOf, if_neg hf, PageRecord.entry?,
            Option.map_some, Option.map_none]
          exact ih.cons _
  exact hsub records

/-- The folder of a page: the root or a recorded directory. -/
def IsFolder (paths : List PathObservation) (folder : RelativePath) : Prop :=
  folder = .root ∨ ∃ o ∈ paths, o.kind = .Directory ∧ o.path = folder

/-- Requests that only move the cursor and the limit. -/
def PublishedGeneration.folderPages (p : PublishedGeneration) (folder : RelativePath)
    (after : Option PageCursor) (limit : Nat) : Except ScanPageError ScanPage :=
  p.page ⟨folder, after, limit⟩

theorem validatePageRequest_ok {request : PageRequest}
    (h : validatePageRequest request = .ok ()) :
    0 < request.limit ∧ request.limit ≤ maxPageEntries := by
  unfold validatePageRequest at h
  split at h
  · cases h
  · omega

theorem validatePageRequest_of_cursor {request : PageRequest} {all : List ScanPageEntry}
    (hlimit : 0 < request.limit ∧ request.limit ≤ maxPageEntries)
    (hall : ∀ x ∈ all, x.path.isDirectChildOf request.folder = true)
    (hcursor : Paging.IsCursor PageCursor.fromEntry all request.after) :
    validatePageRequest request = .ok () := by
  unfold validatePageRequest
  rw [if_neg (by omega), if_neg]
  cases hafter : request.after with
  | none => simp
  | some after =>
    obtain ⟨x, hx, rfl⟩ := hcursor after hafter
    have hx' := hall x hx
    simpa [PageCursor.fromEntry] using hx'

/-- A folder answers every valid request with the page of its children. -/
theorem PublishedGeneration.folderPages_eq {p : PublishedGeneration} {paths : List PathObservation}
    (h : Indexes p.childQueries.records paths) {folder : RelativePath}
    (hfolder : IsFolder paths folder) :
    ∃ header, ∀ after limit, validatePageRequest ⟨folder, after, limit⟩ = .ok () →
      p.folderPages folder after limit = .ok (p.scanPage ⟨folder, after, limit⟩ header
        (Paging.pageOf PageCursor.fromEntry (children p.childQueries.records folder) after
          limit)) := by
  obtain ⟨header, hheader⟩ := h.headers folder hfolder
  have hread := readHeaderFromRun_eq h.sorted hheader
  refine ⟨header, fun after limit hvalid => ?_⟩
  have hentries := @readPageEntries_eq ⟨folder, after, limit⟩ _ h.sorted
    (h.direct folder)
  unfold folderPages page
  rw [hvalid]
  simp only [Except.bind, hread, hentries, Except.map]

theorem PublishedGeneration.folderPages_valid {p : PublishedGeneration} {folder : RelativePath}
    {after : Option PageCursor} {limit : Nat} {page : ScanPage}
    (h : p.folderPages folder after limit = .ok page) :
    validatePageRequest ⟨folder, after, limit⟩ = .ok () := by
  unfold folderPages PublishedGeneration.page at h
  cases hvalid : validatePageRequest ⟨folder, after, limit⟩ with
  | error e =>
    rw [hvalid] at h
    cases h
  | ok u => rfl

theorem reads_folderPages {p : PublishedGeneration} {paths : List PathObservation}
    (h : Indexes p.childQueries.records paths) {folder : RelativePath}
    (hfolder : IsFolder paths folder) :
    Paging.Reads PageCursor.fromEntry (children p.childQueries.records folder)
      (p.folderPages folder) ScanPage.entries ScanPage.nextAfter
      (fun limit => 0 < limit ∧ limit ≤ maxPageEntries) := by
  obtain ⟨header, hpage⟩ := PublishedGeneration.folderPages_eq h hfolder
  refine ⟨?_, ?_⟩
  · intro after limit page _ hok
    rw [hpage after limit (PublishedGeneration.folderPages_valid hok)] at hok
    cases hok
    rfl
  · intro after limit hcursor hlimit
    exact ⟨_, hpage after limit (validatePageRequest_of_cursor hlimit (h.direct folder) hcursor)⟩

/-- The order of a page: larger allocations first, then by path. -/
def PageOrder (x y : ScanPageEntry) : Prop :=
  y.metrics.allocatedBytes.lower < x.metrics.allocatedBytes.lower ∨
    x.metrics.allocatedBytes.lower = y.metrics.allocatedBytes.lower ∧ x.path < y.path

theorem pageOrder_iff {x y : ScanPageEntry} :
    PageOrder x y ↔ PageCursor.fromEntry x < PageCursor.fromEntry y := by
  rw [PageCursor.lt_iff]
  rfl

/-- What a walk lists, entry by entry. -/
theorem walked_children {p : PublishedGeneration} {paths : List PathObservation}
    (h : Indexes p.childQueries.records paths) {folder : RelativePath}
    (hfolder : IsFolder paths folder) {limits : Nat → Nat} (hpos : ∀ i, 0 < limits i)
    {pages : List ScanPage}
    (hwalk : Paging.Walk (p.folderPages folder) ScanPage.nextAfter limits 0 none pages) :
    pages.flatMap ScanPage.entries = children p.childQueries.records folder ∧
      ∀ i page, pages[i]? = some page → page.entries.length ≤ limits i := by
  have hstart : Paging.IsCursor PageCursor.fromEntry
      (children p.childQueries.records folder) none := by simp [Paging.IsCursor]
  obtain ⟨hlists, hlengths⟩ :=
    hwalk.lists (sorted_children h.sorted folder) (reads_folderPages h hfolder) hpos hstart
  rw [Paging.rest_none] at hlists
  refine ⟨hlists, fun i page hget => ?_⟩
  have hlength := hlengths i page hget
  rwa [Nat.zero_add] at hlength

/-- In every published generation of every session, following the cursors through any folder
with any limits ends, and lists each recorded child once, in page order. -/
theorem pagination_complete (session : ScanSessionId) (generation : ScanGeneration)
    (calls : List StoreCall) (p : PublishedGeneration)
    (hp : (ScanStore.machine.run (ScanStore.new session generation) calls).published = some p) :
    ∃ a paths, PublishesInto a p ∧ PathsOf a paths ∧
      ∀ folder, IsFolder paths folder → ∀ limits : Nat → Nat, (∀ i, 0 < limits i) →
        ((∀ i, limits i ≤ maxPageEntries) →
          ∃ pages, Paging.Walk (p.folderPages folder) ScanPage.nextAfter limits 0 none pages) ∧
        ∀ pages, Paging.Walk (p.folderPages folder) ScanPage.nextAfter limits 0 none pages →
          (∀ path, path ∈ (pages.flatMap ScanPage.entries).map ScanPageEntry.path ↔
            path.isDirectChildOf folder = true ∧ ∃ o ∈ paths, o.path = path) ∧
          ((pages.flatMap ScanPage.entries).map ScanPageEntry.path).Nodup ∧
          (pages.flatMap ScanPage.entries).Pairwise PageOrder ∧
          ∀ i page, pages[i]? = some page → page.entries.length ≤ limits i := by
  obtain ⟨a, paths, hinto, hpaths, hindex⟩ :=
    ScanStore.published_indexes session generation calls hp
  refine ⟨a, paths, hinto, hpaths, ?_⟩
  intro folder hfolder limits hpos
  have hsorted := sorted_children hindex.sorted folder
  have hreads := reads_folderPages hindex hfolder
  have hstart : Paging.IsCursor PageCursor.fromEntry
      (children p.childQueries.records folder) none := by simp [Paging.IsCursor]
  refine ⟨?_, ?_⟩
  · intro hmax
    exact Paging.walk_exists hsorted hreads (fun i => ⟨hpos i, hmax i⟩) hpos 0 hstart
  · intro pages hwalk
    obtain ⟨hlists, hlengths⟩ := walked_children hindex hfolder hpos hwalk
    rw [hlists]
    exact ⟨hindex.children_paths folder, hindex.nodup_paths folder,
      hsorted.imp fun hlt => pageOrder_iff.mpr hlt, hlengths⟩

/-- The root of the scanned tree, one entry to a page: `a` and `c` have the same size. -/
theorem pagination_complete_linkedScan :
    ∃ p, (ScanStore.machine.run (ScanStore.new ⟨0⟩ ⟨0⟩)
        (linkedScan ++ [.publish Io.none])).published = some p ∧
      ∃ pages, Paging.Walk (p.folderPages .root) ScanPage.nextAfter (fun _ => 1) 0 none pages ∧
        (pages.flatMap ScanPage.entries).map (fun x => (x.path, x.metrics.allocatedBytes.lower)) =
          [(⟨[nameB]⟩, 8192), (⟨[nameA]⟩, 4096), (⟨[nameC]⟩, 4096)] ∧
        (pages.flatMap ScanPage.entries).Pairwise PageOrder ∧
        ∀ page ∈ pages, page.entries.length ≤ 1 := by
  obtain ⟨p, hp, hrecords, -⟩ := published_linkedScan
  obtain ⟨_, _, -, -, hpages⟩ := pagination_complete ⟨0⟩ ⟨0⟩ _ p hp
  obtain ⟨hexists, hlists⟩ := hpages .root (Or.inl rfl) (fun _ => 1) fun _ => Nat.one_pos
  obtain ⟨pages, hwalk⟩ := hexists fun _ => by decide
  obtain ⟨-, -, horder, hlengths⟩ := hlists pages hwalk
  have hlimit : ∀ page ∈ pages, page.entries.length ≤ 1 := by
    intro page hpage
    obtain ⟨i, hget⟩ := List.mem_iff_getElem?.mp hpage
    exact hlengths i page hget
  refine ⟨p, hp, pages, hwalk, ?_, horder, hlimit⟩
  obtain ⟨-, paths, -, -, hindex⟩ := ScanStore.published_indexes ⟨0⟩ ⟨0⟩ _ hp
  rw [(walked_children hindex (Or.inl rfl) (fun _ => Nat.one_pos) hwalk).1, hrecords]
  decide +kernel

end Excise
