import Excise.Store.Pages

/-!
# Filtered pages

`filtered_page` walks the records of a whole subtree and keeps, in page order, the first children
that hold a match. A child may be met again after it was dropped as overflow; the kept candidates
are at every point the first ones of the children matched so far.
-/

namespace Excise
set_option autoImplicit false

/-- A compiled filter: the displayed path of an entry and the folder the filter was applied in. -/
structure FilterPattern where
  matchesPath : NativePath → NativePath → Bool

/-- `root_path.join(path.to_path_buf())`. -/
def displayPath (rootPath : NativePath) (path : RelativePath) : NativePath :=
  rootPath ++ path.components.map Component.bytes

def directChildUnder (folder path : RelativePath) : Except ScanPageError RelativePath :=
  if !path.startsWith folder || decide (path.depth ≤ folder.depth) then .error .Malformed
  else .ok ⟨path.components.take (folder.depth + 1)⟩

def comparePageEntries (left right : ScanPageEntry) : Ordering :=
  (compare right.metrics.allocatedBytes.lower left.metrics.allocatedBytes.lower).then
    (compare left.path right.path)

def isAfterCursor (entry : ScanPageEntry) (after : PageCursor) : Bool :=
  decide (entry.metrics.allocatedBytes.lower < after.representedBytes) ||
    (decide (entry.metrics.allocatedBytes.lower = after.representedBytes) &&
      decide (after.path < entry.path))

/-- `push`, `sort_unstable_by`, and `pop` of what exceeds one page and its continuation. -/
def keepCandidate (limit : Nat) (candidates : List ScanPageEntry) (candidate : ScanPageEntry) :
    List ScanPageEntry :=
  if ((candidates ++ [candidate]).mergeSort fun a b =>
      (comparePageEntries a b).isLE).length > limit + 1 then
    ((candidates ++ [candidate]).mergeSort fun a b => (comparePageEntries a b).isLE).dropLast
  else (candidates ++ [candidate]).mergeSort fun a b => (comparePageEntries a b).isLE

section Reading
variable (records : List PageRecord) (request : PageRequest) (rootPath : NativePath)
  (filter : FilterPattern) (filterRoot : RelativePath)

/-- An entry the filter selects: below the filter's folder, and matching. -/
def FilterPattern.selects (path : RelativePath) : Bool :=
  path.startsWith filterRoot &&
    filter.matchesPath (displayPath rootPath path) (displayPath rootPath filterRoot)

/-- The direct child of the page's folder that leads to a match. -/
def candidateFor (entry : ScanPageEntry) : Except ScanPageError ScanPageEntry :=
  (directChildUnder request.folder entry.path).bind fun child =>
    if child = entry.path then .ok entry
    else
      match readExactEntryFromRun request.folder child records with
      | none => .error .Malformed
      | some e => .ok e.intoPageEntry

/-- What one matching record does to the candidates. -/
def considerCandidate (candidates : List ScanPageEntry) (candidate : ScanPageEntry) :
    List ScanPageEntry :=
  if request.after.any fun after => !isAfterCursor candidate after then candidates
  else if candidates.any fun existing => decide (existing.path = candidate.path) then candidates
  else keepCandidate request.limit candidates candidate

/-- The loop of `read_filtered_page_entries` over the records that are left. -/
def readFilteredFrom : List PageRecord → List ScanPageEntry →
    Except ScanPageError (List ScanPageEntry)
  | [], candidates => .ok candidates
  | r :: rest, candidates =>
    if r.precedesEntriesOf request.folder then readFilteredFrom rest candidates
    else if !r.inSubtreeOf request.folder then .ok candidates
    else
      match r with
      | .header _ _ => readFilteredFrom rest candidates
      | .entry _ e =>
        if !e.intoPageEntry.path.startsWith request.folder then readFilteredFrom rest candidates
        else if !filter.selects rootPath filterRoot e.intoPageEntry.path then
          readFilteredFrom rest candidates
        else
          (candidateFor records request e.intoPageEntry).bind fun candidate =>
            readFilteredFrom rest (considerCandidate request candidates candidate)

def readFilteredPageEntries : Except ScanPageError (List ScanPageEntry × Option PageCursor) :=
  (readFilteredFrom records request rootPath filter filterRoot records []).map fun candidates =>
    (candidates.take request.limit,
      if candidates.length > request.limit then
        candidates[request.limit - 1]?.map PageCursor.fromEntry
      else none)

def PublishedGeneration.filteredPage (p : PublishedGeneration) : Except ScanPageError ScanPage :=
  (validatePageRequest request).bind fun _ =>
    match readHeaderFromRun request.folder p.childQueries.records with
    | none => .error (classifyMissingFolder p.childQueries.records request.folder)
    | some header =>
      (readFilteredPageEntries p.childQueries.records request rootPath filter filterRoot).map
        (p.scanPage request header)

end Reading

/-! ## The order of candidates -/

theorem comparePageEntries_isLE {a b : ScanPageEntry} :
    (comparePageEntries a b).isLE = decide (PageCursor.fromEntry a ≤ PageCursor.fromEntry b) := by
  have hle : PageCursor.fromEntry a ≤ PageCursor.fromEntry b ↔
      b.metrics.allocatedBytes.lower < a.metrics.allocatedBytes.lower ∨
        a.metrics.allocatedBytes.lower = b.metrics.allocatedBytes.lower ∧ a.path ≤ b.path := by
    rw [← not_lt, PageCursor.lt_iff]
    simp only [PageCursor.fromEntry, not_or, not_and, not_lt]
    constructor
    · rintro ⟨hle, himp⟩
      rcases hle.lt_or_eq with hlt | heq
      · exact Or.inl hlt
      · exact Or.inr ⟨heq.symm, himp heq⟩
    · rintro (hlt | ⟨heq, hpath⟩)
      · exact ⟨hlt.le, fun h => absurd h hlt.ne⟩
      · exact ⟨heq.ge, fun _ => hpath⟩
  rw [Bool.eq_iff_iff, decide_eq_true_eq, hle]
  unfold comparePageEntries
  rcases lt_trichotomy b.metrics.allocatedBytes.lower a.metrics.allocatedBytes.lower with
    hlt | heq | hgt
  · simp [compare_lt_iff_lt.mpr hlt, hlt]
  · rw [heq, compare_eq_iff_eq.mpr rfl]
    simp only [Ordering.eq_then, lt_irrefl, false_or, true_and]
    rw [Ordering.isLE_iff_ne_gt]
    exact compare_le_iff_le
  · rw [compare_gt_iff_gt.mpr hgt]
    simp [hgt.not_gt, hgt.ne]

theorem isAfterCursor_eq (entry : ScanPageEntry) (after : PageCursor) :
    isAfterCursor entry after = decide (after < PageCursor.fromEntry entry) := by
  rw [Bool.eq_iff_iff, decide_eq_true_eq, PageCursor.lt_iff]
  simp only [isAfterCursor, PageCursor.fromEntry, Bool.or_eq_true, Bool.and_eq_true,
    decide_eq_true_eq]
  constructor
  · rintro (hlt | ⟨heq, hpath⟩)
    · exact Or.inl hlt
    · exact Or.inr ⟨heq.symm, hpath⟩
  · rintro (hlt | ⟨heq, hpath⟩)
    · exact Or.inl hlt
    · exact Or.inr ⟨heq.symm, hpath⟩

theorem keepCandidate_eq {limit : Nat} {candidates : List ScanPageEntry} {candidate : ScanPageEntry}
    (h : candidates.length ≤ limit + 1) :
    keepCandidate limit candidates candidate =
      ((candidates ++ [candidate]).mergeSort fun a b =>
        decide (PageCursor.fromEntry a ≤ PageCursor.fromEntry b)).take (limit + 1) := by
  unfold keepCandidate
  simp only [comparePageEntries_isLE]
  have hlength : ((candidates ++ [candidate]).mergeSort fun a b =>
      decide (PageCursor.fromEntry a ≤ PageCursor.fromEntry b)).length = candidates.length + 1 := by
    rw [List.length_mergeSort, List.length_append, List.length_singleton]
  generalize ((candidates ++ [candidate]).mergeSort fun a b =>
    decide (PageCursor.fromEntry a ≤ PageCursor.fromEntry b)) = sorted at hlength ⊢
  split
  · rw [List.dropLast_eq_take]
    congr 1
    omega
  · exact (List.take_of_length_le (by omega)).symm

/-! ## Paths below a folder -/

theorem direct_of_startsWith {folder child f path : RelativePath}
    (hchild : child.isDirectChildOf folder = true) (hpath : path.isDirectChildOf f = true)
    (h : path.startsWith child = true) : f.startsWith folder = true := by
  obtain ⟨c, hc⟩ := RelativePath.isDirectChildOf_iff.mp hchild
  obtain ⟨d, hd⟩ := RelativePath.isDirectChildOf_iff.mp hpath
  rw [RelativePath.startsWith_iff] at h ⊢
  rw [hc, hd] at h
  have hfolder : folder.components <+: f.components ++ [d] := (List.prefix_append _ _).trans h
  refine List.prefix_of_prefix_length_le hfolder (List.prefix_append _ _) ?_
  have hlength := h.length_le
  simp only [List.length_append, List.length_singleton] at hlength
  omega

theorem direct_unique {folder child child' path : RelativePath}
    (hchild : child.isDirectChildOf folder = true) (hchild' : child'.isDirectChildOf folder = true)
    (h : path.startsWith child = true) (h' : path.startsWith child' = true) : child = child' := by
  obtain ⟨c, hc⟩ := RelativePath.isDirectChildOf_iff.mp hchild
  obtain ⟨c', hc'⟩ := RelativePath.isDirectChildOf_iff.mp hchild'
  rw [RelativePath.startsWith_iff] at h h'
  have hlength : child.components.length = child'.components.length := by
    rw [hc, hc', List.length_append, List.length_append]
    rfl
  refine RelativePath.ext_components ?_
  exact (List.prefix_of_prefix_length_le h h' hlength.le).eq_of_length hlength

theorem directChildUnder_eq {folder path : RelativePath} (hstarts : path.startsWith folder = true)
    (hdepth : folder.depth < path.depth) :
    ∃ child, directChildUnder folder path = .ok child ∧
      child.isDirectChildOf folder = true ∧ path.startsWith child = true := by
  refine ⟨⟨path.components.take (folder.depth + 1)⟩, ?_, ?_, ?_⟩
  · unfold directChildUnder
    rw [if_neg]
    simp [hstarts, hdepth]
  · rw [RelativePath.startsWith_iff] at hstarts
    unfold RelativePath.isDirectChildOf
    rw [Bool.and_eq_true, beq_iff_eq, RelativePath.startsWith_iff]
    unfold RelativePath.depth at hdepth ⊢
    refine ⟨by rw [List.length_take]; omega, ?_⟩
    refine List.prefix_of_prefix_length_le hstarts (List.take_prefix _ _) ?_
    rw [List.length_take]
    omega
  · rw [RelativePath.startsWith_iff]
    exact List.take_prefix _ _

/-- In a tree of observations every path between the root and a recorded one is recorded. -/
theorem TreeShaped.recorded_above {paths : List PathObservation} (h : TreeShaped paths)
    {o : PathObservation} (ho : o ∈ paths) {above : RelativePath} (hroot : above ≠ .root)
    (habove : o.path.startsWith above = true) : ∃ o' ∈ paths, o'.path = above := by
  -- induction on how deep the recorded path lies
  induction hn : o.path.depth generalizing o with
  | zero =>
    rw [RelativePath.startsWith_iff] at habove
    have hlength := habove.length_le
    unfold RelativePath.depth at hn
    rw [hn, Nat.le_zero, List.length_eq_zero_iff] at hlength
    exact absurd (RelativePath.ext_components hlength) hroot
  | succ n ih =>
    obtain ⟨d, hd, hparent⟩ := h.parents o ho
    by_cases heq : o.path = above
    · exact ⟨o, ho, heq⟩
    · obtain ⟨c, hc⟩ := RelativePath.isDirectChildOf_iff.mp hd
      have hbelow : d.startsWith above = true := by
        rw [RelativePath.startsWith_iff] at habove ⊢
        rw [hc] at habove
        rcases List.prefix_concat_iff.mp habove with hall | hd
        · exact absurd (RelativePath.ext_components (hc.trans hall.symm)) heq
        · exact hd
      rcases hparent with rfl | ⟨o', ho', -, rfl⟩
      · rw [RelativePath.startsWith_iff] at hbelow
        have hnil : above.components = [] := List.prefix_nil.mp hbelow
        exact absurd (RelativePath.ext_components hnil) hroot
      · refine ih ho' hbelow ?_
        unfold RelativePath.depth at hn ⊢
        rw [hc, List.length_append, List.length_singleton] at hn
        omega

/-! ## The child that leads to a match -/

theorem readExactEntryFromRun_eq {records : List PageRecord} {parent : RelativePath}
    {e : StoredEntry} (hsorted : SortedBy PageRecord.key records)
    (h : PageRecord.entry parent e ∈ records)
    (hunique : ∀ e', PageRecord.entry parent e' ∈ records → e'.path = e.path → e' = e) :
    readExactEntryFromRun parent e.path records = some e := by
  induction records with
  | nil => cases h
  | cons r records ih =>
    unfold readExactEntryFromRun
    have hrest : PageRecord.entry parent e ∈ records →
        readExactEntryFromRun parent e.path records = some e := fun h =>
      ih hsorted.tail h fun e' he' => hunique e' (List.mem_cons_of_mem r he')
    have hle : r.key.folder ≤ parent := PageKey.folder_le (hsorted.head_le h)
    by_cases hprecedes : r.precedesEntriesOf parent = true
    · rw [if_pos hprecedes]
      rcases List.mem_cons.mp h with rfl | h
      · simp [PageRecord.precedesEntriesOf] at hprecedes
      · exact hrest h
    · rw [if_neg hprecedes]
      cases r with
      | header f header =>
        exact absurd (decide_eq_true hle) hprecedes
      | entry f e' =>
        have hf : f = parent := by
          refine le_antisymm hle (not_lt.mp fun hlt => hprecedes ?_)
          exact decide_eq_true hlt
        subst hf
        dsimp only
        rw [if_neg (by simp)]
        by_cases hpath : e'.path = e.path
        · rw [if_neg (by simp [hpath]), hunique e' List.mem_cons_self hpath]
        · rw [if_pos hpath]
          rcases List.mem_cons.mp h with heq | h
          · obtain ⟨-, rfl⟩ := PageRecord.entry.inj heq
            exact absurd rfl hpath
          · exact hrest h

section Matching
variable {records : List PageRecord} {paths : List PathObservation} {request : PageRequest}
  {rootPath : NativePath} {filter : FilterPattern} {filterRoot : RelativePath}

theorem Indexes.entry_unique (h : Indexes records paths) {folder : RelativePath}
    {x y : ScanPageEntry} (hx : x ∈ children records folder) (hy : y ∈ children records folder)
    (hpath : x.path = y.path) : x = y :=
  List.inj_on_of_nodup_map (h.nodup_paths folder) hx hy hpath

/-- An entry below the page's folder leads to one of its children. -/
theorem candidateFor_eq (h : Indexes records paths) {f : RelativePath} {e : StoredEntry}
    (he : PageRecord.entry f e ∈ records) (hbelow : f.startsWith request.folder = true) :
    ∃ c ∈ children records request.folder,
      candidateFor records request e.intoPageEntry = .ok c ∧ e.path.startsWith c.path = true := by
  have hparent : e.path.isDirectChildOf f = true :=
    RelativePath.relativeParent_eq_some.mp (h.parents f e he)
  obtain ⟨c, hc⟩ := RelativePath.isDirectChildOf_iff.mp hparent
  have hstarts : e.path.startsWith request.folder = true := by
    refine RelativePath.startsWith_trans ?_ hbelow
    rw [RelativePath.startsWith_iff, hc]
    exact List.prefix_append _ _
  have hdepth : request.folder.depth < e.path.depth := by
    rw [RelativePath.startsWith_iff] at hbelow
    have hlength := hbelow.length_le
    unfold RelativePath.depth
    rw [hc, List.length_append, List.length_singleton]
    omega
  obtain ⟨child, hunder, hdirect, hchild⟩ := directChildUnder_eq hstarts hdepth
  have hroot : child ≠ .root := by
    rintro rfl
    obtain ⟨d, hd⟩ := RelativePath.isDirectChildOf_iff.mp hdirect
    simp [RelativePath.root] at hd
  obtain ⟨o, ho, hopath⟩ := h.tree.recorded_above (h.mem_paths he) hroot hchild
  obtain ⟨x, hx, hxpath⟩ := List.mem_map.mp
    ((h.children_paths request.folder child).mpr ⟨hdirect, o, ho, hopath⟩)
  refine ⟨x, hx, ?_, by rw [hxpath]; exact hchild⟩
  have hpath : e.intoPageEntry.path = e.path := rfl
  unfold candidateFor
  rw [hpath, hunder]
  dsimp only [Except.bind]
  by_cases heq : child = e.path
  · have hf : f = request.folder := by
      have hboth := RelativePath.relativeParent_eq_some.mpr hdirect
      rw [heq, h.parents f e he] at hboth
      exact Option.some.inj hboth
    subst hf
    have hmem : e.intoPageEntry ∈ children records request.folder :=
      mem_children.mpr ⟨e, he, rfl⟩
    rw [if_pos heq, h.entry_unique hmem hx (by rw [hxpath, heq]; rfl)]
  · obtain ⟨e', he', rfl⟩ := mem_children.mp hx
    have hexact := readExactEntryFromRun_eq h.sorted he' (by
      intro e'' he'' hpath''
      exact List.inj_on_of_nodup_map h.nodup_stored (mem_storedEntries.mpr ⟨_, he''⟩)
        (mem_storedEntries.mpr ⟨_, he'⟩) hpath'')
    have hchildPath : e'.path = child := hxpath
    rw [hchildPath] at hexact
    rw [if_neg heq, hexact]

/-- A record of a match at or below the child. -/
def PageRecord.hits (rootPath : NativePath) (filter : FilterPattern) (filterRoot : RelativePath)
    (r : PageRecord) (child : ScanPageEntry) : Bool :=
  r.entry?.any fun e =>
    e.path.startsWith child.path && filter.selects rootPath filterRoot e.path

/-- The child is after the cursor and one of the records is a match at or below it. -/
def PageRequest.wants (request : PageRequest) (rootPath : NativePath) (filter : FilterPattern)
    (filterRoot : RelativePath) (done : List PageRecord) (child : ScanPageEntry) : Bool :=
  (request.after.all fun k => decide (k < PageCursor.fromEntry child)) &&
    done.any fun r => r.hits rootPath filter filterRoot child

/-- The candidates after the records `done`: the first of the children matched so far. -/
def PageRequest.kept (request : PageRequest) (rootPath : NativePath) (filter : FilterPattern)
    (filterRoot : RelativePath) (records done : List PageRecord) : List ScanPageEntry :=
  ((children records request.folder).filter
    (request.wants rootPath filter filterRoot done)).take (request.limit + 1)

theorem wants_append (done more : List PageRecord) (child : ScanPageEntry) :
    request.wants rootPath filter filterRoot (done ++ more) child =
      (request.wants rootPath filter filterRoot done child ||
        request.wants rootPath filter filterRoot more child) := by
  unfold PageRequest.wants
  rw [List.any_append, Bool.and_or_distrib_left]

/-- Records that are no match below any child change nothing. -/
theorem kept_quiet {done more : List PageRecord}
    (h : ∀ x ∈ children records request.folder, ∀ r ∈ more,
      r.hits rootPath filter filterRoot x = false) :
    request.kept rootPath filter filterRoot records (done ++ more) =
      request.kept rootPath filter filterRoot records done := by
  unfold PageRequest.kept
  congr 1
  apply List.filter_congr
  intro x hx
  have hmore : request.wants rootPath filter filterRoot more x = false := by
    unfold PageRequest.wants
    rw [Bool.and_eq_false_iff]
    right
    rw [List.any_eq_false]
    intro r hr
    rw [h x hx r hr]
    simp
  rw [wants_append, hmore, Bool.or_false]

/-! ## The candidates as the records pass -/

/-- A match at or below the child lies in the subtree of the page's folder. -/
theorem PageRecord.subtree_of_hits (h : Indexes records paths) {r : PageRecord} (hr : r ∈ records)
    {x : ScanPageEntry} (hx : x ∈ children records request.folder)
    (hhits : r.hits rootPath filter filterRoot x = true) :
    r.inSubtreeOf request.folder = true ∧ ∃ f e, r = .entry f e := by
  cases r with
  | header f header => simp [PageRecord.hits, PageRecord.entry?] at hhits
  | entry f e =>
    refine ⟨?_, f, e, rfl⟩
    have hstarts : e.path.startsWith x.path = true ∧
        filter.selects rootPath filterRoot e.path = true := by
      simpa only [PageRecord.hits, PageRecord.entry?, Option.any_some, Bool.and_eq_true] using hhits
    exact direct_of_startsWith (h.direct _ x hx)
      (RelativePath.relativeParent_eq_some.mp (h.parents f e hr)) hstarts.1

/-- A record before the entries of the folder is no match below it. -/
theorem PageRecord.quiet_of_precedes (h : Indexes records paths) {r : PageRecord}
    (hr : r ∈ records) (hprecedes : r.precedesEntriesOf request.folder = true) :
    ∀ x ∈ children records request.folder, r.hits rootPath filter filterRoot x = false := by
  intro x hx
  rw [Bool.eq_false_iff]
  intro hhits
  obtain ⟨hsub, f, e, rfl⟩ := subtree_of_hits h hr hx hhits
  have hlt : f < request.folder := of_decide_eq_true hprecedes
  exact (RelativePath.le_of_startsWith hsub).not_gt hlt

/-- Past the subtree nothing matches below the folder any more. -/
theorem PageRecord.quiet_past (h : Indexes records paths) {r : PageRecord}
    {rest : List PageRecord} (hsub : ∀ r' ∈ r :: rest, r' ∈ records)
    (hsorted : SortedBy PageRecord.key (r :: rest))
    (hprecedes : r.precedesEntriesOf request.folder = false)
    (hout : r.inSubtreeOf request.folder = false) :
    ∀ x ∈ children records request.folder, ∀ r' ∈ r :: rest,
      r'.hits rootPath filter filterRoot x = false := by
  have hlt : request.folder < r.key.folder := by
    have hle : request.folder ≤ r.key.folder := by
      cases r with
      | header f header => exact (not_le.mp (of_decide_eq_false hprecedes)).le
      | entry f e => exact not_lt.mp (of_decide_eq_false hprecedes)
    refine lt_of_le_of_ne hle fun heq => ?_
    unfold PageRecord.inSubtreeOf at hout
    rw [← heq, RelativePath.startsWith_refl] at hout
    cases hout
  intro x hx r' hr'
  rw [Bool.eq_false_iff]
  intro hhits
  obtain ⟨hin, -⟩ := subtree_of_hits h (hsub r' hr') hx hhits
  have hle : r.key.folder ≤ r'.key.folder := PageKey.folder_le (hsorted.head_le hr')
  exact hle.not_gt (RelativePath.lt_of_startsWith_of_not hlt hout hin)

theorem length_kept (done : List PageRecord) :
    (request.kept rootPath filter filterRoot records done).length ≤ request.limit + 1 :=
  List.length_take_le _ _

/-- One more match leads to the child `c`. -/
theorem considerCandidate_kept (h : Indexes records paths) {done : List PageRecord} {r : PageRecord}
    {c : ScanPageEntry} (hc : c ∈ children records request.folder)
    (hhits : ∀ x ∈ children records request.folder,
      r.hits rootPath filter filterRoot x = decide (x = c)) :
    considerCandidate request (request.kept rootPath filter filterRoot records done) c =
      request.kept rootPath filter filterRoot records (done ++ [r]) := by
  have hsorted := sorted_children h.sorted request.folder
  have hsingle : ∀ x ∈ children records request.folder,
      request.wants rootPath filter filterRoot [r] x =
        ((request.after.all fun k => decide (k < PageCursor.fromEntry c)) && decide (x = c)) := by
    intro x hx
    unfold PageRequest.wants
    rw [List.any_cons, List.any_nil, Bool.or_false, hhits x hx]
    by_cases heq : x = c
    · rw [heq]
    · simp [heq]
  have hsame : (∀ x ∈ children records request.folder,
      request.wants rootPath filter filterRoot [r] x = true →
        request.wants rootPath filter filterRoot done x = true) →
      request.kept rootPath filter filterRoot records (done ++ [r]) =
        request.kept rootPath filter filterRoot records done := by
    intro himp
    unfold PageRequest.kept
    congr 1
    apply List.filter_congr
    intro x hx
    rw [wants_append]
    cases hw : request.wants rootPath filter filterRoot [r] x with
    | false => rw [Bool.or_false]
    | true => rw [himp x hx hw, Bool.or_true]
  have hafter : (request.after.any fun after => !isAfterCursor c after) =
      !(request.after.all fun k => decide (k < PageCursor.fromEntry c)) := by
    cases request.after with
    | none => rfl
    | some k => simp [isAfterCursor_eq]
  unfold considerCandidate
  rw [hafter]
  cases hok : request.after.all fun k => decide (k < PageCursor.fromEntry c) with
  | false =>
    rw [if_pos Bool.not_false, hsame]
    intro x hx hw
    rw [hsingle x hx, hok, Bool.false_and] at hw
    cases hw
  | true =>
    rw [if_neg (by simp)]
    have hwants : ∀ x ∈ children records request.folder,
        request.wants rootPath filter filterRoot [r] x = decide (x = c) := by
      intro x hx
      rw [hsingle x hx, hok, Bool.true_and]
    cases hdone : request.wants rootPath filter filterRoot done c with
    | true =>
      -- `c` was met before: it is kept, or lies beyond the limit
      have hmem : c ∈ (children records request.folder).filter
          (request.wants rootPath filter filterRoot done) := List.mem_filter.mpr ⟨hc, hdone⟩
      rw [hsame]
      · split
        · rfl
        · rename_i hnew
          rw [keepCandidate_eq (length_kept done)]
          refine Paging.keep_again hsorted hmem ?_
          intro hkept
          refine hnew (List.any_eq_true.mpr ⟨c, hkept, ?_⟩)
          exact decide_eq_true rfl
      · intro x hx hw
        rw [hwants x hx] at hw
        rwa [of_decide_eq_true hw]
    | false =>
      rw [if_neg]
      · rw [keepCandidate_eq (length_kept done)]
        unfold PageRequest.kept
        rw [Paging.keep_insert hsorted hc hdone]
        congr 1
        apply List.filter_congr
        intro x hx
        rw [wants_append, hwants x hx]
        congr 1
        refine decide_eq_decide.mpr ⟨?_, fun heq => by rw [heq]⟩
        exact fun heq => List.inj_on_of_nodup_map hsorted.nodup_keys hx hc heq
      · intro hany
        obtain ⟨x, hx, hpath⟩ := List.any_eq_true.mp hany
        obtain ⟨hx, hw⟩ := List.mem_filter.mp (List.mem_of_mem_take hx)
        rw [h.entry_unique hx hc (of_decide_eq_true hpath), hdone] at hw
        cases hw

/-- The loop keeps the first of the matched children. -/
theorem readFilteredFrom_eq (h : Indexes records paths) {done rest : List PageRecord}
    (hsplit : records = done ++ rest) :
    readFilteredFrom records request rootPath filter filterRoot rest
        (request.kept rootPath filter filterRoot records done) =
      .ok (request.kept rootPath filter filterRoot records records) := by
  induction rest generalizing done with
  | nil =>
    rw [List.append_nil] at hsplit
    unfold readFilteredFrom
    rw [← hsplit]
  | cons r rest ih =>
    have hnext : records = (done ++ [r]) ++ rest := by
      rw [hsplit, List.append_assoc, List.singleton_append]
    have hsub : ∀ r' ∈ r :: rest, r' ∈ records := by
      intro r' hr'
      rw [hsplit]
      exact List.mem_append_right done hr'
    have hr : r ∈ records := hsub r List.mem_cons_self
    have hquiet : (∀ x ∈ children records request.folder,
        r.hits rootPath filter filterRoot x = false) →
        readFilteredFrom records request rootPath filter filterRoot rest
          (request.kept rootPath filter filterRoot records done) =
          .ok (request.kept rootPath filter filterRoot records records) := by
      intro hno
      rw [← ih hnext, kept_quiet]
      intro x hx r' hr'
      rw [List.mem_singleton.mp hr']
      exact hno x hx
    unfold readFilteredFrom
    by_cases hprecedes : r.precedesEntriesOf request.folder = true
    · rw [if_pos hprecedes]
      exact hquiet (PageRecord.quiet_of_precedes h hr hprecedes)
    rw [if_neg hprecedes]
    cases hin : r.inSubtreeOf request.folder with
    | false =>
      have hsorted : SortedBy PageRecord.key (r :: rest) := by
        have hall := h.sorted
        rw [hsplit] at hall
        exact hall.sublist (List.sublist_append_right _ _)
      have hall : request.kept rootPath filter filterRoot records records =
          request.kept rootPath filter filterRoot records done := by
        conv_lhs => arg 6; rw [hsplit]
        exact kept_quiet
          (PageRecord.quiet_past h hsub hsorted (Bool.eq_false_iff.mpr hprecedes) hin)
      simp [hall]
    | true =>
      cases r with
      | header f header =>
        simp only [Bool.not_true, Bool.false_eq_true, if_false]
        exact hquiet fun x _ => rfl
      | entry f e =>
        simp only [Bool.not_true, Bool.false_eq_true, if_false]
        obtain ⟨c, hc, hcandidate, hpath⟩ := candidateFor_eq h hr hin
        have hstarts : e.intoPageEntry.path.startsWith request.folder = true := by
          refine RelativePath.startsWith_trans hpath ?_
          exact (Bool.and_eq_true_iff.mp (h.direct _ c hc)).2
        rw [if_neg (by simp [hstarts])]
        cases hselects : filter.selects rootPath filterRoot e.intoPageEntry.path with
        | false =>
          rw [if_pos Bool.not_false]
          refine hquiet fun x _ => ?_
          have hno : filter.selects rootPath filterRoot e.path = false := hselects
          simp [PageRecord.hits, PageRecord.entry?, hno]
        | true =>
          rw [if_neg (by simp), hcandidate]
          dsimp only [Except.bind]
          rw [considerCandidate_kept h hc]
          · exact ih hnext
          · intro x hx
            have hyes : filter.selects rootPath filterRoot e.path = true := hselects
            simp only [PageRecord.hits, PageRecord.entry?, Option.any_some, hyes, Bool.and_true]
            rw [Bool.eq_iff_iff, decide_eq_true_eq]
            constructor
            · intro hx'
              exact h.entry_unique hx hc (direct_unique (h.direct _ x hx) (h.direct _ c hc) hx' hpath)
            · rintro rfl
              exact hpath

/-- The children that match, or have a match below them. -/
def matching (records : List PageRecord) (folder : RelativePath) (rootPath : NativePath)
    (filter : FilterPattern) (filterRoot : RelativePath) : List ScanPageEntry :=
  (children records folder).filter fun x =>
    records.any fun r => r.hits rootPath filter filterRoot x

theorem readFilteredPageEntries_eq (h : Indexes records paths) (hlimit : 0 < request.limit) :
    readFilteredPageEntries records request rootPath filter filterRoot =
      .ok (Paging.pageOf PageCursor.fromEntry
        (matching records request.folder rootPath filter filterRoot) request.after
        request.limit) := by
  have hstart : request.kept rootPath filter filterRoot records [] = [] := by
    unfold PageRequest.kept PageRequest.wants
    simp
  have hloop : readFilteredFrom records request rootPath filter filterRoot records [] =
      .ok (request.kept rootPath filter filterRoot records records) := by
    rw [← hstart]
    exact readFilteredFrom_eq h rfl
  have hrest : (children records request.folder).filter
      (request.wants rootPath filter filterRoot records) =
      Paging.rest PageCursor.fromEntry
        (matching records request.folder rootPath filter filterRoot) request.after := by
    unfold Paging.rest matching
    rw [List.filter_filter]
    rfl
  unfold readFilteredPageEntries Paging.pageOf
  rw [hloop]
  unfold PageRequest.kept
  rw [hrest]
  generalize Paging.rest PageCursor.fromEntry
    (matching records request.folder rootPath filter filterRoot) request.after = l
  have hmore : (l.take (request.limit + 1)).length > request.limit ↔ request.limit < l.length := by
    rw [List.length_take]
    omega
  have hlast : request.limit < l.length →
      (l.take (request.limit + 1))[request.limit - 1]? = (l.take request.limit).getLast? := by
    intro hlt
    rw [List.getLast?_eq_getElem?, List.length_take, Nat.min_eq_left hlt.le,
      List.getElem?_take_of_lt (by omega), List.getElem?_take_of_lt (by omega)]
  simp only [Except.map, hmore, List.take_take, Nat.min_eq_left (Nat.le_succ request.limit)]
  split
  · rename_i hlt
    rw [hlast hlt]
  · rfl

/-- A child is listed when it is a match or holds one. -/
theorem matching_paths (h : Indexes records paths) (folder path : RelativePath) :
    path ∈ (matching records folder rootPath filter filterRoot).map ScanPageEntry.path ↔
      (path.isDirectChildOf folder = true ∧ ∃ o ∈ paths, o.path = path) ∧
        ∃ o ∈ paths, o.path.startsWith path = true ∧
          filter.selects rootPath filterRoot o.path = true := by
  rw [← h.children_paths folder path]
  have hhits : ∀ x : ScanPageEntry,
      (records.any fun r => r.hits rootPath filter filterRoot x) = true ↔
        ∃ o ∈ paths, o.path.startsWith x.path = true ∧
          filter.selects rootPath filterRoot o.path = true := by
    intro x
    rw [List.any_eq_true]
    constructor
    · rintro ⟨r, hr, hrx⟩
      cases r with
      | header f header => cases hrx
      | entry f e =>
        refine ⟨e.observation, h.mem_paths hr, ?_⟩
        simpa only [PageRecord.hits, PageRecord.entry?, Option.any_some, Bool.and_eq_true] using hrx
    · rintro ⟨o, ho, hox⟩
      obtain ⟨f, e, he, rfl⟩ := h.entry_of_path ho
      refine ⟨_, he, ?_⟩
      simpa only [PageRecord.hits, PageRecord.entry?, Option.any_some, Bool.and_eq_true] using hox
  unfold matching
  constructor
  · intro hmem
    obtain ⟨x, hx, rfl⟩ := List.mem_map.mp hmem
    obtain ⟨hx, hsome⟩ := List.mem_filter.mp hx
    exact ⟨List.mem_map_of_mem hx, (hhits x).mp hsome⟩
  · rintro ⟨hmem, hsome⟩
    obtain ⟨x, hx, rfl⟩ := List.mem_map.mp hmem
    exact List.mem_map_of_mem (List.mem_filter.mpr ⟨hx, (hhits x).mpr hsome⟩)

end Matching

/-! ## Listing a folder under a filter -/

/-- Filtered requests that only move the cursor and the limit. -/
def PublishedGeneration.filteredPages (p : PublishedGeneration) (rootPath : NativePath)
    (filter : FilterPattern) (filterRoot folder : RelativePath) (after : Option PageCursor)
    (limit : Nat) : Except ScanPageError ScanPage :=
  p.filteredPage ⟨folder, after, limit⟩ rootPath filter filterRoot

theorem reads_filteredPages {p : PublishedGeneration} {paths : List PathObservation}
    (h : Indexes p.childQueries.records paths) {folder : RelativePath}
    (hfolder : IsFolder paths folder) (rootPath : NativePath) (filter : FilterPattern)
    (filterRoot : RelativePath) :
    Paging.Reads PageCursor.fromEntry
      (matching p.childQueries.records folder rootPath filter filterRoot)
      (p.filteredPages rootPath filter filterRoot folder) ScanPage.entries ScanPage.nextAfter
      (fun limit => 0 < limit ∧ limit ≤ maxPageEntries) := by
  obtain ⟨header, hheader⟩ := h.headers folder hfolder
  have hread := readHeaderFromRun_eq h.sorted hheader
  have hpage : ∀ after limit, validatePageRequest ⟨folder, after, limit⟩ = .ok () →
      p.filteredPages rootPath filter filterRoot folder after limit =
        .ok (p.scanPage ⟨folder, after, limit⟩ header (Paging.pageOf PageCursor.fromEntry
          (matching p.childQueries.records folder rootPath filter filterRoot) after limit)) := by
    intro after limit hvalid
    have hentries : readFilteredPageEntries p.childQueries.records ⟨folder, after, limit⟩ rootPath
        filter filterRoot = .ok (Paging.pageOf PageCursor.fromEntry
          (matching p.childQueries.records folder rootPath filter filterRoot) after limit) :=
      readFilteredPageEntries_eq h (validatePageRequest_ok hvalid).1
    unfold PublishedGeneration.filteredPages PublishedGeneration.filteredPage
    rw [hvalid]
    simp only [Except.bind, hread, hentries, Except.map]
  have hdirect : ∀ x ∈ matching p.childQueries.records folder rootPath filter filterRoot,
      x.path.isDirectChildOf folder = true := by
    intro x hx
    exact h.direct folder x (List.mem_of_mem_filter hx)
  refine ⟨?_, ?_⟩
  · intro after limit page _ hok
    cases hvalid : validatePageRequest ⟨folder, after, limit⟩ with
    | error e =>
      unfold PublishedGeneration.filteredPages PublishedGeneration.filteredPage at hok
      rw [hvalid] at hok
      cases hok
    | ok u =>
      rw [hpage after limit hvalid] at hok
      cases hok
      rfl
  · intro after limit hcursor hlimit
    exact ⟨_, hpage after limit (validatePageRequest_of_cursor hlimit hdirect hcursor)⟩

theorem sorted_matching {records : List PageRecord} (hsorted : SortedBy PageRecord.key records)
    (folder : RelativePath) (rootPath : NativePath) (filter : FilterPattern)
    (filterRoot : RelativePath) :
    SortedBy PageCursor.fromEntry (matching records folder rootPath filter filterRoot) :=
  (sorted_children hsorted folder).sublist List.filter_sublist

/-- What a filtered walk lists, entry by entry. -/
theorem walked_matching {p : PublishedGeneration} {paths : List PathObservation}
    (h : Indexes p.childQueries.records paths) {folder : RelativePath}
    (hfolder : IsFolder paths folder) {rootPath : NativePath} {filter : FilterPattern}
    {filterRoot : RelativePath} {limits : Nat → Nat} (hpos : ∀ i, 0 < limits i)
    {pages : List ScanPage}
    (hwalk : Paging.Walk (p.filteredPages rootPath filter filterRoot folder) ScanPage.nextAfter
      limits 0 none pages) :
    pages.flatMap ScanPage.entries =
        matching p.childQueries.records folder rootPath filter filterRoot ∧
      ∀ i page, pages[i]? = some page → page.entries.length ≤ limits i := by
  have hstart : Paging.IsCursor PageCursor.fromEntry
      (matching p.childQueries.records folder rootPath filter filterRoot) none := by
    simp [Paging.IsCursor]
  obtain ⟨hlists, hlengths⟩ := hwalk.lists (sorted_matching h.sorted folder rootPath filter filterRoot)
    (reads_filteredPages h hfolder rootPath filter filterRoot) hpos hstart
  rw [Paging.rest_none] at hlists
  refine ⟨hlists, fun i page hget => ?_⟩
  have hlength := hlengths i page hget
  rwa [Nat.zero_add] at hlength

/-- In every published generation of every session, following the cursors of a filtered folder
with any limits ends, and lists the recorded children that match or hold a match, each once and in
the order of the unfiltered page. -/
theorem filtered_pagination_complete (session : ScanSessionId) (generation : ScanGeneration)
    (calls : List StoreCall) (p : PublishedGeneration)
    (hp : (ScanStore.machine.run (ScanStore.new session generation) calls).published = some p) :
    ∃ a paths, PublishesInto a p ∧ PathsOf a paths ∧
      ∀ (rootPath : NativePath) (filter : FilterPattern) (filterRoot folder : RelativePath),
        IsFolder paths folder → ∀ limits : Nat → Nat, (∀ i, 0 < limits i) →
        ((∀ i, limits i ≤ maxPageEntries) →
          ∃ pages, Paging.Walk (p.filteredPages rootPath filter filterRoot folder)
            ScanPage.nextAfter limits 0 none pages) ∧
        ∀ pages, Paging.Walk (p.filteredPages rootPath filter filterRoot folder)
            ScanPage.nextAfter limits 0 none pages →
          (∀ path, path ∈ (pages.flatMap ScanPage.entries).map ScanPageEntry.path ↔
            (path.isDirectChildOf folder = true ∧ ∃ o ∈ paths, o.path = path) ∧
              ∃ o ∈ paths, o.path.startsWith path = true ∧
                filter.selects rootPath filterRoot o.path = true) ∧
          ((pages.flatMap ScanPage.entries).map ScanPageEntry.path).Nodup ∧
          (pages.flatMap ScanPage.entries).Pairwise PageOrder ∧
          (pages.flatMap ScanPage.entries).Sublist (children p.childQueries.records folder) ∧
          ∀ i page, pages[i]? = some page → page.entries.length ≤ limits i := by
  obtain ⟨a, paths, hinto, hpaths, hindex⟩ :=
    ScanStore.published_indexes session generation calls hp
  refine ⟨a, paths, hinto, hpaths, ?_⟩
  intro rootPath filter filterRoot folder hfolder limits hpos
  have hsub : (matching p.childQueries.records folder rootPath filter filterRoot).Sublist
      (children p.childQueries.records folder) := List.filter_sublist
  have hsorted := sorted_matching hindex.sorted folder rootPath filter filterRoot
  have hreads := reads_filteredPages hindex hfolder rootPath filter filterRoot
  have hstart : Paging.IsCursor PageCursor.fromEntry
      (matching p.childQueries.records folder rootPath filter filterRoot) none := by
    simp [Paging.IsCursor]
  refine ⟨?_, ?_⟩
  · intro hmax
    exact Paging.walk_exists hsorted hreads (fun i => ⟨hpos i, hmax i⟩) hpos 0 hstart
  · intro pages hwalk
    obtain ⟨hlists, hlengths⟩ := walked_matching hindex hfolder hpos hwalk
    rw [hlists]
    exact ⟨matching_paths hindex folder, (hindex.nodup_paths folder).sublist (hsub.map _),
      hsorted.imp fun hlt => pageOrder_iff.mpr hlt, hsub, hlengths⟩

/-- Selects what is named `a`, wherever it lies. -/
def namedA : FilterPattern := ⟨fun path _ => path.getLast? = some [97]⟩

/-- The scanned tree under a filter, one entry to a page: `a` matches, the folder `b` holds two
matches, and `c` and what else lies below `b` do not match. -/
theorem filtered_pagination_complete_linkedScan :
    ∃ p, (ScanStore.machine.run (ScanStore.new ⟨0⟩ ⟨0⟩)
        (linkedScan ++ [.publish Io.none])).published = some p ∧
      ∃ pages, Paging.Walk (p.filteredPages [] namedA .root .root) ScanPage.nextAfter (fun _ => 1) 0
          none pages ∧
        (pages.flatMap ScanPage.entries).map ScanPageEntry.path = [⟨[nameB]⟩, ⟨[nameA]⟩] ∧
        (pages.flatMap ScanPage.entries).Pairwise PageOrder ∧
        ∀ page ∈ pages, page.entries.length ≤ 1 := by
  obtain ⟨p, hp, hrecords, -⟩ := published_linkedScan
  obtain ⟨_, _, -, -, hpages⟩ := filtered_pagination_complete ⟨0⟩ ⟨0⟩ _ p hp
  obtain ⟨hexists, hlists⟩ :=
    hpages [] namedA .root .root (Or.inl rfl) (fun _ => 1) fun _ => Nat.one_pos
  obtain ⟨pages, hwalk⟩ := hexists fun _ => by decide
  obtain ⟨-, -, horder, -, hlengths⟩ := hlists pages hwalk
  have hlimit : ∀ page ∈ pages, page.entries.length ≤ 1 := by
    intro page hpage
    obtain ⟨i, hget⟩ := List.mem_iff_getElem?.mp hpage
    exact hlengths i page hget
  refine ⟨p, hp, pages, hwalk, ?_, horder, hlimit⟩
  obtain ⟨-, paths, -, -, hindex⟩ := ScanStore.published_indexes ⟨0⟩ ⟨0⟩ _ hp
  rw [(walked_matching hindex (Or.inl rfl) (fun _ => Nat.one_pos) hwalk).1, hrecords]
  decide +kernel

end Excise
