import Excise.Lib.Maps
import Excise.Store.FilteredPages

/-!
# The live page of a folder

`ProvisionalPage` of `page.rs`: at most `limit` direct children of a folder, each with what was
observed of it since it was last taken in. A page that never had to drop a child shows the sums of
all observations, in whatever order they came.
-/

namespace Excise
set_option autoImplicit false

/-- `merge_metrics`. -/
def SummaryMetrics.merge (m source : SummaryMetrics) : SummaryMetrics where
  apparentBytes := satAdd byteBits m.apparentBytes source.apparentBytes
  allocatedBytes := m.allocatedBytes.add source.allocatedBytes
  reclaimableBytes := m.reclaimableBytes.add source.reclaimableBytes
  descendants := satAdd 64 m.descendants source.descendants

structure ProvisionalEntry where
  kind : PathEntryKind
  metrics : SummaryMetrics
  coverage : Coverage
  snapshot : Option EntrySnapshot

namespace ProvisionalEntry

def observe (entry : ProvisionalEntry) (o : PathObservation) (isDirect : Bool) : ProvisionalEntry :=
  if isDirect then
    { kind := o.kind
      metrics := entry.metrics.merge o.metrics
      coverage := entry.coverage.combine o.coverage
      snapshot := o.snapshot }
  else
    { entry with
      metrics := entry.metrics.addChild o.metrics
      coverage := entry.coverage.combine o.coverage }

/-- The entry `from_observation` starts with. -/
def empty : ProvisionalEntry := ⟨.Directory, .zero, .Complete, none⟩

def fromObservation (o : PathObservation) (isDirect : Bool) : ProvisionalEntry :=
  empty.observe o isDirect

def pageEntry (entry : ProvisionalEntry) (path : RelativePath) : ScanPageEntry :=
  if entry.kind = .Directory ∨ entry.snapshot = none then
    ⟨path, entry.kind, entry.metrics.openUpper, .Uncertain, entry.snapshot⟩
  else ⟨path, entry.kind, entry.metrics, entry.coverage, entry.snapshot⟩

end ProvisionalEntry

/-- The larger known allocation comes first, the path decides between equal ones. -/
def compareProvisionalEntries (left right : RelativePath × ProvisionalEntry) : Ordering :=
  (compare right.2.metrics.allocatedBytes.lower left.2.metrics.allocatedBytes.lower).then
    (compare left.1 right.1)

/-- `Iterator::max_by`: the last of the greatest. -/
def maxBy {α : Type} (cmp : α → α → Ordering) : List α → Option α
  | [] => none
  | a :: as => some (as.foldl (fun best x => if cmp best x = .gt then best else x) a)

structure ProvisionalPage where
  generation : ScanGeneration
  folder : RelativePath
  limit : Nat
  folderKind : Option PathEntryKind
  folderMetrics : SummaryMetrics
  rootMetrics : SummaryMetrics
  entries : Std.TreeMap RelativePath ProvisionalEntry

inductive LivePageError where
  | Page (error : ScanPageError)
  | LivePagePagination
  deriving DecidableEq, Repr

namespace ProvisionalPage

def new (generation : ScanGeneration) (request : PageRequest) : Except LivePageError ProvisionalPage :=
  match validatePageRequest request with
  | .error e => .error (.Page e)
  | .ok () =>
    if request.after.isSome then .error .LivePagePagination
    else .ok
      { generation := generation
        folder := request.folder
        limit := request.limit
        folderKind := if request.folder.isRoot then some .Directory else none
        folderMetrics := .zero
        rootMetrics := .zero
        entries := ∅ }

def insert (p : ProvisionalPage) (path : RelativePath) (entry : ProvisionalEntry) : ProvisionalPage :=
  if p.entries.size < p.limit then { p with entries := p.entries.insert path entry }
  else
    match maxBy compareProvisionalEntries p.entries.toList with
    | none => p
    | some worst =>
      if compareProvisionalEntries (path, entry) worst = .lt then
        { p with entries := (p.entries.erase worst.1).insert path entry }
      else p

/-- The entry of the direct child is updated, or taken in. -/
def observeChild (p : ProvisionalPage) (child : RelativePath) (o : PathObservation) :
    ProvisionalPage :=
  match p.entries[child]? with
  | some entry =>
    { p with entries := p.entries.insert child (entry.observe o (decide (child = o.path))) }
  | none => p.insert child (.fromObservation o (decide (child = o.path)))

def observe (p : ProvisionalPage) (o : PathObservation) : ProvisionalPage :=
  let p := { p with rootMetrics := p.rootMetrics.addChild o.metrics }
  if o.path = p.folder then
    { p with folderKind := some o.kind, folderMetrics := p.folderMetrics.merge o.metrics }
  else if !o.path.startsWith p.folder then p
  else
    let p := { p with folderMetrics := p.folderMetrics.addChild o.metrics }
    match directChildUnder p.folder o.path with
    | .ok child => p.observeChild child o
    | .error _ => p -- unreachable: a strict descendant has a direct child

def observeAll (p : ProvisionalPage) (observations : List PathObservation) : ProvisionalPage :=
  observations.foldl observe p

/-- The folder must be known to be one. -/
def checkFolder (p : ProvisionalPage) : Except ScanPageError Unit :=
  if p.folder.isRoot then .ok ()
  else
    match p.folderKind with
    | some .Directory => .ok ()
    | some .File | some .Link => .error .NotDirectory
    | none => .error .MissingFolder

def page (p : ProvisionalPage) (unrecordedPathCount : Nat) : Except ScanPageError ScanPage :=
  match p.checkFolder with
  | .error e => .error e
  | .ok () => .ok
    { generation := p.generation
      folder := p.folder
      folderMetrics := p.folderMetrics.openUpper
      folderCoverage := .Uncertain
      rootMetrics := p.rootMetrics.openUpper
      rootCoverage := .Uncertain
      entries := (p.entries.toList.map fun e => e.2.pageEntry e.1).mergeSort
        fun left right => (comparePageEntries left right).isLE
      nextAfter := none
      sharedAllocation := none
      unrecordedPathCount := unrecordedPathCount }

end ProvisionalPage

/-! ## What a child has been observed with -/

/-- The amounts of bytes a page shows of a child. -/
inductive Measure where
  | Apparent
  | Allocated
  | Reclaimable

/-- The amount that is known, the lower end of its bounds. -/
def SummaryMetrics.known (m : SummaryMetrics) : Measure → Nat
  | .Apparent => m.apparentBytes
  | .Allocated => m.allocatedBytes.lower
  | .Reclaimable => m.reclaimableBytes.lower

/-- The direct child of the folder that the path lies in or is. -/
def childOf (folder path : RelativePath) : Option RelativePath :=
  if path = folder then none
  else
    match directChildUnder folder path with
    | .ok child => some child
    | .error _ => none

def seen (folder child : RelativePath) (observations : List PathObservation) : List PathObservation :=
  observations.filter fun o => decide (childOf folder o.path = some child)

/-- The direct children that are touched. -/
def touched (folder : RelativePath) (observations : List PathObservation) : Finset RelativePath :=
  (observations.filterMap fun o => childOf folder o.path).toFinset

def observedBytes (measure : Measure) (folder child : RelativePath)
    (observations : List PathObservation) : Nat :=
  ((seen folder child observations).map fun o => o.metrics.known measure).sum

/-- The entry after these observations of the child and nothing else. -/
def collected (child : RelativePath) (observations : List PathObservation) : ProvisionalEntry :=
  observations.foldl (fun entry o => entry.observe o (decide (child = o.path))) .empty

theorem mem_touched {folder child : RelativePath} {observations : List PathObservation} :
    child ∈ touched folder observations ↔ seen folder child observations ≠ [] := by
  unfold touched seen
  rw [List.mem_toFinset, List.mem_filterMap, Ne, List.filter_eq_nil_iff]
  simp

theorem seen_snoc (folder child : RelativePath) (observations : List PathObservation)
    (o : PathObservation) :
    seen folder child (observations ++ [o]) =
      if childOf folder o.path = some child then seen folder child observations ++ [o]
      else seen folder child observations := by
  unfold seen
  rw [List.filter_append]
  split
  · rename_i h
    rw [List.filter_singleton, h]
    simp
  · rename_i h
    rw [List.filter_singleton, decide_eq_false h]
    simp

theorem touched_snoc (folder : RelativePath) (observations : List PathObservation)
    (o : PathObservation) :
    touched folder (observations ++ [o]) =
      touched folder observations ∪ (childOf folder o.path).toFinset := by
  unfold touched
  rw [List.filterMap_append, List.toFinset_append]
  congr 1
  cases h : childOf folder o.path <;> simp [h]

theorem collected_snoc (child : RelativePath) (observations : List PathObservation)
    (o : PathObservation) :
    collected child (observations ++ [o]) =
      (collected child observations).observe o (decide (child = o.path)) := by
  rw [collected, List.foldl_append]
  rfl

theorem observe_known (entry : ProvisionalEntry) (o : PathObservation) (isDirect : Bool)
    (measure : Measure) :
    (entry.observe o isDirect).metrics.known measure =
      satAdd byteBits (entry.metrics.known measure) (o.metrics.known measure) := by
  cases isDirect <;> cases measure <;> rfl

/-- The bytes of an entry are the saturating sum of what it has observed. -/
theorem collected_known (child : RelativePath) (observations : List PathObservation)
    (measure : Measure) :
    (collected child observations).metrics.known measure =
      min (observations.map fun o => o.metrics.known measure).sum (satMax byteBits) := by
  have hfold : (collected child observations).metrics.known measure =
      observations.foldl (fun sum o => satAdd byteBits sum (o.metrics.known measure)) 0 := by
    induction observations using List.reverseRecOn with
    | nil => cases measure <;> rfl
    | append_singleton observations o ih =>
      rw [collected_snoc, observe_known, ih, List.foldl_append]
      rfl
  rw [hfold, foldl_satAdd _ _ (Nat.zero_le _), Nat.zero_add]

/-! ## One observation -/

theorem maxBy_mem {α : Type} {cmp : α → α → Ordering} {l : List α} {a : α}
    (h : maxBy cmp l = some a) : a ∈ l := by
  have hfold : ∀ (as : List α) (b : α),
      as.foldl (fun best x => if cmp best x = .gt then best else x) b ∈ b :: as := by
    intro as
    induction as with
    | nil => exact fun b => List.mem_cons_self
    | cons x as ih =>
      intro b
      rw [List.foldl_cons]
      split
      · rcases List.mem_cons.mp (ih b) with h | h
        · rw [h]
          exact List.mem_cons_self
        · exact List.mem_cons_of_mem _ (List.mem_cons_of_mem _ h)
      · exact List.mem_cons_of_mem _ (ih x)
  cases l with
  | nil => cases h
  | cons b as =>
    obtain rfl := Option.some.inj h
    exact hfold as b

namespace ProvisionalPage

variable {p : ProvisionalPage}

theorem insert_kept (p : ProvisionalPage) (path : RelativePath) (entry : ProvisionalEntry) :
    (p.insert path entry).folder = p.folder ∧ (p.insert path entry).limit = p.limit := by
  unfold insert
  split
  · exact ⟨rfl, rfl⟩
  split
  · exact ⟨rfl, rfl⟩
  split <;> exact ⟨rfl, rfl⟩

theorem observeChild_kept (p : ProvisionalPage) (child : RelativePath) (o : PathObservation) :
    (p.observeChild child o).folder = p.folder ∧ (p.observeChild child o).limit = p.limit := by
  unfold observeChild
  split
  · exact ⟨rfl, rfl⟩
  · exact insert_kept p child _

/-- An entry that is not held already is taken in, takes the place of another, or is dropped. -/
theorem insert_entries {path : RelativePath} {entry : ProvisionalEntry} (hfresh : path ∉ p.entries) :
    (p.entries.size < p.limit ∧ (p.insert path entry).entries = p.entries.insert path entry) ∨
      (p.limit ≤ p.entries.size ∧ ((p.insert path entry).entries = p.entries ∨
        ∃ worst ∈ p.entries, worst ≠ path ∧
          (p.insert path entry).entries = (p.entries.erase worst).insert path entry)) := by
  unfold insert
  split
  · rename_i hroom
    exact Or.inl ⟨hroom, rfl⟩
  · rename_i hfull
    refine Or.inr ⟨not_lt.mp hfull, ?_⟩
    split
    · exact Or.inl rfl
    · rename_i worst hworst
      split
      · refine Or.inr ⟨worst.1, ?_, ?_, rfl⟩
        · have hmem := Std.TreeMap.mem_toList_iff_getElem?_eq_some.mp (maxBy_mem hworst)
          exact (Maps.mem_iff _ _).mpr ⟨_, hmem⟩
        · rintro rfl
          have hmem := Std.TreeMap.mem_toList_iff_getElem?_eq_some.mp (maxBy_mem hworst)
          exact hfresh ((Maps.mem_iff _ _).mpr ⟨_, hmem⟩)
      · exact Or.inl rfl

/-- What an observation does to the entries: nothing, or what it does to one child. -/
theorem observe_spec (p : ProvisionalPage) (o : PathObservation) :
    (p.observe o).folder = p.folder ∧ (p.observe o).limit = p.limit ∧
      match childOf p.folder o.path with
      | none => (p.observe o).entries = p.entries
      | some child => ∃ q : ProvisionalPage, q.entries = p.entries ∧ q.folder = p.folder ∧
          q.limit = p.limit ∧ p.observe o = q.observeChild child o := by
  unfold observe childOf
  dsimp only
  split
  · exact ⟨rfl, rfl, rfl⟩
  · split
    · rename_i hbelow
      have hunder : directChildUnder p.folder o.path = .error .Malformed := by
        unfold directChildUnder
        rw [if_pos (by rw [hbelow, Bool.true_or])]
      rw [hunder]
      exact ⟨rfl, rfl, rfl⟩
    · cases hunder : directChildUnder p.folder o.path with
      | error e => exact ⟨rfl, rfl, rfl⟩
      | ok child =>
        obtain ⟨hfolder, hlimit⟩ := observeChild_kept
          { p with
            rootMetrics := p.rootMetrics.addChild o.metrics
            folderMetrics := p.folderMetrics.addChild o.metrics } child o
        exact ⟨hfolder, hlimit,
          { p with
            rootMetrics := p.rootMetrics.addChild o.metrics
            folderMetrics := p.folderMetrics.addChild o.metrics }, rfl, rfl, rfl, rfl⟩

/-! ## Every run of observations -/

theorem insert_folderKind (p : ProvisionalPage) (path : RelativePath) (entry : ProvisionalEntry) :
    (p.insert path entry).folderKind = p.folderKind := by
  unfold insert
  split
  · rfl
  split
  · rfl
  split <;> rfl

theorem observe_folderKind (p : ProvisionalPage) (o : PathObservation) :
    (p.observe o).folderKind = if o.path = p.folder then some o.kind else p.folderKind := by
  unfold observe
  dsimp only
  split
  · rfl
  split
  · rfl
  split
  · unfold observeChild
    split
    · rfl
    · exact insert_folderKind _ _ _
  · rfl

/-- The page holds no more than its limit, and each entry is what the last of the observations of
its child have made it. -/
structure Holds (p : ProvisionalPage) (observations : List PathObservation) : Prop where
  bounded : p.entries.size ≤ p.limit
  recent : ∀ child entry, p.entries[child]? = some entry →
    ∃ s, s ≠ [] ∧ s <:+ seen p.folder child observations ∧ entry = collected child s

/-- The page holds every touched child with all its observations. -/
def Complete (p : ProvisionalPage) (observations : List PathObservation) : Prop :=
  ∀ child, p.entries[child]? =
    if seen p.folder child observations = [] then none
    else some (collected child (seen p.folder child observations))

theorem Holds.observeChild {q : ProvisionalPage} {observations : List PathObservation}
    {child : RelativePath} {o : PathObservation} (h : Holds q observations)
    (hchild : childOf q.folder o.path = some child) :
    Holds (q.observeChild child o) (observations ++ [o]) := by
  obtain ⟨hfolder, hlimit⟩ := observeChild_kept q child o
  have hseen : seen q.folder child (observations ++ [o]) = seen q.folder child observations ++ [o] := by
    rw [seen_snoc, if_pos hchild]
  have hother (c : RelativePath) (hc : c ≠ child) :
      seen q.folder c (observations ++ [o]) = seen q.folder c observations := by
    rw [seen_snoc, if_neg]
    rw [hchild]
    exact fun heq => hc (Option.some.inj heq).symm
  -- entries of other children stay or go; the child's own entry is new or one observation longer
  have hrecent (entries : Std.TreeMap RelativePath ProvisionalEntry)
      (hkeep : ∀ c e, c ≠ child → entries[c]? = some e → q.entries[c]? = some e)
      (hown : ∀ e, entries[child]? = some e →
        ∃ s, s ≠ [] ∧ s <:+ seen q.folder child observations ++ [o] ∧ e = collected child s) :
      ∀ c e, entries[c]? = some e →
        ∃ s, s ≠ [] ∧ s <:+ seen q.folder c (observations ++ [o]) ∧ e = collected c s := by
    intro c e he
    by_cases hc : c = child
    · subst hc
      rw [hseen]
      exact hown e he
    · rw [hother c hc]
      exact h.recent c e (hkeep c e hc he)
  refine ⟨?_, fun c e he => ?_⟩
  · rw [hlimit]
    unfold ProvisionalPage.observeChild
    cases hheld : q.entries[child]? with
    | some entry =>
      rw [Maps.size_insert_of_mem ((Maps.mem_iff _ _).mpr ⟨_, hheld⟩)]
      exact h.bounded
    | none =>
      have hfresh := (Maps.not_mem_iff _ _).mpr hheld
      rcases insert_entries hfresh with ⟨hroom, hentries⟩ | ⟨-, hentries | ⟨worst, hworst, hne, hentries⟩⟩
      · rw [hentries, Maps.size_insert_of_not_mem hfresh]
        exact hroom
      · rw [hentries]
        exact h.bounded
      · have herase := Maps.size_erase_of_mem hworst
        have hgone : child ∉ q.entries.erase worst := by
          rw [Maps.not_mem_iff, Maps.getElem?_erase, if_neg hne]
          exact hheld
        rw [hentries, Maps.size_insert_of_not_mem hgone, herase]
        exact h.bounded
  · rw [hfolder]
    revert he
    unfold ProvisionalPage.observeChild
    cases hheld : q.entries[child]? with
    | some entry =>
      refine hrecent _ (fun c e hc he => ?_) (fun e he => ?_) c e
      · rwa [Maps.getElem?_insert, if_neg (Ne.symm hc)] at he
      · obtain ⟨s, hne, hsuffix, hentry⟩ := h.recent child entry hheld
        rw [Maps.getElem?_insert, if_pos rfl] at he
        obtain rfl := Option.some.inj he
        refine ⟨s ++ [o], by simp, ?_, ?_⟩
        · obtain ⟨t, ht⟩ := hsuffix
          exact ⟨t, by rw [← ht, List.append_assoc]⟩
        · rw [collected_snoc, hentry]
    | none =>
      have hfresh := (Maps.not_mem_iff _ _).mpr hheld
      have hnew (e : ProvisionalEntry) (he : some (.fromObservation o (decide (child = o.path))) = some e) :
          ∃ s, s ≠ [] ∧ s <:+ seen q.folder child observations ++ [o] ∧ e = collected child s := by
        obtain rfl := Option.some.inj he
        exact ⟨[o], by simp, List.suffix_append _ _, rfl⟩
      rcases insert_entries hfresh with ⟨-, hentries⟩ | ⟨-, hentries | ⟨worst, -, -, hentries⟩⟩
      · refine hrecent _ (fun c e hc he => ?_) (fun e he => ?_) c e
        · rwa [hentries, Maps.getElem?_insert, if_neg (Ne.symm hc)] at he
        · rw [hentries, Maps.getElem?_insert, if_pos rfl] at he
          exact hnew e he
      · refine hrecent _ (fun c e hc he => ?_) (fun e he => ?_) c e
        · rwa [hentries] at he
        · rw [hentries, hheld] at he
          cases he
      · refine hrecent _ (fun c e hc he => ?_) (fun e he => ?_) c e
        · rw [hentries, Maps.getElem?_insert, if_neg (Ne.symm hc), Maps.getElem?_erase] at he
          split at he
          · cases he
          · exact he
        · rw [hentries, Maps.getElem?_insert, if_pos rfl] at he
          exact hnew e he

/-- The step lemma. -/
theorem Holds.observe {observations : List PathObservation} (h : Holds p observations)
    (o : PathObservation) : Holds (p.observe o) (observations ++ [o]) := by
  obtain ⟨hfolder, hlimit, hspec⟩ := observe_spec p o
  cases hchild : childOf p.folder o.path with
  | none =>
    rw [hchild] at hspec
    refine ⟨?_, fun child entry he => ?_⟩
    · rw [hlimit, hspec]
      exact h.bounded
    · rw [hspec] at he
      rw [hfolder, seen_snoc, hchild, if_neg (by simp)]
      exact h.recent child entry he
  | some child =>
    rw [hchild] at hspec
    obtain ⟨q, hentries, hqfolder, hqlimit, hobserve⟩ := hspec
    have hq : Holds q observations := by
      refine ⟨by rw [hentries, hqlimit]; exact h.bounded, fun c e he => ?_⟩
      rw [hentries] at he
      rw [hqfolder]
      exact h.recent c e he
    rw [hobserve]
    exact hq.observeChild (by rw [hqfolder]; exact hchild)

theorem Complete.size {observations : List PathObservation} (h : Complete p observations) :
    p.entries.size = (touched p.folder observations).card := by
  have hkeys : p.entries.keys.toFinset = touched p.folder observations := by
    ext child
    rw [List.mem_toFinset, Std.TreeMap.mem_keys, mem_touched, Maps.mem_iff, h child]
    split
    · rename_i hnil
      simp [hnil]
    · rename_i hne
      simp [hne]
  rw [← hkeys, List.toFinset_card_of_nodup Std.TreeMap.nodup_keys, Std.TreeMap.length_keys]

theorem Complete.observe {observations : List PathObservation} (h : Complete p observations)
    {o : PathObservation} (hlimit : (touched p.folder (observations ++ [o])).card ≤ p.limit) :
    Complete (p.observe o) (observations ++ [o]) := by
  obtain ⟨hfolder, -, hspec⟩ := observe_spec p o
  intro c
  rw [hfolder, seen_snoc]
  cases hchild : childOf p.folder o.path with
  | none =>
    rw [hchild] at hspec
    simp only [hspec, reduceCtorEq, if_false]
    exact h c
  | some child =>
    rw [hchild] at hspec
    obtain ⟨q, hentries, hqfolder, hqlimit, hobserve⟩ := hspec
    rw [hobserve]
    unfold observeChild
    have hq : q.entries[child]? = _ := (congrArg (·[child]?) hentries).trans (h child)
    by_cases hseen : seen p.folder child observations = []
    · -- a new child: there is room for it
      rw [if_pos hseen] at hq
      rw [hq]
      have hfresh := (Maps.not_mem_iff _ _).mpr hq
      have hroom : q.entries.size < q.limit := by
        rw [hentries, h.size, hqlimit]
        rw [touched_snoc, hchild] at hlimit
        have hnot : child ∉ touched p.folder observations := fun hmem => mem_touched.mp hmem hseen
        have hcard : (touched p.folder observations ∪ {child}).card =
            (touched p.folder observations).card + 1 := by
          rw [Finset.union_comm, ← Finset.insert_eq, Finset.card_insert_of_notMem hnot]
        rw [show (some child).toFinset = {child} from rfl, hcard] at hlimit
        exact hlimit
      rcases insert_entries hfresh with ⟨-, hinsert⟩ | ⟨hfull, -⟩
      · rw [hinsert, Maps.getElem?_insert, hentries]
        by_cases hc : child = c
        · subst hc
          rw [if_pos rfl, if_pos rfl, hseen, if_neg (by simp)]
          rfl
        · rw [if_neg hc, if_neg (fun heq => hc (Option.some.inj heq))]
          exact h c
      · exact absurd hroom (not_lt.mpr hfull)
    · rw [if_neg hseen] at hq
      rw [hq]
      dsimp only
      rw [Maps.getElem?_insert, hentries]
      by_cases hc : child = c
      · subst hc
        rw [if_pos rfl, if_pos rfl, if_neg (by simp), collected_snoc]
      · rw [if_neg hc, if_neg (fun heq => hc (Option.some.inj heq))]
        exact h c

theorem new_holds {generation : ScanGeneration} {request : PageRequest}
    (hnew : new generation request = .ok p) :
    p.folder = request.folder ∧ p.limit = request.limit ∧ p.entries = ∅ := by
  unfold new at hnew
  split at hnew
  · cases hnew
  split at hnew
  · cases hnew
  · cases hnew
    exact ⟨rfl, rfl, rfl⟩

/-- The run lemma. -/
theorem observeAll_spec (hempty : p.entries = ∅) (observations : List PathObservation) :
    (p.observeAll observations).folder = p.folder ∧ (p.observeAll observations).limit = p.limit ∧
      Holds (p.observeAll observations) observations ∧
      ((touched p.folder observations).card ≤ p.limit →
        Complete (p.observeAll observations) observations) := by
  induction observations using List.reverseRecOn with
  | nil =>
    refine ⟨rfl, rfl, ⟨?_, fun child entry he => ?_⟩, fun _ child => ?_⟩
    · show p.entries.size ≤ p.limit
      rw [hempty]
      exact Nat.zero_le _
    · have he : p.entries[child]? = some entry := he
      rw [hempty] at he
      simp at he
    · show p.entries[child]? = _
      rw [hempty]
      rfl
  | append_singleton observations o ih =>
    obtain ⟨hfolder, hlimit, hholds, hcomplete⟩ := ih
    have hsnoc : p.observeAll (observations ++ [o]) = (p.observeAll observations).observe o := by
      rw [observeAll, List.foldl_append]
      rfl
    obtain ⟨hfolder', hlimit', -⟩ := observe_spec (p.observeAll observations) o
    rw [hsnoc]
    refine ⟨hfolder'.trans hfolder, hlimit'.trans hlimit, hholds.observe o, fun hcard => ?_⟩
    have hfewer : (touched p.folder observations).card ≤ p.limit := by
      refine (Finset.card_le_card ?_).trans hcard
      rw [touched_snoc]
      exact Finset.subset_union_left
    exact (hcomplete hfewer).observe (by rw [hfolder, hlimit]; exact hcard)

/-! ## What is shown -/

theorem pageEntry_path (entry : ProvisionalEntry) (path : RelativePath) :
    (entry.pageEntry path).path = path := by
  unfold ProvisionalEntry.pageEntry
  split <;> rfl

theorem pageEntry_known (entry : ProvisionalEntry) (path : RelativePath) (measure : Measure) :
    (entry.pageEntry path).metrics.known measure = entry.metrics.known measure := by
  unfold ProvisionalEntry.pageEntry
  split
  · cases measure <;> rfl
  · rfl

/-- A page that is shown has the entries that are held, sorted. -/
theorem page_entries {count : Nat} {shown : ScanPage} (h : p.page count = .ok shown) :
    SortedBy PageCursor.fromEntry shown.entries ∧
      (shown.entries.map ScanPageEntry.path).Nodup ∧ shown.entries.length = p.entries.size ∧
      ∀ e, e ∈ shown.entries ↔ ∃ entry, p.entries[e.path]? = some entry ∧ e = entry.pageEntry e.path := by
  unfold page at h
  split at h
  · cases h
  cases h
  dsimp only
  obtain ⟨l, hl⟩ : ∃ l, p.entries.toList.map (fun e => e.2.pageEntry e.1) = l := ⟨_, rfl⟩
  rw [hl]
  have hperm := List.mergeSort_perm l fun left right => (comparePageEntries left right).isLE
  have hpaths : l.map ScanPageEntry.path = p.entries.keys := by
    rw [← hl, List.map_map, ← Std.TreeMap.map_fst_toList_eq_keys]
    exact List.map_congr_left fun e _ => pageEntry_path e.2 e.1
  have hnodup : (l.map ScanPageEntry.path).Nodup := by
    rw [hpaths]
    exact Std.TreeMap.nodup_keys
  refine ⟨SortedBy.mergeSort (fun a b => ?_) ?_, ?_, ?_, fun e => ?_⟩
  · rw [comparePageEntries_isLE, decide_eq_true_iff]
  · refine List.Nodup.of_map PageCursor.path ?_
    rw [List.map_map]
    exact hnodup
  · exact (hperm.map _).nodup_iff.mpr hnodup
  · rw [hperm.length_eq, ← hl, List.length_map, Std.TreeMap.length_toList]
  · rw [hperm.mem_iff, ← hl, List.mem_map]
    constructor
    · rintro ⟨⟨path, entry⟩, hmem, rfl⟩
      rw [pageEntry_path]
      exact ⟨entry, Std.TreeMap.mem_toList_iff_getElem?_eq_some.mp hmem, rfl⟩
    · rintro ⟨entry, hentry, he⟩
      exact ⟨(e.path, entry), Std.TreeMap.mem_toList_iff_getElem?_eq_some.mpr hentry, he.symm⟩

/-- What a page says of a child: its path and the bytes known of it. -/
def row (e : ScanPageEntry) : RelativePath × Nat × Nat × Nat :=
  (e.path, e.metrics.known .Apparent, e.metrics.known .Allocated, e.metrics.known .Reclaimable)

variable {generation : ScanGeneration} {request : PageRequest} {observations : List PathObservation}

/-- What the folder was last observed to be. -/
def lastKind (folder : RelativePath) (observations : List PathObservation) : Option PathEntryKind :=
  (observations.filter fun o => decide (o.path = folder)).getLast?.map PathObservation.kind

theorem observeAll_folderKind (hempty : p.entries = ∅) (observations : List PathObservation) :
    (p.observeAll observations).folderKind =
      (lastKind p.folder observations).or p.folderKind := by
  induction observations using List.reverseRecOn with
  | nil => rfl
  | append_singleton observations o ih =>
    obtain ⟨hfolder, -⟩ := observeAll_spec hempty observations
    have hsnoc : p.observeAll (observations ++ [o]) = (p.observeAll observations).observe o := by
      rw [observeAll, List.foldl_append]
      rfl
    rw [hsnoc, observe_folderKind, hfolder, ih, lastKind, lastKind, List.filter_append]
    split
    · rename_i h
      rw [List.filter_singleton, decide_eq_true h]
      simp
    · rename_i h
      rw [List.filter_singleton, decide_eq_false h]
      simp

/-- The root is always shown, any other folder when it was last observed as one. -/
theorem page_ok_iff (hnew : new generation request = .ok p) (count : Nat) :
    (∃ shown, (p.observeAll observations).page count = .ok shown) ↔
      request.folder.isRoot = true ∨ lastKind request.folder observations = some .Directory := by
  obtain ⟨hfolder, -, hempty⟩ := new_holds hnew
  obtain ⟨hf, -⟩ := observeAll_spec hempty observations
  have hkind := observeAll_folderKind hempty observations
  have hshown : (∃ shown, (p.observeAll observations).page count = .ok shown) ↔
      (p.observeAll observations).checkFolder = .ok () := by
    unfold page
    cases (p.observeAll observations).checkFolder with
    | ok u => exact ⟨fun _ => rfl, fun _ => ⟨_, rfl⟩⟩
    | error e => exact ⟨fun ⟨_, h⟩ => (by cases h), fun h => by cases h⟩
  have hfirst (hroot : request.folder.isRoot = false) : p.folderKind = none := by
    unfold new at hnew
    split at hnew
    · cases hnew
    split at hnew
    · cases hnew
    · cases hnew
      simp [hroot]
  rw [hshown, checkFolder, hf, hfolder, hkind, hfolder]
  cases hroot : request.folder.isRoot with
  | true => simp
  | false =>
    rw [hfirst hroot, Option.or_none]
    cases lastKind request.folder observations with
    | none => simp
    | some kind => cases kind <;> simp

/-- A child that is held has observed no more than was observed. -/
theorem known_le_observed (hnew : new generation request = .ok p) {count : Nat} {shown : ScanPage}
    (hshown : (p.observeAll observations).page count = .ok shown) {e : ScanPageEntry}
    (he : e ∈ shown.entries) (measure : Measure) :
    e.metrics.known measure ≤ observedBytes measure request.folder e.path observations := by
  obtain ⟨hfolder, -, hempty⟩ := new_holds hnew
  obtain ⟨hf, -, hholds, -⟩ := observeAll_spec hempty observations
  obtain ⟨entry, hentry, he⟩ := ((page_entries hshown).2.2.2 e).mp he
  obtain ⟨s, -, hsuffix, hcollected⟩ := hholds.recent _ _ hentry
  rw [hf, hfolder] at hsuffix
  rw [he, pageEntry_known, hcollected, collected_known, pageEntry_path]
  have hsum := (hsuffix.sublist.map fun o => o.metrics.known measure).sum_le_sum
    fun _ _ => Nat.zero_le _
  exact (Nat.min_le_left _ _).trans hsum

/-- Within the limit a page shows every touched child with all that was observed of it. -/
theorem shows_touched (hnew : new generation request = .ok p)
    (hcard : (touched request.folder observations).card ≤ request.limit) {count : Nat}
    {shown : ScanPage} (hshown : (p.observeAll observations).page count = .ok shown) :
    (∀ child, child ∈ shown.entries.map ScanPageEntry.path ↔
        child ∈ touched request.folder observations) ∧
      ∀ e ∈ shown.entries, ∀ measure, e.metrics.known measure =
        min (observedBytes measure request.folder e.path observations) (satMax byteBits) := by
  obtain ⟨hfolder, hlimit, hempty⟩ := new_holds hnew
  obtain ⟨hf, -, -, hcomplete⟩ := observeAll_spec hempty observations
  have hcomplete := hcomplete (by rw [hfolder, hlimit]; exact hcard)
  unfold Complete at hcomplete
  rw [hf, hfolder] at hcomplete
  obtain ⟨-, -, -, hmem⟩ := page_entries hshown
  refine ⟨fun child => ?_, fun e he measure => ?_⟩
  · rw [mem_touched, List.mem_map]
    constructor
    · rintro ⟨e, he, rfl⟩
      obtain ⟨entry, hentry, -⟩ := (hmem e).mp he
      rw [hcomplete] at hentry
      intro hnil
      rw [if_pos hnil] at hentry
      cases hentry
    · intro hne
      have hentry := hcomplete child
      rw [if_neg hne] at hentry
      refine ⟨(collected child (seen request.folder child observations)).pageEntry child,
        (hmem _).mpr ⟨collected child (seen request.folder child observations), ?_, ?_⟩,
        pageEntry_path _ child⟩
      · rw [pageEntry_path]
        exact hentry
      · rw [pageEntry_path]
  · obtain ⟨entry, hentry, heq⟩ := (hmem e).mp he
    rw [hcomplete] at hentry
    split at hentry
    · cases hentry
    · obtain rfl := Option.some.inj hentry
      rw [heq, pageEntry_known, collected_known, pageEntry_path]
      rfl

theorem touched_perm {other : List PathObservation} (h : other.Perm observations)
    (folder : RelativePath) : touched folder other = touched folder observations := by
  unfold touched
  exact List.toFinset_eq_of_perm _ _ (h.filterMap _)

theorem observedBytes_perm {other : List PathObservation} (h : other.Perm observations)
    (measure : Measure) (folder child : RelativePath) :
    observedBytes measure folder child other = observedBytes measure folder child observations := by
  unfold observedBytes seen
  exact ((h.filter _).map _).sum_eq

/-- The row of a child that has been shown all observations. -/
def fullRow (folder : RelativePath) (observations : List PathObservation) (child : RelativePath) :
    RelativePath × Nat × Nat × Nat :=
  (child, min (observedBytes .Apparent folder child observations) (satMax byteBits),
    min (observedBytes .Allocated folder child observations) (satMax byteBits),
    min (observedBytes .Reclaimable folder child observations) (satMax byteBits))

theorem mem_rows (hnew : new generation request = .ok p)
    (hcard : (touched request.folder observations).card ≤ request.limit) {count : Nat}
    {shown : ScanPage} (hshown : (p.observeAll observations).page count = .ok shown)
    (r : RelativePath × Nat × Nat × Nat) : r ∈ shown.entries.map row ↔
      ∃ child ∈ touched request.folder observations, r = fullRow request.folder observations child := by
  obtain ⟨hpaths, hbytes⟩ := shows_touched hnew hcard hshown
  have hrow (e : ScanPageEntry) (he : e ∈ shown.entries) :
      row e = fullRow request.folder observations e.path := by
    unfold row fullRow
    rw [hbytes e he, hbytes e he, hbytes e he]
  rw [List.mem_map]
  constructor
  · rintro ⟨e, he, rfl⟩
    exact ⟨e.path, (hpaths e.path).mp (List.mem_map_of_mem he), hrow e he⟩
  · rintro ⟨child, hchild, rfl⟩
    obtain ⟨e, he, rfl⟩ := List.mem_map.mp ((hpaths child).mpr hchild)
    exact ⟨e, he, hrow e he⟩

theorem sorted_rows {count : Nat} {shown : ScanPage} (hshown : p.page count = .ok shown) :
    SortedBy (fun r : RelativePath × Nat × Nat × Nat => (⟨r.1, r.2.2.1⟩ : PageCursor))
        (shown.entries.map row) ∧ (shown.entries.map row).Nodup := by
  obtain ⟨hsorted, hnodup, -⟩ := page_entries hshown
  refine ⟨List.pairwise_map.mpr hsorted, List.Nodup.of_map Prod.fst ?_⟩
  rw [List.map_map]
  exact hnodup

/-- After any observations a page of a known folder shows at most its limit of children and of none
more bytes than were observed. When no more children are touched than the limit, it shows these, each with the
saturating sum of what was observed of it, and shows the same rows for every order. -/
theorem provisional_page_exact (hnew : new generation request = .ok p)
    (observations : List PathObservation) :
    (p.observeAll observations).entries.size ≤ request.limit ∧
    (∀ count, (∃ shown, (p.observeAll observations).page count = .ok shown) ↔
      request.folder.isRoot = true ∨ lastKind request.folder observations = some .Directory) ∧
    (∀ count shown, (p.observeAll observations).page count = .ok shown →
      shown.entries.length ≤ request.limit ∧ (shown.entries.map ScanPageEntry.path).Nodup ∧
      ∀ e ∈ shown.entries, ∀ measure,
        e.metrics.known measure ≤ observedBytes measure request.folder e.path observations) ∧
    ((touched request.folder observations).card ≤ request.limit →
      ∀ count shown, (p.observeAll observations).page count = .ok shown →
        (∀ child, child ∈ shown.entries.map ScanPageEntry.path ↔
          child ∈ touched request.folder observations) ∧
        (∀ e ∈ shown.entries, ∀ measure, e.metrics.known measure =
          min (observedBytes measure request.folder e.path observations) (satMax byteBits)) ∧
        ∀ other, other.Perm observations → ∀ count' shown',
          (p.observeAll other).page count' = .ok shown' →
          shown'.entries.map row = shown.entries.map row) := by
  obtain ⟨hfolder, hlimit, hempty⟩ := new_holds hnew
  obtain ⟨-, hl, hholds, -⟩ := observeAll_spec hempty observations
  have hbounded : (p.observeAll observations).entries.size ≤ request.limit := by
    rw [← hlimit, ← hl]
    exact hholds.bounded
  refine ⟨hbounded, page_ok_iff hnew, fun count shown hshown => ?_, fun hcard count shown hshown => ?_⟩
  · obtain ⟨-, hnodup, hlength, -⟩ := page_entries hshown
    exact ⟨hlength.trans_le hbounded, hnodup, fun e he => known_le_observed hnew hshown he⟩
  · obtain ⟨hpaths, hbytes⟩ := shows_touched hnew hcard hshown
    refine ⟨hpaths, hbytes, fun other hperm count' shown' hshown' => ?_⟩
    have hfull : fullRow request.folder other = fullRow request.folder observations := by
      funext child
      simp only [fullRow, observedBytes_perm hperm]
    -- both lists of rows are sorted and have the same members
    obtain ⟨hsorted, hnodup⟩ := sorted_rows hshown
    obtain ⟨hsorted', hnodup'⟩ := sorted_rows hshown'
    refine hsorted'.eq_of_perm hsorted ((List.perm_ext_iff_of_nodup hnodup' hnodup).mpr fun r => ?_)
    rw [mem_rows hnew hcard hshown, mem_rows hnew (by rw [touched_perm hperm]; exact hcard) hshown',
      touched_perm hperm, hfull]

/-- A file of three bytes at `/a`, one of five at `/b/c`. -/
def twoFiles : List PathObservation :=
  [⟨⟨[⟨[0x61], valid_a⟩]⟩, .File, .leaf 3 (.exact 3) (.exact 3), .Complete, none⟩,
    ⟨⟨[⟨[0x62], valid_b⟩, ⟨[0x63], valid_c⟩]⟩, .File, .leaf 5 (.exact 5) (.exact 5), .Complete,
      none⟩]

/-- With room for both children the root page shows the same rows in both orders. -/
theorem provisional_page_exact_two :
    ∃ p, new ⟨0⟩ ⟨.root, none, 2⟩ = .ok p ∧ ∃ shown shown',
      (p.observeAll twoFiles).page 0 = .ok shown ∧
      (p.observeAll twoFiles.reverse).page 0 = .ok shown' ∧
      shown.entries.length ≤ 2 ∧ shown'.entries.map row = shown.entries.map row := by
  obtain ⟨p, hnew⟩ : ∃ p, new ⟨0⟩ ⟨.root, none, 2⟩ = .ok p := ⟨_, rfl⟩
  obtain ⟨-, hok, hbound, hexact⟩ := provisional_page_exact hnew twoFiles
  obtain ⟨-, hok', -⟩ := provisional_page_exact hnew twoFiles.reverse
  obtain ⟨shown, hshown⟩ := (hok 0).mpr (Or.inl rfl)
  obtain ⟨shown', hshown'⟩ := (hok' 0).mpr (Or.inl rfl)
  refine ⟨p, hnew, shown, shown', hshown, hshown', (hbound 0 shown hshown).1, ?_⟩
  exact (hexact (by decide +kernel) 0 shown hshown).2.2 _ (List.reverse_perm _) 0 shown' hshown'

end ProvisionalPage

end Excise
