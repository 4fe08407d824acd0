import Excise.Store.Generations

/-!
# What a published page index holds

The indexing passes only add to what is known of an entry or a folder: the table keeps one entry
per path observation, in their order, and one header per directory summary. A published generation
is therefore an index of the path facts it was reduced from.
-/

namespace Excise
set_option autoImplicit false

namespace PageIndex

variable {t t' : PageIndex}

/-- The observations the table was filled with. -/
def observations (t : PageIndex) : List PathObservation := t.entries.map StoredEntry.observation

def folders (t : PageIndex) : List RelativePath := t.headers.map Prod.fst

/-- `t'` knows more about the same entries and folders. -/
def Refines (t t' : PageIndex) : Prop := t'.observations = t.observations ∧ t'.folders = t.folders

theorem Refines.refl (t : PageIndex) : Refines t t := ⟨rfl, rfl⟩

theorem Refines.trans {t'' : PageIndex} (h : Refines t t') (h' : Refines t' t'') : Refines t t'' :=
  ⟨h'.1.trans h.1, h'.2.trans h.2⟩

/-- The paths of the table are distinct. -/
def Distinct (t : PageIndex) : Prop := (t.observations.map PathObservation.path).Nodup

theorem Refines.distinct (h : Refines t t') (hd : t.Distinct) : t'.Distinct := by
  unfold Distinct
  rw [h.1]
  exact hd

theorem entry?_some {p : RelativePath} {e : StoredEntry} (h : t.entry? p = some e) :
    e ∈ t.entries ∧ e.path = p := by
  refine ⟨List.mem_of_find?_eq_some h, ?_⟩
  have hp := List.find?_some h
  simpa using hp

theorem entry?_none {p : RelativePath} (h : t.entry? p = none) : ∀ e ∈ t.entries, e.path ≠ p := by
  intro e he
  simpa using List.find?_eq_none.mp h e he

theorem Distinct.eq_of_path (hd : t.Distinct) {e e' : StoredEntry} (he : e ∈ t.entries)
    (he' : e' ∈ t.entries) (h : e.path = e'.path) : e = e' := by
  refine List.inj_on_of_nodup_map (f := StoredEntry.path) ?_ he he' h
  rwa [Distinct, observations, List.map_map] at hd

theorem refines_setEntry (hd : t.Distinct) {p : RelativePath} {e e' : StoredEntry}
    (h : t.entry? p = some e) (hsame : e'.observation = e.observation) :
    Refines t (t.setEntry p e') := by
  refine ⟨?_, rfl⟩
  obtain ⟨he, hp⟩ := entry?_some h
  unfold observations setEntry
  rw [List.map_map]
  apply List.map_congr_left
  intro x hx
  dsimp only [Function.comp_apply]
  split
  · rename_i hxp
    rw [hsame, hd.eq_of_path hx he (hxp.trans hp.symm)]
  · rfl

theorem refines_setHeader (p : RelativePath) (header : StoredHeader) :
    Refines t (t.setHeader p header) := by
  refine ⟨rfl, ?_⟩
  unfold folders setHeader
  rw [List.map_map]
  apply List.map_congr_left
  intro x _
  dsimp only [Function.comp_apply]
  split
  · rename_i hxp
    exact hxp.symm
  · rfl

/-! ## The passes -/

theorem indexPath_ok {o : PathObservation} (h : t.indexPath o = .ok t') :
    t'.observations = t.observations ++ [o] ∧ t'.folders = t.folders ∧ o.path ≠ .root ∧
      ∀ e ∈ t.entries, e.path ≠ o.path := by
  unfold indexPath at h
  split at h
  · cases h
  · rename_i hroot
    split at h
    · cases h
    · rename_i hnone
      cases h
      refine ⟨by simp [observations, StoredEntry.fromObservation], rfl, ?_, entry?_none hnone⟩
      intro heq
      rw [heq] at hroot
      exact hroot rfl

theorem indexPaths_ok {paths : List PathObservation}
    (h : paths.foldlM indexPath empty = .ok t) :
    t.observations = paths ∧ t.folders = [] ∧ t.Distinct ∧ ∀ o ∈ paths, o.path ≠ .root := by
  refine foldlM_ok (P := fun done t => t.observations = done ∧ t.folders = [] ∧ t.Distinct ∧
    ∀ o ∈ done, o.path ≠ .root) h ⟨rfl, rfl, List.nodup_nil, by simp⟩ ?_
  intro done t o t' ⟨hobs, hfolders, hd, hroot⟩ ho
  obtain ⟨hobs', hfolders', hnot, hfresh⟩ := indexPath_ok ho
  refine ⟨by rw [hobs', hobs], by rw [hfolders', hfolders], ?_, ?_⟩
  · unfold Distinct
    rw [hobs', List.map_append, List.map_singleton]
    refine hd.append (List.nodup_singleton _) ?_
    intro p hp hsingle
    rw [observations, List.map_map] at hp
    obtain ⟨e, he, hep⟩ := List.mem_map.mp hp
    exact hfresh e he (hep.trans (List.mem_singleton.mp hsingle))
  · intro x hx
    rcases List.mem_append.mp hx with hx | hx
    · exact hroot x hx
    · rw [List.mem_singleton.mp hx]
      exact hnot

theorem indexIdentity_refines (hd : t.Distinct) {o : IdentityObservation}
    (h : t.indexIdentity o = .ok t') : Refines t t' := by
  unfold indexIdentity at h
  split at h
  · cases h
  · rename_i entry hentry
    split at h
    · cases h
    split at h
    · cases h
    · cases h
      exact refines_setEntry hd hentry rfl

theorem indexSummary_ok (hd : t.Distinct) {s : DirectorySummary} (h : t.indexSummary s = .ok t') :
    t'.observations = t.observations ∧ t'.folders = t.folders ++ [s.path] := by
  unfold indexSummary at h
  split at h
  · cases h
  · generalize ht : ({ t with headers := t.headers ++ [(s.path, ⟨s.metrics, s.coverage, none⟩)] } :
      PageIndex) = added at h
    have hobs : added.observations = t.observations := by rw [← ht]; rfl
    have hfolders : added.folders = t.folders ++ [s.path] := by
      rw [← ht]
      simp [folders]
    dsimp only at h
    split at h
    · cases h
      exact ⟨hobs, hfolders⟩
    · split at h
      · cases h
      · rename_i entry hentry
        split at h
        · cases h
        split at h
        · cases h
        · cases h
          have hadded : added.Distinct := by rwa [Distinct, hobs]
          obtain ⟨hobs', hfolders'⟩ := @refines_setEntry added hadded _ entry
            { entry with
              metrics := s.metrics, coverage := s.coverage, directorySummarySeen := true } hentry rfl
          exact ⟨hobs'.trans hobs, hfolders'.trans hfolders⟩

theorem updateHeaderPhysical_refines {folder : RelativePath} {c : AllocationContribution}
    {shared : Bool} (h : t.updateHeaderPhysical folder c shared = .ok t') : Refines t t' := by
  unfold updateHeaderPhysical at h
  split at h
  · cases h
  · cases h
    exact refines_setHeader _ _

theorem updateEntryPhysical_refines (hd : t.Distinct) {child : RelativePath}
    {c : AllocationContribution} {leaf : Bool} (h : t.updateEntryPhysical child c leaf = .ok t') :
    Refines t t' := by
  unfold updateEntryPhysical at h
  split at h
  · cases h
  · rename_i entry hentry
    split at h
    · split at h
      · cases h
      · cases h
        exact refines_setEntry hd hentry rfl
    · split at h
      · cases h
      · cases h
        exact refines_setEntry hd hentry rfl

theorem chargeLevel_refines (hd : t.Distinct) {c : AllocationContribution} {i : Nat}
    (h : chargeLevel c t i = .ok t') : Refines t t' := by
  obtain ⟨m, hm, h⟩ := bind_eq_ok h
  have hfirst := updateHeaderPhysical_refines hm
  exact hfirst.trans (updateEntryPhysical_refines (hfirst.distinct hd) h)

theorem applyAllocation_refines (hd : t.Distinct) {c : AllocationContribution}
    (h : t.applyAllocation c = .ok t') : Refines t t' := by
  obtain ⟨m, hm, h⟩ := bind_eq_ok h
  have hlevels : Refines t m := by
    refine foldlM_ok (P := fun _ s => Refines t s) hm (Refines.refl t) ?_
    intro _ s i s' hs hi
    exact hs.trans (chargeLevel_refines (hs.distinct hd) hi)
  split at h
  · exact hlevels.trans (updateHeaderPhysical_refines h)
  · cases h
    exact hlevels

/-- The finished table. -/
theorem build_ok {paths : List PathObservation} {identities : List IdentityObservation}
    {summaries : List DirectorySummary} {contributions : List (FileId × AllocationContribution)}
    (h : build paths identities summaries contributions = .ok t) :
    t.observations = paths ∧ t.folders = summaries.map DirectorySummary.path ∧ t.Distinct ∧
      ∀ o ∈ paths, o.path ≠ .root := by
  obtain ⟨t₁, h₁, h⟩ := bind_eq_ok h
  obtain ⟨t₂, h₂, h⟩ := bind_eq_ok h
  obtain ⟨t₃, h₃, h⟩ := bind_eq_ok h
  obtain ⟨hobs, hfolders, hd, hroot⟩ := indexPaths_ok h₁
  have hids : Refines t₁ t₂ := by
    refine foldlM_ok (P := fun _ s => Refines t₁ s) h₂ (Refines.refl t₁) ?_
    intro _ s o s' hs ho
    exact hs.trans (indexIdentity_refines (hs.distinct hd) ho)
  obtain ⟨hobs₃, hfolders₃⟩ : t₃.observations = t₁.observations ∧
      t₃.folders = summaries.map DirectorySummary.path := by
    refine foldlM_ok (P := fun done s => s.observations = t₁.observations ∧
      s.folders = done.map DirectorySummary.path) h₃ ⟨hids.1, hids.2.trans hfolders⟩ ?_
    intro done s o s' ⟨hobs', hfolders'⟩ ho
    have hs : s.Distinct := by rwa [Distinct, hobs']
    obtain ⟨hobs'', hfolders''⟩ := indexSummary_ok hs ho
    exact ⟨hobs''.trans hobs', by rw [hfolders'', hfolders']; simp⟩
  have hd₃ : t₃.Distinct := by rwa [Distinct, hobs₃]
  have hlast : Refines t₃ t := by
    refine foldlM_ok (P := fun _ s => Refines t₃ s) h (Refines.refl t₃) ?_
    intro _ s c s' hs hc
    exact hs.trans (applyAllocation_refines (hs.distinct hd₃) hc)
  exact ⟨hlast.1.trans (hobs₃.trans hobs), hlast.2.trans hfolders₃, hlast.distinct hd₃, hroot⟩

end PageIndex

/-! ## Published records -/

def PageRecord.entry? : PageRecord → Option StoredEntry
  | .header _ _ => none
  | .entry _ e => some e

/-- The entries of a record list, in its order. -/
def storedEntries (records : List PageRecord) : List StoredEntry :=
  records.filterMap PageRecord.entry?

/-- `records` index the tree of path observations `paths`. -/
structure Indexes (records : List PageRecord) (paths : List PathObservation) : Prop where
  sorted : SortedBy PageRecord.key records
  entries : ((storedEntries records).map StoredEntry.observation).Perm paths
  parents : ∀ folder e, PageRecord.entry folder e ∈ records → e.path.relativeParent = some folder
  headers : ∀ folder, (folder = .root ∨ ∃ o ∈ paths, o.kind = .Directory ∧ o.path = folder) →
    ∃ header, PageRecord.header folder header ∈ records
  tree : TreeShaped paths

theorem mem_storedEntries {records : List PageRecord} {e : StoredEntry} :
    e ∈ storedEntries records ↔ ∃ folder, PageRecord.entry folder e ∈ records := by
  unfold storedEntries
  rw [List.mem_filterMap]
  constructor
  · rintro ⟨r, hr, he⟩
    cases r with
    | header folder header => cases he
    | entry folder e' =>
      cases he
      exact ⟨folder, hr⟩
  · rintro ⟨folder, hr⟩
    exact ⟨_, hr, rfl⟩

theorem perm_queryRecords (t : PageIndex) :
    t.queryRecords.Perm (t.headers.map (fun h => PageRecord.header h.1 h.2) ++
      t.entries.filterMap fun e => e.path.relativeParent.map fun p => PageRecord.entry p e) :=
  List.mergeSort_perm _ _

theorem storedEntries_headers (headers : List (RelativePath × StoredHeader)) :
    storedEntries (headers.map fun h => PageRecord.header h.1 h.2) = [] := by
  unfold storedEntries
  rw [List.filterMap_eq_nil_iff]
  intro r hr
  obtain ⟨h, -, rfl⟩ := List.mem_map.mp hr
  rfl

theorem storedEntries_entries {entries : List StoredEntry} (h : ∀ e ∈ entries, e.path ≠ .root) :
    storedEntries (entries.filterMap fun e =>
      e.path.relativeParent.map fun p => PageRecord.entry p e) = entries := by
  induction entries with
  | nil => rfl
  | cons e es ih =>
    have hroot : e.path.isRoot = false := by
      rw [Bool.eq_false_iff, Ne, RelativePath.isRoot_iff]
      exact h e List.mem_cons_self
    have hparent : e.path.relativeParent = some ⟨e.path.components.dropLast⟩ := by
      simp [RelativePath.relativeParent, hroot]
    rw [List.filterMap_cons]
    simp only [hparent, Option.map_some]
    have hrest := ih fun x hx => h x (List.mem_cons_of_mem e hx)
    unfold storedEntries at hrest ⊢
    rw [List.filterMap_cons]
    simp only [PageRecord.entry?]
    rw [hrest]

/-- The records of a finished table hold its entries. -/
theorem perm_storedEntries {t : PageIndex} {paths : List PathObservation}
    {identities : List IdentityObservation} {summaries : List DirectorySummary}
    {contributions : List (FileId × AllocationContribution)}
    (h : PageIndex.build paths identities summaries contributions = .ok t) :
    (storedEntries t.queryRecords).Perm t.entries := by
  obtain ⟨hobs, -, -, hroot⟩ := PageIndex.build_ok h
  have hentries : ∀ e ∈ t.entries, e.path ≠ .root := by
    intro e he
    refine hroot e.observation ?_
    rw [← hobs]
    exact List.mem_map_of_mem he
  have hfilter := (perm_queryRecords t).filterMap PageRecord.entry?
  rw [List.filterMap_append] at hfilter
  have hh := storedEntries_headers t.headers
  have he := storedEntries_entries hentries
  unfold storedEntries at hh he
  rwa [hh, he, List.nil_append] at hfilter

/-- The records of a finished table index the observations it was filled with. -/
theorem indexes_queryRecords {t : PageIndex} {paths : List PathObservation}
    {identities : List IdentityObservation} {summaries : List DirectorySummary}
    {contributions : List (FileId × AllocationContribution)}
    (h : PageIndex.build paths identities summaries contributions = .ok t)
    (hsorted : SortedBy PageRecord.key t.queryRecords) (htree : TreeShaped paths)
    (hsummaries : Summarised paths summaries) : Indexes t.queryRecords paths := by
  obtain ⟨hobs, hfolders, -, -⟩ := PageIndex.build_ok h
  have hperm := perm_queryRecords t
  refine ⟨hsorted, ?_, ?_, ?_, htree⟩
  · rw [← hobs]
    exact (perm_storedEntries h).map _
  · intro folder e hmem
    rcases List.mem_append.mp (hperm.mem_iff.mp hmem) with hmem | hmem
    · obtain ⟨x, -, hx⟩ := List.mem_map.mp hmem
      cases hx
    · obtain ⟨x, -, hx⟩ := List.mem_filterMap.mp hmem
      obtain ⟨p, hp, hx⟩ := Option.map_eq_some_iff.mp hx
      cases hx
      exact hp
  · intro folder hfolder
    obtain ⟨s, hs, hpath⟩ : ∃ s ∈ summaries, s.path = folder := by
      rcases hfolder with rfl | ⟨o, ho, hkind, rfl⟩
      · exact hsummaries.root
      · exact hsummaries.covered o ho hkind
    have hmem : folder ∈ t.folders := by
      rw [hfolders, ← hpath]
      exact List.mem_map_of_mem hs
    obtain ⟨x, hx, hxf⟩ := List.mem_map.mp hmem
    refine ⟨x.2, hperm.mem_iff.mpr (List.mem_append_left _ ?_)⟩
    rw [← hxf]
    exact List.mem_map_of_mem hx

/-- The path facts a generation was reduced from. -/
structure PathsOf (a : ActiveGeneration) (paths : List PathObservation) : Prop where
  facts : ∃ facts, facts.Perm (recordsOf a.pathRuns.intoRuns) ∧ decodePaths facts = .ok paths

theorem PublishesInto.indexes {a : ActiveGeneration} {p : PublishedGeneration}
    (h : PublishesInto a p) : ∃ paths, PathsOf a paths ∧ Indexes p.childQueries.records paths := by
  obtain ⟨reduced, hreduced, hrecords⟩ := h.records
  obtain ⟨paths, hpaths, hstream⟩ := reducedSummaries_ok hreduced.summaries
  obtain ⟨htree, hsummaries⟩ := reduceSortedPathStream_ok hstream
  refine ⟨paths, ⟨_, hreduced.paths, hpaths⟩, ?_⟩
  unfold childQueryRecords at hrecords
  obtain ⟨paths', hpaths', hrecords⟩ := bind_eq_ok hrecords
  obtain rfl : paths = paths' := Except.ok.inj (hpaths.symm.trans hpaths')
  obtain ⟨identities, -, hrecords⟩ := bind_eq_ok hrecords
  split at hrecords
  · cases hrecords
  · rename_i result hresult
    cases hrecords
    obtain ⟨t, ht, hmeta⟩ := bind_eq_ok hresult
    split at hmeta
    · cases hmeta
    · have hq : t.queryRecords = p.childQueries.records := (Prod.mk.inj (Except.ok.inj hmeta)).1
      rw [← hq]
      refine indexes_queryRecords ht ?_ htree hsummaries
      rw [hq]
      exact p.childQueries.sorted

namespace ScanStore

theorem published_closeActive (s : ScanStore) (terminal : ScanGenerationState) :
    (answered (closeActive terminal s)).1.published = s.published := by
  unfold closeActive
  split
  · rfl
  · split
    · rfl
    · split <;> rfl

theorem published_takePublication (s : ScanStore) :
    (answered (takePublication s)).1.published = s.published ∨
      (answered (takePublication s)).1.published = none := by
  unfold takePublication
  cases s.summaryOnly with
  | some summary => exact Or.inl rfl
  | none =>
    cases hp : s.published with
    | some published => exact Or.inr rfl
    | none => exact Or.inl hp

theorem Keeps.published {α : Type} {c : StoreM α} (hk : Keeps c) {s : ScanStore}
    (hs : s.ActiveValid) : (answered (c s)).1.published = s.published := by
  obtain ⟨hok, herror⟩ := hk.goes hs
  cases hc : c s with
  | ok a s' => exact (hok a s' hc).outside.published
  | error e s' => exact (herror e s' hc).outside.published

/-- Only a publish call puts another generation in the place of the published one. -/
theorem published_step {s : ScanStore} (hs : s.Settled) (call : StoreCall)
    {p : PublishedGeneration} (hp : (s.step call).1.published = some p) :
    s.published = some p ∨
      ∃ io a, call = .publish io ∧ s.active = some a ∧ PublishesInto a p := by
  have of_eq (heq : (s.step call).1.published = s.published) : s.published = some p ∨
      ∃ io a, call = .publish io ∧ s.active = some a ∧ PublishesInto a p :=
    Or.inl (heq.symm.trans hp)
  cases call with
  | beginGeneration generation =>
    apply of_eq
    have hstep : s.step (.beginGeneration generation) =
      answered (ScanStore.beginGeneration generation s) := rfl
    rw [hstep]
    by_cases hadv : s.Advances generation
    · rw [beginGeneration_eq hadv]
      rfl
    · rw [beginGeneration_refused hadv]
      rfl
  | beginOverlayGeneration io hash base generation removed folder =>
    apply of_eq
    have hstep : s.step (.beginOverlayGeneration io hash base generation removed folder) =
      answered (beginOverlayGeneration io hash base generation removed folder s) := rfl
    rw [hstep]
    rcases beginOverlayGeneration_outcome io hash base generation removed folder s with
      ⟨-, hr⟩ | ⟨-, hout⟩
    · rw [hr]
      rfl
    · cases hr : beginOverlayGeneration io hash base generation removed folder s with
      | ok u s' =>
        rw [hr] at hout
        exact hout.outside.published
      | error e s' =>
        rw [hr] at hout
        exact hout.1.outside.published
  | acceptInputRun io run => exact of_eq ((acceptInputRun_keeps io run).published hs.valid)
  | acceptLeasedInputRun io lease run =>
    exact of_eq ((acceptLeasedInputRun_keeps io lease run).published hs.valid)
  | appendObservationBatch io paths identities =>
    exact of_eq ((appendObservationBatch_keeps io paths identities).published hs.valid)
  | sealObservationBatch io generation paths identities =>
    apply of_eq
    have hstep : s.step (.sealObservationBatch io generation paths identities) =
      sealElsewhere io generation paths identities s := rfl
    rw [hstep]
    unfold sealElsewhere
    split <;> rfl
  | recordUnrecordedPaths count => exact of_eq rfl
  | recordUnreadableDirectory path => exact of_eq rfl
  | provisionalPage kept => exact of_eq rfl
  | publish io =>
    have hstep : s.step (.publish io) = answered (ScanStore.publish io s) := rfl
    rw [hstep] at hp
    cases ha : s.active with
    | none =>
      have he : ScanStore.publish io s = .error .NoActiveGeneration s := by
        rw [ScanStore.publish, ha]
      rw [he] at hp
      exact Or.inl hp
    | some a =>
      have hout := publish_outcome io ha (hs.valid a ha)
      cases hr : ScanStore.publish io s with
      | ok g s' =>
        rw [hr] at hout hp
        obtain ⟨-, -, -, -, -, -, hpub⟩ := hout
        rcases hpub with ⟨-, q, hq, hinto⟩ | ⟨hsame, -⟩
        · obtain rfl : q = p := Option.some.inj (hq.symm.trans hp)
          exact Or.inr ⟨io, a, rfl, rfl, hinto⟩
        · exact Or.inl (hsame.symm.trans hp)
      | error e s' =>
        rw [hr] at hout hp
        exact Or.inl (hout.1.published.symm.trans hp)
  | discardActive => exact of_eq (published_closeActive s .Incomplete)
  | cancelActive => exact of_eq (published_closeActive s .Cancelled)
  | takePublication =>
    rcases published_takePublication s with heq | hnone
    · exact of_eq heq
    · rw [show (s.step .takePublication).1.published = none from hnone] at hp
      cases hp

/-- What a session has published, one of its calls published from the generation that was active
then. -/
theorem published_by_call (session : ScanSessionId) (generation : ScanGeneration)
    (calls : List StoreCall) {p : PublishedGeneration}
    (hp : (machine.run (ScanStore.new session generation) calls).published = some p) :
    ∃ earlier io later a, calls = earlier ++ .publish io :: later ∧
      (machine.run (ScanStore.new session generation) earlier).active = some a ∧
      PublishesInto a p := by
  induction calls using List.reverseRecOn with
  | nil => cases hp
  | append_singleton calls call ih =>
    have hsettled := settled_run session generation calls
    rw [machine.run_append] at hp
    rcases published_step hsettled call hp with hbefore | ⟨io, a, rfl, ha, hinto⟩
    · obtain ⟨earlier, io, later, a, hcalls, ha, hinto⟩ := ih hbefore
      refine ⟨earlier, io, later ++ [call], a, ?_, ha, hinto⟩
      rw [hcalls, List.append_assoc, List.cons_append]
    · exact ⟨calls, io, [], a, rfl, ha, hinto⟩

/-- Every published generation of a session indexes the path facts it was published from. -/
theorem published_indexes (session : ScanSessionId) (generation : ScanGeneration)
    (calls : List StoreCall) {p : PublishedGeneration}
    (hp : (machine.run (ScanStore.new session generation) calls).published = some p) :
    ∃ a paths, PublishesInto a p ∧ PathsOf a paths ∧ Indexes p.childQueries.records paths := by
  obtain ⟨-, -, -, a, -, -, hinto⟩ := published_by_call session generation calls hp
  obtain ⟨paths, hpaths, hindex⟩ := hinto.indexes
  exact ⟨a, paths, hinto, hpaths, hindex⟩

end ScanStore

/-! ## A publication without faults -/

/-- The index that the records of the four runs are joined into. -/
def childQueryIndex (reduced : Reduced) : Except ScanStoreError PageIndex :=
  (decodePaths reduced.pathObservations.records).bind fun paths =>
    (decodeIdentities reduced.identityObservations.records).bind fun identities =>
      match PageIndex.build paths identities (reduced.directorySummaries.records.map Prod.snd)
          reduced.allocationContributions.records with
      | .error error => .error (.PageIndex error)
      | .ok t => .ok t

namespace PageIndex

/-- The records of the index, headers first. -/
def records (t : PageIndex) : List PageRecord :=
  (t.headers.map fun h => PageRecord.header h.1 h.2) ++
    t.entries.filterMap fun e => e.path.relativeParent.map fun p => PageRecord.entry p e

/-- The records inserted one by one into their order. -/
def insertedRecords (t : PageIndex) : List PageRecord :=
  t.records.insertionSort fun a b => a.key ≤ b.key

theorem queryRecords_eq_inserted {t : PageIndex}
    (h : SortedBy PageRecord.key t.insertedRecords) : t.queryRecords = t.insertedRecords := by
  have hperm : t.insertedRecords.Perm t.records := List.perm_insertionSort _ _
  have hnodup : (t.records.map PageRecord.key).Nodup := (hperm.map _).nodup_iff.mp h.nodup_keys
  exact (SortedBy.mergeSort (fun _ _ => decide_eq_true_iff) hnodup).eq_of_perm h
    ((perm_queryRecords t).trans hperm.symm)

end PageIndex

/-- The records of a finished index. -/
theorem childQueryRecords_of_index {reduced : Reduced} {t : PageIndex} {root : StoredHeader}
    (h : childQueryIndex reduced = .ok t) (hroot : t.header? .root = some root) :
    childQueryRecords reduced = .ok (t.queryRecords, ⟨root.metrics, root.coverage⟩) := by
  unfold childQueryIndex at h
  obtain ⟨paths, hpaths, h⟩ := bind_eq_ok h
  obtain ⟨identities, hidentities, h⟩ := bind_eq_ok h
  split at h
  · cases h
  rename_i t' hbuild
  cases h
  have hmaterialize : materializeChildQueries paths identities
      (reduced.directorySummaries.records.map Prod.snd) reduced.allocationContributions.records =
      .ok (t.queryRecords, ⟨root.metrics, root.coverage⟩) := by
    unfold materializeChildQueries
    rw [hbuild]
    simp only [Except.bind, hroot]
  unfold childQueryRecords
  rw [hpaths]
  simp only [Except.bind, hidentities, hmaterialize]

/-- What publishing the active generation joins when nothing fails. -/
def ScanStore.joined (s : ScanStore) : Option (Work × PageIndex × StoredHeader) :=
  s.active.bind fun a =>
    if a.manifest.state ≠ .Scanning then none
    else
      match reduceActiveGeneration Io.none a.generation a.unreadable ⟨s.nextRunId, a.reducing⟩ with
      | .error _ _ => none
      | .ok reduced w => (childQueryIndex reduced).toOption.bind fun t =>
        (t.header? .root).map fun root => (w, t, root)

/-- The joined index is published when its records have keys of their own. -/
theorem published_of_joined (session : ScanSessionId) (generation : ScanGeneration)
    (calls : List StoreCall) {w : Work} {t : PageIndex} {root : StoredHeader}
    (h : (ScanStore.machine.run (ScanStore.new session generation) calls).joined =
      some (w, t, root))
    (hid : w.nextRunId.toNat + 1 < 2 ^ 64) (hsorted : SortedBy PageRecord.key t.insertedRecords) :
    ∃ p, (ScanStore.machine.run (ScanStore.new session generation)
        (calls ++ [.publish Io.none])).published = some p ∧
      p.childQueries.records = t.insertedRecords ∧ p.rootPageMetrics = root.metrics ∧
      p.rootPageCoverage = root.coverage ∧
      p.unrecordedPathCount = w.active.unrecordedPathCount ∧
      p.manifest.generation = w.active.generation := by
  have hsettled := ScanStore.settled_run session generation calls
  have hsame := PageIndex.queryRecords_eq_inserted hsorted
  rw [Machine.run_append]
  generalize ScanStore.machine.run (ScanStore.new session generation) calls = s at h hsettled ⊢
  unfold ScanStore.joined at h
  obtain ⟨a, ha, h⟩ := Option.bind_eq_some_iff.mp h
  split at h
  · cases h
  rename_i hscan
  split at h
  · cases h
  rename_i reduced w' hred
  obtain ⟨t', ht, h⟩ := Option.bind_eq_some_iff.mp h
  obtain ⟨root', hroot, h⟩ := Option.map_eq_some_iff.mp h
  cases h
  have hindex : childQueryIndex reduced = .ok t := by
    cases hr : childQueryIndex reduced with
    | error e =>
      rw [hr] at ht
      cases ht
    | ok t' =>
      rw [hr] at ht
      cases ht
      rfl
  obtain ⟨run, staging, hm, hrun⟩ := @materialize_returns reduced w.active.generation
    ⟨w.nextRunId, w.active.manifest⟩ _ hid (childQueryRecords_of_index hindex hroot)
    (hsame.symm ▸ hsorted)
  obtain ⟨s', p, hpublish, hp, hqueries, hmetrics, hcoverage, hrest⟩ :=
    publish_returns ha (hsettled.valid a ha) (not_not.mp hscan) hred hm
  refine ⟨p, ?_, by rw [hqueries, hrun, hsame], hmetrics, hcoverage, hrest⟩
  show (ScanStore.answered (ScanStore.publish Io.none s)).1.published = some p
  rw [hpublish]
  exact hp

/-! ## A scanned tree -/

def nameA : Component := ⟨[97], valid_a⟩

def nameB : Component := ⟨[98], valid_b⟩

def nameC : Component := ⟨[99], valid_c⟩

/-- A file as the scanner records it: its path carries the bytes of a file with one link. -/
def scannedFile (path : List Component) (inodeNumber : UInt64) (links bytes : Nat) :
    PathObservation :=
  let bounds := if links = 1 then .exact bytes else .exact 0
  ⟨⟨path⟩, .File, .leaf bytes bounds bounds, .Complete,
    some ⟨some ⟨.Inode 1 inodeNumber, some links, false⟩, .File, bytes, some bytes, none⟩⟩

def scannedFolder (path : List Component) : PathObservation :=
  ⟨⟨path⟩, .Directory, .leaf 0 (.exact 0) (.exact 0), .Complete, none⟩

/-- A file of 512 bytes that could not be read completely, its allocation unknown. -/
def halfReadFile : PathObservation :=
  ⟨⟨[nameB, nameB]⟩, .File, .leaf 512 .unknown .unknown, .Uncertain,
    some ⟨some ⟨.Inode 1 10, some 1, false⟩, .File, 512, none, none⟩⟩

/-- Files `a` and `c` of one size, and a folder `b` with a file that is named a second time in the
folder below it. -/
def linkedPaths : List PathObservation :=
  [scannedFile [nameA] 7 1 4096, scannedFolder [nameB], scannedFile [nameB, nameA] 9 2 8192,
    halfReadFile, scannedFolder [nameB, nameC], scannedFile [nameB, nameC, nameA] 9 2 8192,
    scannedFile [nameC] 8 1 4096]

def linkedIdentities : List IdentityObservation :=
  [⟨⟨[nameB, nameA]⟩, .Inode 1 9, some 2, .exact 8192⟩,
    ⟨⟨[nameB, nameC, nameA]⟩, .Inode 1 9, some 2, .exact 8192⟩]

/-- A batch for each entry. -/
def linkedScan : List StoreCall :=
  linkedPaths.map fun o =>
    .appendObservationBatch Io.none [o] (linkedIdentities.filter fun i => i.path = o.path)

def linkedIndex : PageIndex :=
  ((ScanStore.machine.run (ScanStore.new ⟨0⟩ ⟨0⟩) linkedScan).joined.map fun j => j.2.1).getD .empty

def linkedRootMetrics : SummaryMetrics := ⟨25088, ⟨16384, none⟩, ⟨16384, none⟩, 7⟩

theorem published_linkedScan :
    ∃ p, (ScanStore.machine.run (ScanStore.new ⟨0⟩ ⟨0⟩)
        (linkedScan ++ [.publish Io.none])).published = some p ∧
      p.childQueries.records = linkedIndex.insertedRecords ∧
      p.rootPageMetrics = linkedRootMetrics ∧ p.rootPageCoverage = .Uncertain ∧
      p.unrecordedPathCount = 0 ∧ p.manifest.generation = ⟨0⟩ := by
  have hjoined : (ScanStore.machine.run (ScanStore.new ⟨0⟩ ⟨0⟩) linkedScan).joined.any (fun j =>
      decide (j.1.nextRunId.toNat + 1 < 2 ^ 64 ∧ SortedBy PageRecord.key j.2.1.insertedRecords ∧
        j.2.2.metrics = linkedRootMetrics ∧ j.2.2.coverage = .Uncertain ∧
        j.1.active.unrecordedPathCount = 0 ∧ j.1.active.generation = ⟨0⟩)) = true := by
    decide +kernel
  obtain ⟨⟨w, t, root⟩, hrun, hchecked⟩ := (Option.any_eq_true _ _).mp hjoined
  obtain ⟨hid, hsorted, hroot, hcoverage, hcount, hgeneration⟩ := of_decide_eq_true hchecked
  obtain ⟨p, hp, hrecords, hmetrics, hshown, hunrecorded, hsame⟩ :=
    published_of_joined ⟨0⟩ ⟨0⟩ _ hrun hid hsorted
  have hindex : linkedIndex = t := by
    unfold linkedIndex
    rw [hrun]
    rfl
  exact ⟨p, hp, by rw [hrecords, hindex], hmetrics.trans hroot, hshown.trans hcoverage,
    hunrecorded.trans hcount, hsame.trans hgeneration⟩

end Excise
