import Excise.Store.Accept
import Excise.Store.Publish
import Excise.Store.Summaries

/-!
# What publication does

`reduce_active_generation` and `publish_reporting` from a valid active generation: what a
successful reduction consumed and derived, and how a publication may end.
-/

namespace Excise
set_option autoImplicit false

/-! ## Derived runs -/

theorem foldlM_append_ok {ρ κ : Type} [LinearOrder κ] {key : ρ → κ} {records : List ρ}
    {w w' : RunWriter key} (h : records.foldlM RunWriter.append w = .ok w') :
    w'.descriptor = w.descriptor ∧ w'.records = w.records ++ records := by
  induction records generalizing w with
  | nil =>
    cases h
    exact ⟨rfl, (List.append_nil _).symm⟩
  | cons r rest ih =>
    rw [List.foldlM_cons] at h
    unfold RunWriter.append at h
    split at h
    · obtain ⟨hd, hr⟩ := ih h
      exact ⟨hd, by rw [hr, List.append_assoc, List.singleton_append]⟩
    · cases h

theorem foldlM_append_error {ρ κ : Type} [LinearOrder κ] {key : ρ → κ} {records : List ρ}
    {w : RunWriter key} {e : RunError} (h : records.foldlM RunWriter.append w = .error e) :
    e = .UnsortedKey := by
  induction records generalizing w with
  | nil => cases h
  | cons r rest ih =>
    rw [List.foldlM_cons] at h
    unfold RunWriter.append at h
    split at h
    · exact ih h
    · cases h
      rfl

theorem writeRecords_ok {ρ κ : Type} [LinearOrder κ] {key : ρ → κ} {d : RunDescriptor}
    {records : List ρ} {run : SealedRun key} (h : writeRecords key d records = .ok run) :
    run.descriptor = d ∧ run.records = records := by
  unfold writeRecords at h
  split at h
  · cases h
  · rename_i w hw
    cases h
    obtain ⟨hd, hr⟩ := foldlM_append_ok hw
    exact ⟨hd, hr⟩

theorem foldlM_append_returns {ρ κ : Type} [LinearOrder κ] {key : ρ → κ} {records : List ρ}
    {w : RunWriter key} (h : SortedBy key (w.records ++ records)) :
    ∃ w', records.foldlM RunWriter.append w = .ok w' := by
  induction records generalizing w with
  | nil => exact ⟨w, rfl⟩
  | cons r rest ih =>
    obtain ⟨w₁, happend, hrecords⟩ := RunWriter.append_of_sorted h
    obtain ⟨w', hrest⟩ := @ih w₁ (by rwa [hrecords, List.append_assoc, List.singleton_append])
    refine ⟨w', ?_⟩
    rw [List.foldlM_cons, happend]
    exact hrest

theorem writeRecords_returns {ρ κ : Type} [LinearOrder κ] {key : ρ → κ} {d : RunDescriptor}
    {records : List ρ} (h : SortedBy key records) :
    ∃ run, writeRecords key d records = .ok run ∧ run.records = records := by
  obtain ⟨w, hw⟩ := @foldlM_append_returns _ _ _ key records (RunWriter.new d) h
  refine ⟨w.sealRun, ?_, (foldlM_append_ok hw).2⟩
  unfold writeRecords
  rw [hw]

section

variable {g : ScanGeneration} {kind : RunKind} {st : ScanGenerationState}
  {held : List RunDescriptor}

/-- A derived run holds the derived records, and the manifest lists it. -/
theorem deriveRun_spec {ρ κ : Type} [LinearOrder κ] {key : ρ → κ} (io : Io) (pass : ReadPass)
    (source : RunDescriptor) (records : Except ScanStoreError (List ρ)) :
    Triple (Staging.Ready False [] g st held) (deriveRun key io pass source g kind records)
      (fun run s => s.Ready False [] g st (run.descriptor :: held) ∧ SameFamily g kind run ∧
        records = .ok run.records)
      (Staging.Blocked False g st) := by
  have hq : False → io = Io.none := False.elim
  unfold deriveRun
  apply Triple.bind (Q := fun _ s => s.Ready False [] g st held)
  · apply Triple.of_result
    intro s hs
    refine ⟨fun _ s' h => ?_, fun e s' h => ?_⟩ <;> unfold readRun at h <;> split at h
    · cases h
    · cases h
      exact hs
    · cases h
      exact ⟨hs.toKept, False.elim⟩
    · cases h
  intro _
  apply Triple.bind (newRunWriter_spec hq)
  intro d
  apply Triple.bind (writeRun_spec (fun s hs => hs.1.toKept) hq False.elim)
  intro run
  apply Triple.of_fact (fun s hs => And.intro hs.1.2.1 (And.intro hs.1.2.2.1 hs.2))
  rintro ⟨hdg, hdk, hrun⟩
  obtain ⟨rs, hrs, hdesc⟩ : ∃ rs, records = .ok rs ∧ run.descriptor = d ∧ run.records = rs := by
    cases records with
    | error e => cases hrun
    | ok rs => exact ⟨rs, rfl, writeRecords_ok hrun⟩
  apply Triple.bind ((recordAddedRun_spec (O := False) False.elim False.elim).weaken
    (fun s hs => ⟨hs.1.1, False.elim⟩) (fun _ _ h => h) fun _ _ h => h)
  intro _
  apply Triple.pure
  intro s hs
  rw [hdesc.1]
  exact ⟨hs, ⟨by rw [hdesc.1, hdg], by rw [hdesc.1, hdk]⟩, by rw [hrs, hdesc.2]⟩

end

/-! ## Reduction -/

/-- What the reduction keeps of the generation `a` while its runs are taken out. -/
structure Work.Carries (a : ActiveGeneration) (paths identities : RunLevels Fact.key) (w : Work) :
    Prop where
  notes : a.SameNotes w.active
  paths : w.active.pathRuns = paths
  identities : w.active.identityRuns = identities

def Work.staging (w : Work) : Staging := ⟨w.nextRunId, w.active.manifest⟩

/-- A reduction that stopped: the generation is still whole enough to be kept, incomplete. -/
structure Work.Stopped (a : ActiveGeneration) (w : Work) : Prop where
  kept : w.staging.Kept a.generation .Reducing
  notes : a.SameNotes w.active
  families : ∀ f, Family a.generation f.kind (w.active.runsOf f).intoRuns

theorem onStaging_spec {α : Type} {a : ActiveGeneration} {paths identities : RunLevels Fact.key}
    {c : StagingM α} {P : Staging → Prop} {Q : α → Staging → Prop}
    (hp : Family a.generation .PathObservation paths.intoRuns)
    (hi : Family a.generation .IdentityObservation identities.intoRuns)
    (h : Triple P c Q (Staging.Blocked False a.generation .Reducing)) :
    Triple (fun w => P w.staging ∧ w.Carries a paths identities) (onStaging c)
      (fun r w => Q r w.staging ∧ w.Carries a paths identities) (fun _ w => w.Stopped a) := by
  apply Triple.of_result
  intro w ⟨hw, hc⟩
  refine ⟨fun r w' hr => ?_, fun e w' hr => ?_⟩ <;> unfold onStaging at hr <;> split at hr
  · rename_i s hs
    cases hr
    exact ⟨h.ok hw hs, hc.notes.trans ⟨rfl, rfl, rfl⟩, hc.paths, hc.identities⟩
  · cases hr
  · cases hr
  · rename_i s hs
    cases hr
    refine ⟨(h.error hw hs).1, hc.notes.trans ⟨rfl, rfl, rfl⟩, fun f => ?_⟩
    cases f
    · show Family a.generation _ w.active.pathRuns.intoRuns
      rw [hc.paths]
      exact hp
    · show Family a.generation _ w.active.identityRuns.intoRuns
      rw [hc.identities]
      exact hi

/-- What a successful reduction of `a` consumed and derived. -/
structure ReducedFrom (a : ActiveGeneration) (r : Reduced) : Prop where
  paths : r.pathObservations.records.Perm (recordsOf a.pathRuns.intoRuns)
  identities : r.identityObservations.records.Perm (recordsOf a.identityRuns.intoRuns)
  identityFamily : SameFamily a.generation .IdentityObservation r.identityObservations
  summaries : reducedSummaries a.unreadable r.pathObservations.records =
    .ok r.directorySummaries.records
  summaryFamily : SameFamily a.generation .DirectorySummary r.directorySummaries
  catalog : reducedCatalog r.pathObservations.records = .ok r.pathCatalog.records
  catalogFamily : SameFamily a.generation .PathCatalog r.pathCatalog
  contributions : reducedContributions r.identityObservations.records =
    .ok r.allocationContributions.records

theorem family_empty {g : ScanGeneration} {kind : RunKind} :
    Family g kind (RunLevels.empty : RunLevels Fact.key).intoRuns := by
  intro run hrun
  rw [RunLevels.intoRuns_empty] at hrun
  cases hrun

/-- The reduction of a generation whose manifest lists the runs of its pyramids. -/
theorem reduceActiveGeneration_spec (io : Io) {a : ActiveGeneration} (hs : a.Sound)
    (hstate : a.manifest.state = .Reducing)
    (hheld : a.manifest.runs.Perm (a.allRuns.map SealedRun.descriptor)) :
    Triple (fun w => w.active = a) (reduceActiveGeneration io a.generation a.unreadable)
      (fun r w => ReducedFrom a r ∧ w.Stopped a)
      (fun _ w => w.Stopped a) := by
  have hpaths : Family a.generation .PathObservation a.pathRuns.intoRuns := hs.families .Paths
  have hids : Family a.generation .IdentityObservation a.identityRuns.intoRuns :=
    hs.families .Identities
  have hno (p : Prop) : False → p := False.elim
  unfold reduceActiveGeneration
  apply Triple.bind (Q := fun runs w => runs = a.pathRuns ∧
    w.staging.Ready False [] a.generation .Reducing
      (a.pathRuns.intoRuns.map SealedRun.descriptor ++
        a.identityRuns.intoRuns.map SealedRun.descriptor) ∧
    w.Carries a .empty a.identityRuns)
  · intro w hw
    subst hw
    refine ⟨rfl, ⟨⟨rfl, hstate, hs.belong, hs.unique⟩, ?_, False.elim⟩, ⟨rfl, rfl, rfl⟩, rfl, rfl⟩
    rw [← List.map_append]
    exact hheld
  intro pathRuns
  apply Triple.of_fact (fun w hw => hw.1)
  rintro rfl
  apply Triple.bind ((onStaging_spec family_empty hids
    (mergeRounds_spec io (a.identityRuns.intoRuns.map SealedRun.descriptor) hpaths (hno _)
      (hno _) (hno _))).weaken (fun w hw => hw.2) (fun _ _ h => h) fun _ _ h => h)
  intro paths
  apply Triple.of_fact (fun w hw => hw.1.2)
  rintro ⟨-, hprec⟩
  apply Triple.bind (Q := fun runs w => runs = a.identityRuns ∧
    w.staging.Ready False [] a.generation .Reducing
      (a.identityRuns.intoRuns.map SealedRun.descriptor ++ [paths.descriptor]) ∧
    w.Carries a .empty .empty)
  · intro w hw
    refine ⟨hw.2.identities, hw.1.1.congr ?_, hw.2.notes.trans ⟨rfl, rfl, rfl⟩, hw.2.paths, rfl⟩
    exact (List.perm_append_singleton _ _).symm
  intro identityRuns
  apply Triple.of_fact (fun w hw => hw.1)
  rintro rfl
  apply Triple.bind ((onStaging_spec family_empty family_empty
    (mergeRounds_spec io [paths.descriptor] hids (hno _) (hno _) (hno _))).weaken
      (fun w hw => hw.2) (fun _ _ h => h) fun _ _ h => h)
  intro identities
  apply Triple.of_fact (fun w hw => hw.1.2)
  rintro ⟨hifam, hirec⟩
  apply Triple.bind ((onStaging_spec family_empty family_empty (deriveRun_spec io _ _ _)).weaken
    (fun w hw => ⟨hw.1.1, hw.2⟩) (fun _ _ h => h) fun _ _ h => h)
  intro summaries
  apply Triple.of_fact (fun w hw => hw.1.2)
  rintro ⟨hsfam, hsrec⟩
  apply Triple.bind ((onStaging_spec family_empty family_empty (deriveRun_spec io _ _ _)).weaken
    (fun w hw => ⟨hw.1.1, hw.2⟩) (fun _ _ h => h) fun _ _ h => h)
  intro catalog
  apply Triple.of_fact (fun w hw => hw.1.2)
  rintro ⟨hcfam, hcrec⟩
  apply Triple.bind ((onStaging_spec family_empty family_empty (deriveRun_spec io _ _ _)).weaken
    (fun w hw => ⟨hw.1.1, hw.2⟩) (fun _ _ h => h) fun _ _ h => h)
  intro contributions
  apply Triple.pure
  intro w hw
  obtain ⟨⟨hready, -, hkrec⟩, hcarry⟩ := hw
  refine ⟨⟨hprec, hirec, hifam, hsrec, hsfam, hcrec, hcfam, hkrec⟩, hready.toKept, hcarry.notes,
    fun f => ?_⟩
  cases f
  · show Family a.generation _ w.active.pathRuns.intoRuns
    rw [hcarry.paths]
    exact family_empty
  · show Family a.generation _ w.active.identityRuns.intoRuns
    rw [hcarry.identities]
    exact family_empty

theorem numbered_snd (summaries : List DirectorySummary) :
    (numbered summaries).map Prod.snd = summaries := by
  apply List.map_snd_zip
  rw [List.length_range]

theorem reducedSummaries_ok {u : UnreadableDirectories} {facts : List Fact}
    {records : List (Nat × DirectorySummary)} (h : reducedSummaries u facts = .ok records) :
    ∃ paths, decodePaths facts = .ok paths ∧
      reduceSortedPathStream u paths = .ok (records.map Prod.snd) := by
  obtain ⟨paths, hpaths, h⟩ := bind_eq_ok h
  refine ⟨paths, hpaths, ?_⟩
  split at h
  · cases h
  · rename_i summaries hred
    cases h
    unfold reducePathObservationRun at hred
    split at hred
    · cases hred
    · rename_i summaries' hstream
      split at hred
      · cases hred
      · cases hred
        rw [numbered_snd]
        exact hstream

/-- The summary run always holds the root: only its reading can fail. -/
theorem summaryRoot_returns {io : Io} {u : UnreadableDirectories} {facts : List Fact}
    {run : SummaryRun} (h : reducedSummaries u facts = .ok run.records)
    (hr : io.read .SummaryRoot run.descriptor.slot = none) : ∃ root, summaryRoot io run = .ok root := by
  obtain ⟨paths, -, hstream⟩ := reducedSummaries_ok h
  obtain ⟨e, he, hroot⟩ := (reduceSortedPathStream_ok hstream).2.root
  obtain ⟨r, hmem, rfl⟩ := List.mem_map.mp he
  have hsome : (run.records.reverse.find? fun r => r.2.path.isRoot).isSome = true := by
    rw [List.find?_isSome]
    exact ⟨r, List.mem_reverse.mpr hmem, by rw [hroot]; rfl⟩
  obtain ⟨found, hfound⟩ := Option.isSome_iff_exists.mp hsome
  exact ⟨(found.2.metrics, found.2.coverage), by rw [summaryRoot, hr]; simp only [hfound]⟩

/-! ## Closing a manifest -/

section

variable {m : ScanManifest}

theorem summaryManifest_returns {summaries : RunDescriptor} (hs : m.state = .Reducing)
    (hb : m.RunsBelong) (hg : summaries.generation = m.generation) :
    ∃ m', summaryManifest summaries m = .ok () m' ∧ m'.generation = m.generation := by
  have ha : m.acceptsRuns = true := by simp [ScanManifest.acceptsRuns, hs]
  refine ⟨{ m with runs := [summaries], state := .SummaryOnly }, ?_, rfl⟩
  show EStateM.bind _ _ m = _
  rw [EStateM.bind, ScanManifest.replaceAllRuns_returns ha hg hb]
  simp [ScanManifest.transition, hs, ScanGenerationState.canTransitionTo]

/-- Four runs of four kinds never collide. -/
theorem publishedManifest_returns {childQueries catalog identities summaries : RunDescriptor}
    (hs : m.state = .Reducing) (hb : m.RunsBelong)
    (hq : childQueries.generation = m.generation ∧ childQueries.kind = .ChildQuery)
    (hc : catalog.generation = m.generation ∧ catalog.kind = .PathCatalog)
    (hi : identities.generation = m.generation ∧ identities.kind = .IdentityObservation)
    (hd : summaries.generation = m.generation ∧ summaries.kind = .DirectorySummary) :
    ∃ m', publishedManifest childQueries catalog identities summaries m = .ok () m' ∧
      m'.generation = m.generation := by
  have ha : m.acceptsRuns = true := by simp [ScanManifest.acceptsRuns, hs]
  refine ⟨{ m with runs := [childQueries, catalog, identities, summaries], state := .Published },
    ?_, rfl⟩
  have h1 := ScanManifest.replaceAllRuns_returns ha hq.1 hb
  have h2 := ScanManifest.addRun_returns (m := { m with runs := [childQueries] }) ha hc.1
    (by simp [ScanManifest.contains, RunDescriptor.sameRun, hq.2, hc.2])
  have h3 := ScanManifest.addRun_returns (m := { m with runs := [childQueries, catalog] }) ha hi.1
    (by simp [ScanManifest.contains, RunDescriptor.sameRun, hq.2, hc.2, hi.2])
  have h4 := ScanManifest.addRun_returns (m := { m with runs := [childQueries, catalog, identities] })
    ha hd.1 (by simp [ScanManifest.contains, RunDescriptor.sameRun, hq.2, hc.2, hi.2, hd.2])
  show EStateM.bind _ _ m = _
  rw [EStateM.bind, h1]
  show EStateM.bind _ _ _ = _
  rw [EStateM.bind, h2]
  show EStateM.bind _ _ _ = _
  rw [EStateM.bind]
  dsimp only [List.cons_append, List.nil_append]
  rw [h3]
  show EStateM.bind _ _ _ = _
  rw [EStateM.bind]
  dsimp only [List.cons_append, List.nil_append]
  rw [h4]
  simp [ScanManifest.transition, hs, ScanGenerationState.canTransitionTo]

end

/-! ## The child-query run -/

/-- The environment refuses the child-query run for want of space. -/
def childQueryRefused (io : Io) : Bool :=
  match io.create (.Derived .ChildQuery) with
  | some kind => kind.isCapacity
  | none =>
    match io.index with
    | some fault => isScanStoreCapacityError (.PageIndexFault fault)
    | none => (io.write (.Derived .ChildQuery)).any RunError.isCapacity

/-- What the records themselves can be refused for is not capacity. -/
theorem childQueryRun_error {d : RunDescriptor} {reduced : Reduced} {e : ScanStoreError}
    (h : ((childQueryRecords reduced).bind fun result =>
      (writeRecords PageRecord.key d result.1).map fun run => (run, result.2)) = .error e) :
    isScanStoreCapacityError e = false := by
  rcases bind_eq_error h with h | ⟨result, -, h⟩
  · rcases bind_eq_error h with h | ⟨paths, -, h⟩
    · obtain ⟨fact, -, hf⟩ := mapM_eq_error h
      split at hf
      · split at hf
        · cases hf
        · cases hf
          rfl
      · cases hf
        rfl
    · rcases bind_eq_error h with h | ⟨identities, -, h⟩
      · obtain ⟨fact, -, hf⟩ := mapM_eq_error h
        split at hf
        · cases hf
        · cases hf
          rfl
      · split at h
        · cases h
          rfl
        · cases h
  · unfold writeRecords at h
    split at h
    · rename_i error herror
      cases h
      rw [foldlM_append_error herror]
      rfl
    · cases h

/-- `child_result`, step by step. -/
theorem materialize_eq (io : Io) (reduced : Reduced) (g : ScanGeneration) (s : Staging) :
    materialize io g reduced s =
      if 2 ^ 64 ≤ s.nextRunId.toNat + 1 then .error .RunIdOverflow s
      else
        match io.create (.Derived .ChildQuery) with
        | some error => .error (.Io error) { s with nextRunId := s.nextRunId + 1 }
        | none =>
          match io.index with
          | some fault => .error (.PageIndexFault fault) { s with nextRunId := s.nextRunId + 1 }
          | none =>
            writeRun io ⟨g, s.nextRunId, .ChildQuery⟩ ((childQueryRecords reduced).bind fun result =>
              (writeRecords PageRecord.key ⟨g, s.nextRunId, .ChildQuery⟩ result.1).map fun run =>
                (run, result.2)) { s with nextRunId := s.nextRunId + 1 } := by
  have hslot : (⟨g, s.nextRunId, .ChildQuery⟩ : RunDescriptor).slot = .Derived .ChildQuery := rfl
  unfold materialize
  show EStateM.bind _ _ s = _
  unfold EStateM.bind newRunWriter
  by_cases hid : 2 ^ 64 ≤ s.nextRunId.toNat + 1
  · rw [if_pos hid, if_pos hid]
  · rw [if_neg hid, if_neg hid, hslot]
    cases io.create (.Derived .ChildQuery) with
    | some error => rfl
    | none =>
      cases io.index with
      | some fault => rfl
      | none => rfl

theorem materialize_ok {io : Io} {reduced : Reduced} {g : ScanGeneration} {s s' : Staging}
    {result : ChildQueryRun × PageIndexMetadata}
    (h : materialize io g reduced s = .ok result s') :
    SameFamily g .ChildQuery result.1 ∧
      childQueryRecords reduced = .ok (result.1.records, result.2) := by
  rw [materialize_eq] at h
  split at h
  · cases h
  split at h
  · cases h
  split at h
  · cases h
  unfold writeRun at h
  split at h
  · cases h
  split at h
  · cases h
  · rename_i value hvalue
    cases h
    obtain ⟨pair, hpair, hrun⟩ := bind_eq_ok hvalue
    obtain ⟨run, hwrite, rfl⟩ := map_eq_ok hrun
    obtain ⟨hd, hr⟩ := writeRecords_ok hwrite
    refine ⟨⟨?_, ?_⟩, ?_⟩
    · show run.descriptor.generation = g
      rw [hd]
    · show run.descriptor.kind = .ChildQuery
      rw [hd]
    · rw [hpair, hr]

/-- Records that are in order are written when nothing fails. -/
theorem materialize_returns {reduced : Reduced} {g : ScanGeneration} {s : Staging}
    {result : List PageRecord × PageIndexMetadata} (hid : s.nextRunId.toNat + 1 < 2 ^ 64)
    (hrecords : childQueryRecords reduced = .ok result)
    (hsorted : SortedBy PageRecord.key result.1) :
    ∃ run s', materialize Io.none g reduced s = .ok (run, result.2) s' ∧ run.records = result.1 := by
  obtain ⟨run, hrun, hsame⟩ :=
    @writeRecords_returns _ _ _ PageRecord.key ⟨g, s.nextRunId, .ChildQuery⟩ _ hsorted
  refine ⟨run, { s with nextRunId := s.nextRunId + 1 }, ?_, hsame⟩
  rw [materialize_eq, if_neg (by omega), hrecords]
  show writeRun Io.none _ ((writeRecords PageRecord.key _ result.1).map fun run => (run, result.2)) _
    = _
  rw [hrun]
  rfl

/-- `child_result` fails for capacity exactly when a run id is left and the environment refuses
the run for want of space. -/
theorem materialize_error {io : Io} {reduced : Reduced} {g : ScanGeneration} {s s' : Staging}
    {e : ScanStoreError} (h : materialize io g reduced s = .error e s') :
    isScanStoreCapacityError e = true ↔
      s.nextRunId.toNat + 1 < 2 ^ 64 ∧ childQueryRefused io = true := by
  rw [materialize_eq] at h
  unfold childQueryRefused
  split at h
  · cases h
    simp only [isScanStoreCapacityError, Bool.false_eq_true, false_iff]
    omega
  rename_i hid
  rw [Nat.not_le] at hid
  simp only [hid, true_and]
  split at h
  · cases h
    rfl
  split at h
  · cases h
    rfl
  unfold writeRun at h
  have hslot : (⟨g, s.nextRunId, .ChildQuery⟩ : RunDescriptor).slot = .Derived .ChildQuery := rfl
  rw [hslot] at h
  split at h
  · rename_i hwrite
    cases h
    rw [hwrite]
    rfl
  rename_i hwrite
  rw [hwrite]
  split at h
  · rename_i hout
    cases h
    rw [childQueryRun_error hout]
    rfl
  · cases h

/-- A refused run is not written. -/
theorem materialize_refused {io : Io} {reduced : Reduced} {g : ScanGeneration} {s : Staging}
    (hid : s.nextRunId.toNat + 1 < 2 ^ 64) (hr : childQueryRefused io = true) :
    ∃ e s', materialize io g reduced s = .error e s' ∧ isScanStoreCapacityError e = true := by
  cases h : materialize io g reduced s with
  | error e s' => exact ⟨e, s', rfl, (materialize_error h).mpr ⟨hid, hr⟩⟩
  | ok result s' =>
    exfalso
    unfold childQueryRefused at hr
    rw [materialize_eq, if_neg (by omega)] at h
    cases hcreate : io.create (.Derived .ChildQuery) with
    | some error =>
      rw [hcreate] at h
      cases h
    | none =>
      rw [hcreate] at h hr
      cases hindex : io.index with
      | some fault =>
        rw [hindex] at h
        cases h
      | none =>
        rw [hindex] at h hr
        have hslot : (⟨g, s.nextRunId, .ChildQuery⟩ : RunDescriptor).slot = .Derived .ChildQuery :=
          rfl
        dsimp only at h hr
        unfold writeRun at h
        rw [hslot] at h
        cases hwrite : io.write (.Derived .ChildQuery) with
        | some error =>
          rw [hwrite] at h
          cases h
        | none =>
          rw [hwrite] at hr
          cases hr

/-! ## How a publication ends -/

/-- The active generation as `publish` reduces it. -/
def ActiveGeneration.reducing (a : ActiveGeneration) : ActiveGeneration :=
  { a with manifest := { a.manifest with state := .Reducing } }

/-- The one exit of `publish` that drops the active generation: it was reduced, the child-query
run is refused for want of space, and the summary of the root cannot be read either. -/
def LosesActive (io : Io) (s : ScanStore) (a : ActiveGeneration) : Prop :=
  a.manifest.state = .Scanning ∧
    ∃ reduced w, reduceActiveGeneration io a.generation a.unreadable ⟨s.nextRunId, a.reducing⟩ =
        .ok reduced w ∧
      w.nextRunId.toNat + 1 < 2 ^ 64 ∧ childQueryRefused io = true ∧
      (io.read .SummaryRoot (.Derived .DirectorySummary)).isSome = true

/-- What a publication of `a` shows. -/
structure PublishesInto (a : ActiveGeneration) (p : PublishedGeneration) : Prop where
  generation : p.manifest.generation = a.generation
  records : ∃ reduced, ReducedFrom a reduced ∧
    childQueryRecords reduced = .ok (p.childQueries.records, ⟨p.rootPageMetrics, p.rootPageCoverage⟩)
  unrecorded : p.unrecordedPathCount = a.unrecordedPathCount
  unreadable : p.unreadableDirectories = a.unreadableDirectories
  overflowed : p.unreadableDirectoriesOverflowed = a.unreadableDirectoriesOverflowed

/-- How publishing `a` may end. -/
def PublishOutcome (io : Io) (s : ScanStore) (a : ActiveGeneration) :
    EStateM.Result ScanStoreError ScanStore ScanGeneration → Prop
  | .ok g s' => ¬LosesActive io s a ∧ g = a.generation ∧ s'.active = none ∧
      s'.session = s.session ∧ s'.retiredGeneration = s.retiredGeneration ∧
      s'.handedOffGeneration = s.handedOffGeneration ∧
      ((s'.summaryOnly = none ∧ ∃ p, s'.published = some p ∧ PublishesInto a p) ∨
        (s'.published = s.published ∧
          ∃ m, s'.summaryOnly = some m ∧ m.manifest.generation = a.generation))
  | .error _ s' => s.SameOutside s' ∧
      ((¬LosesActive io s a ∧
          ∃ a', s'.active = some a' ∧ a.Continues a' ∧ a'.manifest.state = .Incomplete) ∨
        (LosesActive io s a ∧ s'.active = none))

theorem ActiveGeneration.SameNotes.of_reducing {a b : ActiveGeneration}
    (h : a.reducing.SameNotes b) : a.SameNotes b := ⟨h.unrecorded, h.unreadable, h.overflowed⟩

/-- A generation that stopped reducing is kept, incomplete. -/
theorem Work.Stopped.markIncomplete {a : ActiveGeneration} {w : Work} (h : w.Stopped a) :
    a.Continues w.active.markIncomplete ∧ w.active.markIncomplete.manifest.state = .Incomplete := by
  have hg : w.active.generation = a.generation := h.kept.generation
  have hsound : w.active.Sound := ⟨h.kept.belong, h.kept.unique, fun f => by
    rw [hg]
    exact h.families f⟩
  have ht : w.active.manifest.state.canTransitionTo .Incomplete = true := by
    rw [show w.active.manifest.state = .Reducing from h.kept.state]
    rfl
  obtain ⟨hvalid, hgen, hstate⟩ := hsound.markIncomplete ht
  refine ⟨⟨hvalid, hgen.trans hg, h.notes.trans ?_⟩, hstate⟩
  rw [ActiveGeneration.markIncomplete_eq _ ht]
  exact ⟨rfl, rfl, rfl⟩

theorem publishReduced_outcome {io : Io} {s : ScanStore} {a : ActiveGeneration} {reduced : Reduced}
    {w : Work} (hscan : a.manifest.state = .Scanning)
    (hred : reduceActiveGeneration io a.generation a.unreadable ⟨s.nextRunId, a.reducing⟩ =
      .ok reduced w)
    (hfrom : ReducedFrom a reduced) (hstop : w.Stopped a) :
    PublishOutcome io s a (ScanStore.publishReduced io w.active reduced
      { s with active := none, nextRunId := w.nextRunId }) := by
  have hg : w.active.manifest.generation = a.generation := hstop.kept.generation
  have hslot : reduced.directorySummaries.descriptor.slot = .Derived .DirectorySummary := by
    rw [RunDescriptor.slot, hfrom.summaryFamily.2]
    rfl
  have hloses : LosesActive io s a ↔ w.nextRunId.toNat + 1 < 2 ^ 64 ∧
      childQueryRefused io = true ∧
      (io.read .SummaryRoot (.Derived .DirectorySummary)).isSome = true := by
    constructor
    · rintro ⟨-, reduced', w', hred', h⟩
      rw [hred] at hred'
      cases hred'
      exact h
    · exact fun h => ⟨hscan, reduced, w, hred, h⟩
  unfold ScanStore.publishReduced
  dsimp only
  cases hm : materialize io w.active.generation reduced ⟨w.nextRunId, w.active.manifest⟩ with
  | error e staging =>
    have hcap := materialize_error hm
    dsimp only
    by_cases hc : isScanStoreCapacityError e = true
    · rw [if_pos hc]
      obtain ⟨hid, hrefused⟩ := hcap.mp hc
      unfold ScanStore.finishSummaryOnlyGeneration
      cases hread : io.read .SummaryRoot (.Derived .DirectorySummary) with
      | some error =>
        have hroot : summaryRoot io reduced.directorySummaries = .error (.Run error) := by
          rw [summaryRoot, hslot, hread]
        rw [hroot]
        exact ⟨⟨rfl, rfl, rfl, rfl, rfl⟩,
          Or.inr ⟨hloses.mpr ⟨hid, hrefused, by rw [hread]; rfl⟩, rfl⟩⟩
      | none =>
        obtain ⟨root, hroot⟩ := summaryRoot_returns hfrom.summaries (by rw [hslot, hread])
        obtain ⟨m, hmanifest, hmg⟩ := summaryManifest_returns hstop.kept.state hstop.kept.belong
          (hfrom.summaryFamily.1.trans hg.symm)
        rw [hroot]
        dsimp only
        rw [show summaryManifest reduced.directorySummaries.descriptor w.active.manifest =
          .ok () m from hmanifest]
        refine ⟨fun hl => ?_, hg, rfl, rfl, rfl, rfl, Or.inr ⟨rfl, _, rfl, hmg.trans hg⟩⟩
        have h := (hloses.mp hl).2.2
        rw [hread] at h
        cases h
    · rw [if_neg hc]
      obtain ⟨hcont, hstate⟩ := hstop.markIncomplete
      refine ⟨⟨rfl, rfl, rfl, rfl, rfl⟩, Or.inl ⟨fun hl => hc ?_, _, rfl, hcont, hstate⟩⟩
      have h := hloses.mp hl
      exact hcap.mpr ⟨h.1, h.2.1⟩
  | ok result staging =>
    obtain ⟨hfam, hrecords⟩ := materialize_ok hm
    obtain ⟨m, hmanifest, hmg⟩ := publishedManifest_returns hstop.kept.state hstop.kept.belong hfam
      ⟨hfrom.catalogFamily.1.trans hg.symm, hfrom.catalogFamily.2⟩
      ⟨hfrom.identityFamily.1.trans hg.symm, hfrom.identityFamily.2⟩
      ⟨hfrom.summaryFamily.1.trans hg.symm, hfrom.summaryFamily.2⟩
    unfold ScanStore.installPublication
    dsimp only
    rw [show publishedManifest result.1.descriptor reduced.pathCatalog.descriptor
      reduced.identityObservations.descriptor reduced.directorySummaries.descriptor
      w.active.manifest = .ok () m from hmanifest]
    refine ⟨fun hl => ?_, hg, rfl, rfl, rfl, rfl, Or.inl ⟨rfl, _, rfl, ?_⟩⟩
    · obtain ⟨hid, hrefused, -⟩ := hloses.mp hl
      obtain ⟨e, s', he, -⟩ := @materialize_refused _ reduced
        w.active.generation ⟨w.nextRunId, w.active.manifest⟩ hid hrefused
      rw [hm] at he
      cases he
    exact ⟨hmg.trans hg, ⟨reduced, hfrom, hrecords⟩, hstop.notes.unrecorded,
      hstop.notes.unreadable, hstop.notes.overflowed⟩

theorem ActiveGeneration.InStep.reduce {a : ActiveGeneration} (h : a.InStep) (io : Io) :
    Triple (fun w => w.active = a.reducing) (reduceActiveGeneration io a.generation a.unreadable)
      (fun r w => ReducedFrom a r ∧ w.Stopped a) (fun _ w => w.Stopped a) := by
  have hsound : a.reducing.Sound := by
    refine ⟨h.belong, h.unique, fun f => ?_⟩
    cases f
    · exact h.families .Paths
    · exact h.families .Identities
  refine (reduceActiveGeneration_spec io hsound rfl h.held).weaken (fun _ hw => hw)
    (fun r w hr => ⟨?_, ?_⟩) fun _ w hw => ?_
  · obtain ⟨h1, h2, h3, h4, h5, h6, h7, h8⟩ := hr.1
    exact ⟨h1, h2, h3, h4, h5, h6, h7, h8⟩
  · exact ⟨hr.2.kept, hr.2.notes.of_reducing, hr.2.families⟩
  · exact ⟨hw.kept, hw.notes.of_reducing, hw.families⟩

/-- `publish` of a generation that is scanning. -/
theorem publish_scanning {io : Io} {s : ScanStore} {a : ActiveGeneration} (ha : s.active = some a)
    (hscan : a.manifest.state = .Scanning) :
    ScanStore.publish io s =
      match reduceActiveGeneration io a.generation a.unreadable ⟨s.nextRunId, a.reducing⟩ with
      | .error error w => ScanStore.finishIncompleteGeneration w.active error
          { s with active := none, nextRunId := w.nextRunId }
      | .ok reduced w => ScanStore.publishReduced io w.active reduced
          { s with active := none, nextRunId := w.nextRunId } := by
  have ht : ScanManifest.transition .Reducing a.manifest =
      .ok () { a.manifest with state := .Reducing } := by
    simp [ScanManifest.transition, hscan, ScanGenerationState.canTransitionTo]
  unfold ScanStore.publish
  rw [ha]
  dsimp only
  rw [if_neg (by simp [hscan]), ht]
  rfl

/-- Publishing a valid generation ends in one of the ways of `PublishOutcome`. -/
theorem publish_outcome (io : Io) {s : ScanStore} {a : ActiveGeneration} (ha : s.active = some a)
    (hv : a.Valid) : PublishOutcome io s a (ScanStore.publish io s) := by
  by_cases hscan : a.manifest.state = .Scanning
  · rw [publish_scanning ha hscan]
    have hspec := (hv.inStep hscan).reduce io
    cases hred : reduceActiveGeneration io a.generation a.unreadable ⟨s.nextRunId, a.reducing⟩ with
    | error e w =>
      obtain ⟨hcont, hstate⟩ := (hspec.error rfl hred).markIncomplete
      refine ⟨⟨rfl, rfl, rfl, rfl, rfl⟩, Or.inl ⟨?_, _, rfl, hcont, hstate⟩⟩
      rintro ⟨-, reduced, w', hok, -⟩
      rw [hred] at hok
      cases hok
    | ok reduced w =>
      obtain ⟨hfrom, hstop⟩ := hspec.ok rfl hred
      exact publishReduced_outcome hscan hred hfrom hstop
  · unfold ScanStore.publish
    rw [ha]
    dsimp only
    rw [if_pos (by simpa using hscan)]
    refine ⟨ScanStore.SameOutside.refl s, Or.inl ⟨fun hl => hscan hl.1, a, ha, ?_, ?_⟩⟩
    · exact ⟨hv, rfl, ActiveGeneration.SameNotes.refl a⟩
    · rcases hv with h | h
      · exact absurd h.scanning hscan
      · exact h.2

/-- What was reduced and joined is published. -/
theorem publish_returns {s : ScanStore} {a : ActiveGeneration} {reduced : Reduced} {w : Work}
    (ha : s.active = some a) (hv : a.Valid) (hscan : a.manifest.state = .Scanning)
    (hred : reduceActiveGeneration Io.none a.generation a.unreadable ⟨s.nextRunId, a.reducing⟩ =
      .ok reduced w)
    {run : ChildQueryRun} {metadata : PageIndexMetadata} {staging : Staging}
    (hm : materialize Io.none w.active.generation reduced ⟨w.nextRunId, w.active.manifest⟩ =
      .ok (run, metadata) staging) :
    ∃ s' p, ScanStore.publish Io.none s = .ok w.active.generation s' ∧ s'.published = some p ∧
      p.childQueries = run ∧ p.rootPageMetrics = metadata.rootMetrics ∧
      p.rootPageCoverage = metadata.rootCoverage ∧
      p.unrecordedPathCount = w.active.unrecordedPathCount ∧
      p.manifest.generation = w.active.generation := by
  obtain ⟨hfrom, hstop⟩ := ((hv.inStep hscan).reduce Io.none).ok rfl hred
  have hg : w.active.manifest.generation = a.generation := hstop.kept.generation
  obtain ⟨m, hmanifest, hmg⟩ := publishedManifest_returns hstop.kept.state hstop.kept.belong
    (materialize_ok hm).1 ⟨hfrom.catalogFamily.1.trans hg.symm, hfrom.catalogFamily.2⟩
    ⟨hfrom.identityFamily.1.trans hg.symm, hfrom.identityFamily.2⟩
    ⟨hfrom.summaryFamily.1.trans hg.symm, hfrom.summaryFamily.2⟩
  rw [publish_scanning ha hscan, hred]
  dsimp only
  unfold ScanStore.publishReduced
  dsimp only
  rw [hm]
  dsimp only
  unfold ScanStore.installPublication
  rw [show publishedManifest _ _ _ _ w.active.manifest = .ok () m from hmanifest]
  exact ⟨_, _, rfl, rfl, rfl, rfl, rfl, rfl, hmg⟩

end Excise
