import Excise.Store.ScanStore

/-!
# What the staging programs keep

Merging, compacting and the tiered merge of a fact family, each with one triple. The manifest
lists exactly the runs that are held (`Ready`): a merge exchanges the consumed runs for their
successor and keeps every record. With `O` the same triples say that nothing but the end of the
64-bit run ids can fail: the environment is quiet, ids are fresh and no key occurs twice.
-/

namespace Excise
set_option autoImplicit false

/-- All records of some runs. -/
def recordsOf (runs : List FactRun) : List Fact := (runs.map SealedRun.records).flatten

@[simp] theorem recordsOf_cons (run : FactRun) (runs : List FactRun) :
    recordsOf (run :: runs) = run.records ++ recordsOf runs := rfl

@[simp] theorem recordsOf_nil : recordsOf [] = [] := rfl

theorem recordsOf_append (runs runs' : List FactRun) :
    recordsOf (runs ++ runs') = recordsOf runs ++ recordsOf runs' := by
  simp [recordsOf]

theorem recordsOf_perm {runs runs' : List FactRun} (h : runs.Perm runs') :
    (recordsOf runs).Perm (recordsOf runs') := (h.map _).flatten

/-- Only one fact of each key. -/
def DistinctKeys (facts : List Fact) : Prop := (facts.map Fact.key).Nodup

theorem DistinctKeys.of_perm {facts facts' : List Fact} (h : DistinctKeys facts)
    (hp : facts'.Perm facts) : DistinctKeys facts' := ((hp.map _).nodup_iff).mpr h

theorem DistinctKeys.left {facts facts' : List Fact} (h : DistinctKeys (facts ++ facts')) :
    DistinctKeys facts := by
  rw [DistinctKeys, List.map_append] at h
  exact h.of_append_left

theorem DistinctKeys.right {facts facts' : List Fact} (h : DistinctKeys (facts ++ facts')) :
    DistinctKeys facts' := by
  rw [DistinctKeys, List.map_append] at h
  exact h.of_append_right

/-- Every run belongs to the family `kind` of generation `g`. -/
def Family (g : ScanGeneration) (kind : RunKind) (runs : List FactRun) : Prop :=
  ∀ run ∈ runs, SameFamily g kind run

theorem Family.of_perm {g : ScanGeneration} {kind : RunKind} {runs runs' : List FactRun}
    (h : Family g kind runs) (hp : runs'.Perm runs) : Family g kind runs' :=
  fun run hrun => h run (hp.subset hrun)

theorem Family.cons {g : ScanGeneration} {kind : RunKind} {run : FactRun} {runs : List FactRun}
    (hr : SameFamily g kind run) (h : Family g kind runs) : Family g kind (run :: runs) := by
  intro r hmem
  rcases List.mem_cons.mp hmem with rfl | hmem
  · exact hr
  · exact h r hmem

theorem Family.append_iff {g : ScanGeneration} {kind : RunKind} {runs runs' : List FactRun} :
    Family g kind (runs ++ runs') ↔ Family g kind runs ∧ Family g kind runs' := by
  simp [Family, or_imp, forall_and]

/-! ## The staging invariant -/

/-- What no staging program ever changes or breaks. -/
structure Staging.Kept (g : ScanGeneration) (st : ScanGenerationState) (s : Staging) : Prop where
  generation : s.manifest.generation = g
  state : s.manifest.state = st
  belong : s.manifest.RunsBelong
  unique : s.manifest.UniqueRuns

/-- The ids of the manifest and the reserved ids `U` of runs still with the scanner were drawn
from the counter, and differ. -/
structure Staging.Fresh (U : List UInt64) (s : Staging) : Prop where
  drawn : ∀ e ∈ s.manifest.runs, e.runId < s.nextRunId
  reserved : ∀ u ∈ U, u < s.nextRunId
  apart : ∀ e ∈ s.manifest.runs, e.runId ∉ U

/-- The manifest lists exactly `held`; under `O` the ids are fresh. -/
structure Staging.Ready (O : Prop) (U : List UInt64) (g : ScanGeneration)
    (st : ScanGenerationState) (held : List RunDescriptor) (s : Staging) : Prop
    extends s.Kept g st where
  held : s.manifest.runs.Perm held
  fresh : O → s.Fresh U

/-- `d` was drawn just now. -/
structure Staging.Drawn (U : List UInt64) (d : RunDescriptor) (s : Staging) : Prop where
  below : d.runId < s.nextRunId
  above : ∀ e ∈ s.manifest.runs, e.runId < d.runId
  aboveReserved : ∀ u ∈ U, u < d.runId

theorem Staging.Fresh.append {U : List UInt64} {s : Staging} {d : RunDescriptor}
    {m : ScanManifest} {runs : List RunDescriptor} (h : s.Fresh U) (hd : s.Drawn U d)
    (hsub : ∀ e ∈ runs, e ∈ s.manifest.runs) :
    Staging.Fresh U ⟨s.nextRunId, { m with runs := runs ++ [d] }⟩ := by
  refine ⟨fun e he => ?_, h.reserved, fun e he => ?_⟩
  · rcases List.mem_append.mp he with he | he
    · exact h.drawn e (hsub e he)
    · rw [List.mem_singleton.mp he]
      exact hd.below
  · rcases List.mem_append.mp he with he | he
    · exact h.apart e (hsub e he)
    · rw [List.mem_singleton.mp he]
      exact fun hu => absurd (hd.aboveReserved _ hu) (UInt64.lt_irrefl _)

/-- A failure keeps the invariant, and under `O` only exhausted run ids fail. -/
def Staging.Blocked (O : Prop) (g : ScanGeneration) (st : ScanGenerationState)
    (error : ScanStoreError) (s : Staging) : Prop :=
  s.Kept g st ∧ (O → error = .RunIdOverflow)

theorem Staging.Ready.congr {O : Prop} {U : List UInt64} {g : ScanGeneration} {st : ScanGenerationState}
    {held held' : List RunDescriptor} {s : Staging} (h : s.Ready O U g st held)
    (hp : held.Perm held') : s.Ready O U g st held' :=
  ⟨h.toKept, h.held.trans hp, h.fresh⟩

/-- The state is one in which a manifest takes runs. -/
def TakesRuns (st : ScanGenerationState) : Prop := st = .Scanning ∨ st = .Reducing

theorem Staging.Kept.acceptsRuns {g : ScanGeneration} {st : ScanGenerationState} {s : Staging}
    (h : s.Kept g st) (hst : TakesRuns st) : s.manifest.acceptsRuns = true := by
  rcases hst with rfl | rfl <;> simp [ScanManifest.acceptsRuns, h.state]

section Programs

variable {O : Prop} {U : List UInt64} {io : Io} {g : ScanGeneration} {kind : RunKind} {st : ScanGenerationState}
  {held : List RunDescriptor}

/-- A new run id is above every id of the manifest. -/
theorem newRunWriter_spec (hq : O → io = Io.none) :
    Triple (Staging.Ready O U g st held) (newRunWriter io g kind)
      (fun d s => s.Ready O U g st held ∧ d.generation = g ∧ d.kind = kind ∧
        (O → s.Drawn U d))
      (Staging.Blocked O g st) := by
  apply Triple.of_result
  intro s hs
  have hkept : Staging.Kept g st { s with nextRunId := s.nextRunId + 1 } :=
    ⟨hs.generation, hs.state, hs.belong, hs.unique⟩
  refine ⟨fun d s' h => ?_, fun e s' h => ?_⟩ <;> unfold newRunWriter at h <;> split at h
  · cases h
  · rename_i hmax
    split at h
    · cases h
    · cases h
      have hnext : s.nextRunId < s.nextRunId + 1 := by
        rw [UInt64.lt_iff_toNat_lt, UInt64.toNat_add]
        simp only [UInt64.toNat_one]
        omega
      refine ⟨⟨hkept, hs.held, fun hO => ?_⟩, rfl, rfl, fun hO => ?_⟩
      · obtain ⟨hd, hr, ha⟩ := hs.fresh hO
        exact ⟨fun e he => UInt64.lt_trans (hd e he) hnext,
          fun u hu => UInt64.lt_trans (hr u hu) hnext, ha⟩
      · exact ⟨hnext, (hs.fresh hO).drawn, (hs.fresh hO).reserved⟩
  · cases h
    exact ⟨hs.toKept, fun _ => rfl⟩
  · split at h
    · rename_i hcreate
      cases h
      refine ⟨hkept, fun hO => ?_⟩
      rw [hq hO] at hcreate
      cases hcreate
    · cases h

theorem writeRun_spec {α : Type} {d : RunDescriptor} {outcome : Except ScanStoreError α}
    {P : Staging → Prop} (hP : ∀ s, P s → s.Kept g st) (hq : O → io = Io.none)
    (ho : O → ∃ a, outcome = .ok a) :
    Triple P (writeRun io d outcome) (fun a s => P s ∧ outcome = .ok a)
      (Staging.Blocked O g st) := by
  apply Triple.of_result
  intro s hs
  refine ⟨fun a s' h => ?_, fun e s' h => ?_⟩ <;> unfold writeRun at h <;> split at h
  · cases h
  · split at h
    · cases h
    · cases h
      exact ⟨hs, rfl⟩
  · rename_i hwrite
    cases h
    refine ⟨hP s hs, fun hO => ?_⟩
    rw [hq hO] at hwrite
    cases hwrite
  · split at h
    · cases h
      refine ⟨hP s hs, fun hO => ?_⟩
      obtain ⟨a, ha⟩ := ho hO
      cases ha
    · cases h

theorem readRuns_spec {pass : ReadPass} {ds : List RunDescriptor} {P : Staging → Prop}
    (hP : ∀ s, P s → s.Kept g st) (hq : O → io = Io.none) :
    Triple P (readRuns io pass ds) (fun _ s => P s) (Staging.Blocked O g st) := by
  induction ds with
  | nil => exact Triple.pure fun s hs => hs
  | cons d ds ih =>
    have hread : Triple P (readRun io pass d) (fun _ s => P s) (Staging.Blocked O g st) := by
      apply Triple.of_result
      intro s hs
      refine ⟨fun a s' h => ?_, fun e s' h => ?_⟩ <;> unfold readRun at h <;> split at h
      · cases h
      · cases h
        exact hs
      · rename_i hfault
        cases h
        refine ⟨hP s hs, fun hO => ?_⟩
        rw [hq hO] at hfault
        cases hfault
      · cases h
    exact Triple.bind hread fun _ => ih

/-- Recording one more run. -/
theorem recordAddedRun_spec {d : RunDescriptor} (hst : O → TakesRuns st)
    (hg : O → d.generation = g) :
    Triple (fun s => s.Ready O U g st held ∧
        (O → s.Drawn U d))
      (recordAddedRun d) (fun _ s => s.Ready O U g st (d :: held)) (Staging.Blocked O g st) := by
  apply Triple.of_result
  intro s ⟨hs, hnew⟩
  refine ⟨fun _ s' h => ?_, fun e s' h => ?_⟩ <;> unfold recordAddedRun at h <;> split at h
  · rename_i m hadd
    cases h
    obtain ⟨-, hgen, hn, rfl⟩ := ScanManifest.addRun_ok hadd
    refine ⟨⟨hs.generation, hs.state, ?_, ScanManifest.unique_append hs.unique hn⟩, ?_, ?_⟩
    · intro e he
      rcases List.mem_append.mp he with he | he
      · exact hs.belong e he
      · rw [List.mem_singleton.mp he]
        exact hgen
    · exact (List.perm_append_singleton d s.manifest.runs).trans (hs.held.cons d)
    · exact fun hO => (hs.fresh hO).append (hnew hO) fun e he => he
  · cases h
  · cases h
  · rename_i err m hadd
    cases h
    refine ⟨hs.toKept, fun hO => ?_⟩
    -- under `O` the run is new and belongs here, so the manifest takes it
    have hn : s.manifest.contains d = false := by
      rw [Bool.eq_false_iff]
      intro hc
      obtain ⟨e, he, hid, -⟩ := ScanManifest.contains_iff.mp hc
      have := (hnew hO).above e he
      rw [hid] at this
      exact absurd this (UInt64.lt_irrefl _)
    rw [ScanManifest.addRun_returns (hs.acceptsRuns (hst hO)) (by rw [hg hO, hs.generation]) hn]
      at hadd
    cases hadd

/-- Recording a merged run in place of the runs it was merged from. -/
theorem recordReplacedRuns_spec {removed : List RunDescriptor} {d : RunDescriptor}
    (hst : O → TakesRuns st) (hg : O → d.generation = g) :
    Triple (fun s => s.Ready O U g st (removed ++ held) ∧
        (O → s.Drawn U d))
      (recordReplacedRuns removed d) (fun _ s => s.Ready O U g st (d :: held))
      (Staging.Blocked O g st) := by
  apply Triple.of_result
  intro s ⟨hs, hnew⟩
  have hretain := ScanManifest.retain_perm hs.unique hs.held
  refine ⟨fun _ s' h => ?_, fun e s' h => ?_⟩ <;> unfold recordReplacedRuns at h <;> split at h
  · rename_i m hrep
    cases h
    obtain ⟨hgen, hn, rfl⟩ := ScanManifest.replaceRuns_ok hrep
    refine ⟨⟨hs.generation, hs.state, ?_, ?_⟩, ?_, ?_⟩
    · intro e he
      rcases List.mem_append.mp he with he | he
      · exact hs.belong e (ScanManifest.retain_subset e he)
      · rw [List.mem_singleton.mp he]
        exact hgen
    · exact ScanManifest.unique_append (ScanManifest.retain_unique hs.unique) hn
    · exact (List.perm_append_singleton d _).trans (hretain.cons d)
    · exact fun hO => (hs.fresh hO).append (hnew hO) ScanManifest.retain_subset
  · cases h
  · cases h
  · rename_i err m hrep
    cases h
    refine ⟨hs.toKept, fun hO => ?_⟩
    have hmem : ∀ e ∈ removed, e ∈ s.manifest.runs := fun e he =>
      hs.held.symm.subset (List.mem_append_left _ he)
    have hn : (s.manifest.retain removed).contains d = false := by
      rw [Bool.eq_false_iff]
      intro hc
      obtain ⟨e, he, hid, -⟩ := ScanManifest.contains_iff.mp hc
      have := (hnew hO).above e (ScanManifest.retain_subset e he)
      rw [hid] at this
      exact absurd this (UInt64.lt_irrefl _)
    rw [ScanManifest.replaceRuns_returns (hs.acceptsRuns (hst hO))
      (by rw [hg hO, hs.generation]) (fun e he => hs.belong e (hmem e he))
      (fun e he => ScanManifest.contains_iff.mpr ⟨e, hmem e he, rfl, rfl⟩) hn] at hrep
    cases hrep

theorem mergedRun_ok {runs : List FactRun} {d : RunDescriptor} {out : FactRun}
    (hf : Family d.generation d.kind runs) (h : mergedRun runs d = .ok out) :
    out.descriptor = d ∧ out.records.Perm (recordsOf runs) := by
  unfold mergedRun at h
  rcases mergeSortedRuns_spec hf with ⟨-, w, hw, hd, hp⟩ | ⟨-, he⟩
  · rw [hw] at h
    cases h
    exact ⟨hd, hp⟩
  · rw [he] at h
    cases h

theorem mergedRun_returns {runs : List FactRun} {d : RunDescriptor}
    (hf : Family d.generation d.kind runs) (hn : DistinctKeys (recordsOf runs)) :
    ∃ out, mergedRun runs d = .ok out := by
  unfold mergedRun
  rcases mergeSortedRuns_spec hf with ⟨-, w, hw, -, -⟩ | ⟨hnot, -⟩
  · rw [hw]
    exact ⟨_, rfl⟩
  · exact absurd hn hnot

/-- `merge_family`: the consumed runs leave the manifest, their successor with all of their
records enters it. -/
theorem mergeFamily_spec (io : Io) (held : List RunDescriptor) {runs : List FactRun}
    (hf : Family g kind runs) (hq : O → io = Io.none)
    (hst : O → TakesRuns st) (hn : O → DistinctKeys (recordsOf runs)) :
    Triple (Staging.Ready O U g st (runs.map SealedRun.descriptor ++ held))
      (mergeFamily io g kind runs)
      (fun out s => s.Ready O U g st (out.descriptor :: held) ∧ SameFamily g kind out ∧
        out.records.Perm (recordsOf runs))
      (Staging.Blocked O g st) := by
  match runs with
  | [] =>
    unfold mergeFamily
    apply Triple.bind (newRunWriter_spec hq)
    intro d
    apply Triple.bind (writeRun_spec (fun s hs => hs.1.toKept) hq fun _ => ⟨_, rfl⟩)
    intro out
    apply Triple.of_fact (fun s hs => And.intro hs.1.2.1 (And.intro hs.1.2.2.1 hs.2))
    rintro ⟨hdg, hdk, hout⟩
    cases hout
    apply Triple.bind ((recordAddedRun_spec hst fun _ => hdg).weaken
      (fun s hs => ⟨hs.1.1, hs.1.2.2.2⟩) (fun _ _ h => h) fun _ _ h => h)
    intro _
    apply Triple.pure
    intro s hs
    exact ⟨hs, ⟨hdg, hdk⟩, List.Perm.refl _⟩
  | [run] =>
    unfold mergeFamily
    apply Triple.pure
    intro s hs
    exact ⟨hs, hf run List.mem_cons_self, by simp⟩
  | first :: second :: rest =>
    rw [mergeFamily]
    · apply Triple.bind (readRuns_spec (fun s hs => hs.toKept) hq)
      intro _
      apply Triple.bind (newRunWriter_spec hq)
      intro d
      apply Triple.of_fact (fun s hs => And.intro hs.2.1 hs.2.2.1)
      rintro ⟨hdg, hdk⟩
      have hfd : Family d.generation d.kind (first :: second :: rest) := by rwa [hdg, hdk]
      apply Triple.bind (writeRun_spec (fun s hs => hs.1.toKept) hq
        fun hO => mergedRun_returns hfd (hn hO))
      intro out
      apply Triple.of_fact (fun s hs => mergedRun_ok hfd hs.2)
      rintro ⟨hdesc, hperm⟩
      apply Triple.bind ((recordReplacedRuns_spec hst fun _ => hdg).weaken
        (fun s hs => ⟨hs.1.1, hs.1.2.2.2⟩) (fun _ _ h => h) fun _ _ h => h)
      intro _
      apply Triple.pure
      intro s hs
      rw [hdesc]
      exact ⟨hs, ⟨by rw [hdesc, hdg], by rw [hdesc, hdk]⟩, hperm⟩
    · intro h
      cases h
    · intro run h
      cases h

/-- What a compaction of `levels` leaves when it ends: the same records in a pyramid without a
full level, and a manifest in step with it. -/
structure Compacted (O : Prop) (U : List UInt64) (g : ScanGeneration) (st : ScanGenerationState) (kind : RunKind)
    (held : List RunDescriptor) (levels levels' : RunLevels Fact.key) (s : Staging) : Prop where
  ready : s.Ready O U g st (levels'.intoRuns.map SealedRun.descriptor ++ held)
  family : Family g kind levels'.intoRuns
  records : (recordsOf levels'.intoRuns).Perm (recordsOf levels.intoRuns)
  bounded : levels'.Bounded
  weight : levels'.weight ≤ levels.weight

/-- How a compaction of `levels` may end. -/
def CompactOutcome (O : Prop) (U : List UInt64) (g : ScanGeneration) (st : ScanGenerationState) (kind : RunKind)
    (held : List RunDescriptor) (levels : RunLevels Fact.key)
    (r : RunLevels Fact.key × EStateM.Result ScanStoreError Staging Unit) : Prop :=
  match r.2 with
  | .ok () s => Compacted O U g st kind held levels r.1 s
  | .error e s => Staging.Blocked O g st e s ∧ Family g kind r.1.intoRuns

theorem CompactOutcome.of_step {levels levels' : RunLevels Fact.key}
    {r : RunLevels Fact.key × EStateM.Result ScanStoreError Staging Unit}
    (h : CompactOutcome O U g st kind held levels' r)
    (hr : (recordsOf levels'.intoRuns).Perm (recordsOf levels.intoRuns))
    (hw : levels'.weight ≤ levels.weight) : CompactOutcome O U g st kind held levels r := by
  obtain ⟨last, result⟩ := r
  cases result with
  | ok _ s =>
    exact ⟨h.ready, h.family, h.records.trans hr, h.bounded, Nat.le_trans h.weight hw⟩
  | error e s => exact h

theorem compactLoop_spec {levels : RunLevels Fact.key} {s : Staging}
    (hs : s.Ready O U g st (levels.intoRuns.map SealedRun.descriptor ++ held))
    (hf : Family g kind levels.intoRuns) (hq : O → io = Io.none) (hst : O → TakesRuns st)
    (hn : O → DistinctKeys (recordsOf levels.intoRuns))
    (hw : O → levels.weight < maxActiveInputRuns ^ maxRunLevels) :
    CompactOutcome O U g st kind held levels (compactLoop io g kind levels s) := by
  induction hlen : levels.intoRuns.length using Nat.strong_induction_on generalizing levels s with
  | _ n ih =>
    rw [compactLoop]
    split
    · rename_i hnone
      exact ⟨hs, hf, List.Perm.refl _, RunLevels.takeFullLevel_eq_none hnone, Nat.le_refl _⟩
    · rename_i level runs rest ht
      obtain ⟨hfull, -, -, hperm⟩ := RunLevels.takeFullLevel_spec ht
      have hfboth := Family.append_iff.mp (hf.of_perm hperm)
      have hrecords := recordsOf_perm hperm
      rw [recordsOf_append] at hrecords
      have hheld : s.Ready O U g st
          (runs.map SealedRun.descriptor ++ (rest.intoRuns.map SealedRun.descriptor ++ held)) := by
        refine hs.congr ?_
        rw [← List.append_assoc, ← List.map_append]
        exact (hperm.symm.map _).append_right _
      have hmerge := mergeFamily_spec (U := U) io (rest.intoRuns.map SealedRun.descriptor ++ held) hfboth.1 hq hst
        fun hO => ((hn hO).of_perm hrecords).left
      split
      · rename_i e s' hm
        exact ⟨hmerge.error hheld hm, hfboth.2⟩
      · rename_i merged s' hm
        obtain ⟨hready, hfam, hmrec⟩ := hmerge.ok hheld hm
        split
        · rename_i hover
          refine ⟨⟨hready.toKept, fun hO => ?_⟩, hfboth.2⟩
          have := RunLevels.pow_le_weight_of_overflow ht hover
          have := hw hO
          omega
        · rename_i levels' hpush
          have hpushed := RunLevels.pushMerged_intoRuns hpush
          have hrecords' : (recordsOf levels'.intoRuns).Perm (recordsOf levels.intoRuns) := by
            refine (recordsOf_perm hpushed).trans ?_
            rw [recordsOf_cons]
            exact (hmrec.append_right _).trans hrecords
          have hweight := RunLevels.weight_pushMerged ht hpush
          have hless : levels'.intoRuns.length < n := by
            have h1 := hperm.length_eq
            have h2 := hpushed.length_eq
            rw [List.length_append] at h1
            rw [List.length_cons] at h2
            unfold maxActiveInputRuns at hfull
            omega
          have hready' : s'.Ready O U g st (levels'.intoRuns.map SealedRun.descriptor ++ held) :=
            hready.congr ((hpushed.symm.map _).append_right _)
          have hnext := ih _ hless hready' ((Family.cons hfam hfboth.2).of_perm hpushed)
            (fun hO => (hn hO).of_perm hrecords')
            (fun hO => Nat.lt_of_le_of_lt hweight (hw hO)) rfl
          exact hnext.of_step hrecords' hweight

/-- One round of the tiered merge. -/
theorem mergeGroups_spec (io : Io) (held : List RunDescriptor) {pending : List FactRun}
    (hf : Family g kind pending)
    (hq : O → io = Io.none) (hst : O → TakesRuns st) (hn : O → DistinctKeys (recordsOf pending)) :
    Triple (Staging.Ready O U g st (pending.map SealedRun.descriptor ++ held))
      (mergeGroups io g kind pending)
      (fun next s => s.Ready O U g st (next.map SealedRun.descriptor ++ held) ∧ Family g kind next ∧
        (recordsOf next).Perm (recordsOf pending))
      (Staging.Blocked O g st) := by
  induction hlen : pending.length using Nat.strong_induction_on generalizing pending held with
  | _ n ih =>
    cases pending with
    | nil =>
      rw [mergeGroups]
      apply Triple.pure
      intro s hs
      exact ⟨hs, hf, List.Perm.refl _⟩
    | cons first rest =>
      rw [mergeGroups]
      -- the group and the runs after it
      have hsplit : first :: rest =
          (first :: rest.take (maxActiveInputRuns - 1)) ++ rest.drop (maxActiveInputRuns - 1) := by
        rw [List.cons_append, List.take_append_drop]
      have hless : (rest.drop (maxActiveInputRuns - 1)).length < n := by
        rw [List.length_cons] at hlen
        rw [List.length_drop]
        omega
      generalize first :: rest.take (maxActiveInputRuns - 1) = group at *
      generalize rest.drop (maxActiveInputRuns - 1) = later at *
      rw [hsplit] at hf hn ⊢
      rw [Family.append_iff] at hf
      rw [recordsOf_append] at hn ⊢
      apply Triple.bind ((mergeFamily_spec io (later.map SealedRun.descriptor ++ held)
        hf.1 hq hst fun hO => (hn hO).left).weaken
        (fun s hs => by rwa [List.map_append, List.append_assoc] at hs)
        (fun _ _ h => h) fun _ _ h => h)
      intro merged
      apply Triple.of_fact (fun s hs => hs.2)
      rintro ⟨hfam, hrec⟩
      apply Triple.bind ((ih _ hless (merged.descriptor :: held) hf.2
        (fun hO => (hn hO).right) rfl).weaken
        (fun s hs => hs.1.congr List.perm_middle.symm) (fun _ _ h => h) fun _ _ h => h)
      intro next
      apply Triple.pure
      rintro s ⟨hs, hfn, hrn⟩
      refine ⟨hs.congr List.perm_middle, Family.cons hfam hfn, ?_⟩
      rw [recordsOf_cons]
      exact hrec.append hrn

/-- The tiered merge ends in one run with every record of the family. -/
theorem mergeRounds_spec (io : Io) (held : List RunDescriptor) {pending : List FactRun}
    (hf : Family g kind pending)
    (hq : O → io = Io.none) (hst : O → TakesRuns st) (hn : O → DistinctKeys (recordsOf pending)) :
    Triple (Staging.Ready O U g st (pending.map SealedRun.descriptor ++ held))
      (fun s => mergeRounds io g kind pending s)
      (fun out s => s.Ready O U g st (out.descriptor :: held) ∧ SameFamily g kind out ∧
        out.records.Perm (recordsOf pending))
      (Staging.Blocked O g st) := by
  induction hlen : pending.length using Nat.strong_induction_on generalizing pending with
  | _ n ih =>
    intro s hs
    rcases pending with _ | ⟨first, _ | ⟨second, rest⟩⟩
    · simp only [mergeRounds]
      exact mergeFamily_spec io held hf hq hst hn s hs
    · simp only [mergeRounds]
      exact ⟨hs, hf first List.mem_cons_self, by simp⟩
    · have hgroups := mergeGroups_spec (U := U) io held hf hq hst hn
      simp only [mergeRounds]
      cases hm : mergeGroups io g kind (first :: second :: rest) s with
      | error e s' => exact hgroups.error hs hm
      | ok next s' =>
        obtain ⟨hready, hfn, hrn⟩ := hgroups.ok hs hm
        have hless := ((mergeGroups_length io g kind _).ok trivial hm).2 (by simp)
        rw [hlen] at hless
        have hnext := (ih _ hless hfn (fun hO => (hn hO).of_perm hrn) rfl).weaken
          (fun _ h => h) (fun _ _ h => And.intro h.1 (And.intro h.2.1 (h.2.2.trans hrn)))
          fun _ _ h => h
        exact hnext s' hready

end Programs

end Excise
