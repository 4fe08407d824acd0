import Excise.Store.Admission

/-!
# Admitting input runs

The invariant of an active generation (`Valid`): while it scans, the manifest lists exactly the
runs of the two pyramids, no level is full, and the pyramids stand for at most as many runs as were
accepted. Accepting a run keeps it, whatever fails.
-/

namespace Excise
set_option autoImplicit false

namespace ActiveGeneration

variable (a : ActiveGeneration) (family : InputFamily) (levels : RunLevels Fact.key)

@[simp] theorem setRunsOf_runsOf : (a.setRunsOf family levels).runsOf family = levels := by
  cases family <;> rfl

@[simp] theorem setRunsOf_runsOf_other :
    (a.setRunsOf family levels).runsOf family.other = a.runsOf family.other := by
  cases family <;> rfl

@[simp] theorem setRunsOf_manifest : (a.setRunsOf family levels).manifest = a.manifest := by
  cases family <;> rfl

@[simp] theorem setRunsOf_acceptedRunIds :
    (a.setRunsOf family levels).acceptedRunIds = a.acceptedRunIds := by
  cases family <;> rfl

theorem eq_or_eq_other (f family : InputFamily) : f = family ∨ f = family.other := by
  cases f <;> cases family <;> simp [InputFamily.other]

/-- The runs of both pyramids. -/
def allRuns : List FactRun := (a.runsOf .Paths).intoRuns ++ (a.runsOf .Identities).intoRuns

theorem allRuns_perm :
    a.allRuns.Perm ((a.runsOf family).intoRuns ++ (a.runsOf family.other).intoRuns) := by
  cases family
  · exact List.Perm.refl _
  · exact List.perm_append_comm

/-- How many runs both pyramids stand for. -/
def totalWeight : Nat := (a.runsOf .Paths).weight + (a.runsOf .Identities).weight

theorem totalWeight_eq :
    a.totalWeight = (a.runsOf family).weight + (a.runsOf family.other).weight := by
  cases family
  · rfl
  · exact Nat.add_comm _ _

end ActiveGeneration

/-- What holds of an active generation in every state. -/
structure ActiveGeneration.Sound (a : ActiveGeneration) : Prop where
  belong : a.manifest.RunsBelong
  unique : a.manifest.UniqueRuns
  families : ∀ f, Family a.generation f.kind (a.runsOf f).intoRuns

/-- Manifest and pyramids in step. -/
structure ActiveGeneration.InStep (a : ActiveGeneration) : Prop extends a.Sound where
  scanning : a.manifest.state = .Scanning
  held : a.manifest.runs.Perm (a.allRuns.map SealedRun.descriptor)
  bounded : ∀ f, (a.runsOf f).Bounded
  weight : a.totalWeight ≤ a.acceptedRunIds.card

/-- An active generation scans, in step, or is incomplete. -/
def ActiveGeneration.Valid (a : ActiveGeneration) : Prop :=
  a.InStep ∨ a.Sound ∧ a.manifest.state = .Incomplete

theorem ActiveGeneration.Valid.sound {a : ActiveGeneration} (h : a.Valid) : a.Sound := by
  rcases h with h | h
  · exact h.toSound
  · exact h.1

theorem ActiveGeneration.Valid.inStep {a : ActiveGeneration} (h : a.Valid)
    (hs : a.manifest.state = .Scanning) : a.InStep := by
  rcases h with h | h
  · exact h
  · rw [h.2] at hs
    cases hs

/-- Only the manifest, the pyramids and the accepted ids matter. -/
theorem ActiveGeneration.Valid.congr {a b : ActiveGeneration} (h : a.Valid)
    (hm : b.manifest = a.manifest) (hr : ∀ f, b.runsOf f = a.runsOf f)
    (hi : b.acceptedRunIds = a.acceptedRunIds) : b.Valid := by
  have hsound (hs : a.Sound) : b.Sound := by
    refine ⟨by rw [hm]; exact hs.belong, by rw [hm]; exact hs.unique, fun f => ?_⟩
    rw [generation, hm, hr]
    exact hs.families f
  rcases h with h | h
  · refine Or.inl ⟨hsound h.toSound, by rw [hm]; exact h.scanning, ?_, fun f => ?_, ?_⟩
    · rw [hm, allRuns, hr, hr]
      exact h.held
    · rw [hr]
      exact h.bounded f
    · rw [totalWeight, hr, hr, hi]
      exact h.weight
  · exact Or.inr ⟨hsound h.1, by rw [hm]; exact h.2⟩

theorem bounded_empty {ρ κ : Type} [LinearOrder κ] {key : ρ → κ} :
    (RunLevels.empty : RunLevels key).Bounded := by
  intro i
  show 0 < maxActiveInputRuns
  decide

theorem ActiveGeneration.new_inStep (session : ScanSessionId) (generation : ScanGeneration) :
    (ActiveGeneration.new session generation).InStep := by
  have hruns (f : InputFamily) :
      (ActiveGeneration.new session generation).runsOf f = RunLevels.empty := by
    cases f <;> rfl
  refine ⟨⟨?_, ?_, ?_⟩, rfl, ?_, ?_, ?_⟩
  · intro e he
    cases he
  · exact List.nodup_nil
  · intro f run hrun
    rw [hruns, RunLevels.intoRuns_empty] at hrun
    cases hrun
  · rw [ActiveGeneration.allRuns, hruns, hruns, RunLevels.intoRuns_empty]
    exact List.Perm.refl _
  · intro f
    rw [hruns]
    exact bounded_empty
  · rw [ActiveGeneration.totalWeight, hruns, hruns, RunLevels.weight_empty]
    exact Nat.zero_le _

theorem card_ids_le (ids : Finset UInt64) : ids.card ≤ 2 ^ 64 := by
  have hmap : (ids.image UInt64.toNat) ⊆ Finset.range (2 ^ 64) := by
    intro n hn
    obtain ⟨id, -, rfl⟩ := Finset.mem_image.mp hn
    exact Finset.mem_range.mpr id.toNat_lt
  have hcard := Finset.card_le_card hmap
  rw [Finset.card_image_of_injective _ fun a b h => UInt64.toNat_inj.mp h,
    Finset.card_range] at hcard
  exact hcard

theorem weight_lt_pow (ids : Finset UInt64) {w : Nat} (h : w ≤ ids.card) :
    w < maxActiveInputRuns ^ maxRunLevels := by
  have := card_ids_le ids
  have : (2 : Nat) ^ 64 < maxActiveInputRuns ^ maxRunLevels := by decide
  omega

theorem ActiveGeneration.markIncomplete_eq (a : ActiveGeneration)
    (h : a.manifest.state.canTransitionTo .Incomplete = true) :
    a.markIncomplete = { a with manifest := { a.manifest with state := .Incomplete } } := by
  simp [markIncomplete, ScanManifest.transition, h]

theorem ActiveGeneration.Sound.markIncomplete {a : ActiveGeneration} (h : a.Sound)
    (ht : a.manifest.state.canTransitionTo .Incomplete = true) :
    a.markIncomplete.Valid ∧ a.markIncomplete.generation = a.generation ∧
      a.markIncomplete.manifest.state = .Incomplete := by
  rw [a.markIncomplete_eq ht]
  exact ⟨Or.inr ⟨⟨h.belong, h.unique, fun f => by cases f <;> exact h.families _⟩, rfl⟩, rfl, rfl⟩

namespace ScanStore

/-- The parts of the store that only beginning, closing and publishing a generation change. -/
structure SameOutside (s s' : ScanStore) : Prop where
  session : s'.session = s.session
  published : s'.published = s.published
  summaryOnly : s'.summaryOnly = s.summaryOnly
  retired : s'.retiredGeneration = s.retiredGeneration
  handedOff : s'.handedOffGeneration = s.handedOffGeneration

theorem SameOutside.refl (s : ScanStore) : SameOutside s s := ⟨rfl, rfl, rfl, rfl, rfl⟩

theorem SameOutside.trans {s s' s'' : ScanStore} (h : SameOutside s s') (h' : SameOutside s' s'') :
    SameOutside s s'' :=
  ⟨h'.session.trans h.session, h'.published.trans h.published,
    h'.summaryOnly.trans h.summaryOnly, h'.retired.trans h.retired,
    h'.handedOff.trans h.handedOff⟩

end ScanStore

/-! ## Admission of one run -/

/-- The notes of a generation, which admission leaves alone. -/
structure ActiveGeneration.SameNotes (a a' : ActiveGeneration) : Prop where
  unrecorded : a'.unrecordedPathCount = a.unrecordedPathCount
  unreadable : a'.unreadableDirectories = a.unreadableDirectories
  overflowed : a'.unreadableDirectoriesOverflowed = a.unreadableDirectoriesOverflowed

theorem ActiveGeneration.SameNotes.refl (a : ActiveGeneration) : a.SameNotes a := ⟨rfl, rfl, rfl⟩

theorem ActiveGeneration.SameNotes.trans {a b c : ActiveGeneration} (h : a.SameNotes b)
    (h' : b.SameNotes c) : a.SameNotes c :=
  ⟨h'.unrecorded.trans h.unrecorded, h'.unreadable.trans h.unreadable,
    h'.overflowed.trans h.overflowed⟩

/-- `a` goes on as `a'`: the same generation with the same notes. -/
structure ActiveGeneration.Continues (a a' : ActiveGeneration) : Prop where
  valid : a'.Valid
  generation : a'.generation = a.generation
  notes : a.SameNotes a'

theorem ActiveGeneration.Continues.trans {a b c : ActiveGeneration} (h : a.Continues b)
    (h' : b.Continues c) : a.Continues c :=
  ⟨h'.valid, h'.generation.trans h.generation, h.notes.trans h'.notes⟩

/-- What accepting `run` adds: its records enter its family, the other family stays. -/
structure Accepted (O : Prop) (U : List UInt64) (run : FactRun) (a a' : ActiveGeneration)
    (nextRunId : UInt64) : Prop where
  before : a.manifest.state = .Scanning
  inStep : a'.InStep
  generation : a'.generation = a.generation
  notes : a.SameNotes a'
  records : ∀ f : InputFamily, run.descriptor.kind = f.kind →
    (recordsOf (a'.runsOf f).intoRuns).Perm (run.records ++ recordsOf (a.runsOf f).intoRuns)
  others : ∀ f : InputFamily, run.descriptor.kind ≠ f.kind → a'.runsOf f = a.runsOf f
  ids : a'.acceptedRunIds = insert run.descriptor.runId a.acceptedRunIds
  fresh : O → Staging.Fresh U ⟨nextRunId, a'.manifest⟩

theorem admit_ok {io : Io} {run : FactRun} {a a' : ActiveGeneration}
    (h : ScanStore.takeRun io run a = .ok () a') :
    run.descriptor.runId ∉ a.acceptedRunIds ∧
      ∃ m, ScanManifest.addRun run.descriptor a.manifest = .ok () m ∧
        a' = { a with manifest := m, acceptedRunIds := insert run.descriptor.runId a.acceptedRunIds } := by
  unfold ScanStore.takeRun at h
  dsimp only at h
  split at h
  · cases h
  · rename_i hid
    split at h
    · cases h
    · split at h
      · cases h
      · rename_i m hadd
        cases h
        exact ⟨hid, m, hadd, rfl⟩

theorem admit_error {io : Io} {run : FactRun} {a a' : ActiveGeneration} {e : ScanStoreError}
    (h : ScanStore.takeRun io run a = .error e a') :
    (∃ b, a' = { a with hasProvisionalPage := b }) ∧
      (io = Io.none → run.descriptor.runId ∉ a.acceptedRunIds →
        ∃ err m, ScanManifest.addRun run.descriptor a.manifest = .error err m) := by
  unfold ScanStore.takeRun at h
  dsimp only at h
  split at h
  · rename_i hid
    cases h
    exact ⟨⟨_, rfl⟩, fun _ hnot => absurd hid hnot⟩
  · split at h
    · rename_i hread
      cases h
      refine ⟨⟨_, rfl⟩, fun hio _ => ?_⟩
      subst hio
      simp [Io.none] at hread
    · split at h
      · rename_i err m hadd
        cases h
        exact ⟨⟨_, rfl⟩, fun _ _ => ⟨err, m, hadd⟩⟩
      · cases h

/-- The family a run enters holds only runs of its own, in step with the manifest: pushing and
compacting keeps it so. -/
theorem compactPushed_spec {O : Prop} {U : List UInt64} {io : Io} {kind : RunKind} {run : FactRun}
    {levels other : RunLevels Fact.key} {manifest m : ScanManifest} (nextRunId : UInt64)
    (hk : Staging.Kept manifest.generation .Scanning ⟨nextRunId, manifest⟩)
    (hheld : manifest.runs.Perm
      (levels.intoRuns.map SealedRun.descriptor ++ other.intoRuns.map SealedRun.descriptor))
    (hf : Family manifest.generation kind levels.intoRuns)
    (hr : SameFamily manifest.generation kind run)
    (hadd : ScanManifest.addRun run.descriptor manifest = .ok () m) (hq : O → io = Io.none)
    (hfresh : O → Staging.Fresh (run.descriptor.runId :: U) ⟨nextRunId, manifest⟩)
    (hu : O → run.descriptor.runId ∉ U)
    (hn : O → DistinctKeys (run.records ++ recordsOf levels.intoRuns))
    (hw : levels.weight + 1 < maxActiveInputRuns ^ maxRunLevels) :
    CompactOutcome O U manifest.generation .Scanning kind (other.intoRuns.map SealedRun.descriptor)
      (levels.push run)
      (compactLoop io manifest.generation kind (levels.push run) ⟨nextRunId, m⟩) := by
  obtain ⟨-, hgen, hnot, rfl⟩ := ScanManifest.addRun_ok hadd
  have hpush := RunLevels.push_intoRuns levels run
  have hrecords : (recordsOf (levels.push run).intoRuns).Perm
      (run.records ++ recordsOf levels.intoRuns) := recordsOf_perm hpush
  apply compactLoop_spec
  · refine ⟨⟨rfl, hk.state, ?_, ScanManifest.unique_append hk.unique hnot⟩, ?_, fun hO => ?_⟩
    · intro e he
      rcases List.mem_append.mp he with he | he
      · exact hk.belong e he
      · rw [List.mem_singleton.mp he]
        exact hgen
    · refine (List.perm_append_singleton _ _).trans ((hheld.cons run.descriptor).trans ?_)
      exact ((hpush.map SealedRun.descriptor).append_right _).symm
    · obtain ⟨hd, hres, hap⟩ := hfresh hO
      refine ⟨fun e he => ?_, fun u hmem => hres u (List.mem_cons_of_mem _ hmem), fun e he => ?_⟩
      · rcases List.mem_append.mp he with he | he
        · exact hd e he
        · rw [List.mem_singleton.mp he]
          exact hres _ List.mem_cons_self
      · rcases List.mem_append.mp he with he | he
        · exact fun hmem => hap e he (List.mem_cons_of_mem _ hmem)
        · rw [List.mem_singleton.mp he]
          exact hu hO
  · exact (Family.cons hr hf).of_perm hpush
  · exact hq
  · exact fun _ => Or.inl rfl
  · exact fun hO => (hn hO).of_perm hrecords
  · intro _
    rw [RunLevels.weight_push]
    exact hw

/-- A run that the active generation can only refuse when the run ids are exhausted. -/
structure Admissible (U : List UInt64) (run : FactRun) (a : ActiveGeneration) (s : ScanStore) :
    Prop where
  kind : isInputKind run.descriptor.kind = true
  generation : run.descriptor.generation = a.generation
  scanning : a.manifest.state = .Scanning
  fresh : Staging.Fresh (run.descriptor.runId :: U) ⟨s.nextRunId, a.manifest⟩
  reserved : run.descriptor.runId ∉ U
  notAccepted : run.descriptor.runId ∉ a.acceptedRunIds
  distinct : ∀ f : InputFamily, run.descriptor.kind = f.kind →
    DistinctKeys (run.records ++ recordsOf (a.runsOf f).intoRuns)

/-- How accepting `run` may end. -/
def AcceptOutcome (O : Prop) (U : List UInt64) (run : FactRun) (s : ScanStore)
    (a : ActiveGeneration) (r : EStateM.Result ScanStoreError ScanStore Unit) : Prop :=
  match r with
  | .ok () s' => s.SameOutside s' ∧
      ∃ a', s'.active = some a' ∧ isInputKind run.descriptor.kind = true ∧
        Accepted O U run a a' s'.nextRunId
  | .error e s' => s.SameOutside s' ∧ (O → e = .RunIdOverflow) ∧
      ∃ a', s'.active = some a' ∧ a.Continues a' ∧
        -- a generation that still scans was not touched
        (a'.manifest.state = .Scanning →
          a.manifest.state = .Scanning ∧ ∀ f, a'.runsOf f = a.runsOf f)

/-- A compacted family back in the generation, whose manifest `st` then has. -/
theorem ActiveGeneration.Sound.of_compacted {g : ScanGeneration} {state : ScanGenerationState}
    {a : ActiveGeneration} {st : Staging} {family : InputFamily} {levels : RunLevels Fact.key}
    (hk : st.Kept g state) (hf : Family g family.kind levels.intoRuns)
    (ho : Family g family.other.kind (a.runsOf family.other).intoRuns) :
    ({ a with manifest := st.manifest }.setRunsOf family levels).Sound := by
  have hg : ({ a with manifest := st.manifest }.setRunsOf family levels).generation = g := by
    rw [ActiveGeneration.generation, ActiveGeneration.setRunsOf_manifest]
    exact hk.generation
  refine ⟨?_, ?_, fun f => ?_⟩
  · rw [ActiveGeneration.setRunsOf_manifest]
    exact hk.belong
  · rw [ActiveGeneration.setRunsOf_manifest]
    exact hk.unique
  · rw [hg]
    rcases ActiveGeneration.eq_or_eq_other f family with rfl | rfl
    · rw [ActiveGeneration.setRunsOf_runsOf]
      exact hf
    · rw [ActiveGeneration.setRunsOf_runsOf_other]
      have : { a with manifest := st.manifest }.runsOf family.other = a.runsOf family.other := by
        cases family <;> rfl
      rw [this]
      exact ho

/-- A generation whose compaction failed is kept, incomplete. -/
theorem AcceptOutcome.of_failure {O : Prop} {U : List UInt64} {run : FactRun} {s : ScanStore}
    {a b : ActiveGeneration} {e : ScanStoreError} {nextRunId : UInt64} (hs : b.Sound)
    (hstate : b.manifest.state = .Scanning) (hg : b.generation = a.generation)
    (hn : a.SameNotes b) (he : O → e = .RunIdOverflow) :
    AcceptOutcome O U run s a
      (.error e ({ s with nextRunId := nextRunId, active := some b }.markActiveIncomplete)) := by
  have haccepts : b.manifest.acceptsRuns = true := by simp [ScanManifest.acceptsRuns, hstate]
  obtain ⟨hvalid, hgen, hinc⟩ := hs.markIncomplete (by rw [hstate]; rfl)
  refine ⟨⟨rfl, rfl, rfl, rfl, rfl⟩, he, b.markIncomplete, ?_, ⟨hvalid, hgen.trans hg, ?_⟩, ?_⟩
  · simp [ScanStore.markActiveIncomplete, haccepts]
  · rw [b.markIncomplete_eq (by rw [hstate]; rfl)]
    exact ⟨hn.unrecorded, hn.unreadable, hn.overflowed⟩
  · intro hscan
    rw [hinc] at hscan
    cases hscan

theorem InputFamily.kind_inj {f f' : InputFamily} (h : f.kind = f'.kind) : f = f' := by
  cases f <;> cases f' <;> first | rfl | cases h

theorem RunKind.family?_eq_some {kind : RunKind} {f : InputFamily} :
    kind.family? = some f ↔ kind = f.kind := by
  cases kind <;> cases f <;> simp [RunKind.family?, InputFamily.kind]

/-- The end of an admission: what compaction left goes back into the store. -/
theorem AcceptOutcome.of_compact {O : Prop} {U : List UInt64} {io : Io} {run : FactRun}
    {s : ScanStore} {a : ActiveGeneration} {m : ScanManifest} {family : InputFamily}
    (hin : a.InStep) (hkind : run.descriptor.kind = family.kind)
    (hid : run.descriptor.runId ∉ a.acceptedRunIds)
    (hadd : ScanManifest.addRun run.descriptor a.manifest = .ok () m) (hq : O → io = Io.none)
    (hadm : O → Admissible U run a s) {levels : RunLevels Fact.key}
    {result : EStateM.Result ScanStoreError Staging Unit}
    (hr : compactLoop io m.generation family.kind ((a.runsOf family).push run) ⟨s.nextRunId, m⟩ =
      (levels, result)) :
    let back (st : Staging) : ActiveGeneration :=
      { a with
        manifest := st.manifest
        acceptedRunIds := insert run.descriptor.runId a.acceptedRunIds }.setRunsOf family levels
    AcceptOutcome O U run s a
      (match result with
      | .ok () st => .ok () { s with nextRunId := st.nextRunId, active := some (back st) }
      | .error e st =>
        .error e ({ s with nextRunId := st.nextRunId, active := some (back st) }.markActiveIncomplete)) := by
  intro back
  obtain ⟨-, hgen, -, hm⟩ := ScanManifest.addRun_ok hadd
  have hmg : m.generation = a.manifest.generation := by rw [hm]
  have hcard := Finset.card_insert_of_notMem hid
  have htotal := hin.weight
  rw [a.totalWeight_eq family] at htotal
  have hheld := hin.held.trans ((a.allRuns_perm family).map SealedRun.descriptor)
  rw [List.map_append] at hheld
  have hout := compactPushed_spec (U := U) (m := m) s.nextRunId
    ⟨rfl, hin.scanning, hin.belong, hin.unique⟩ hheld (hin.families family) ⟨hgen, hkind⟩ hadd hq
    (fun hO => (hadm hO).fresh) (fun hO => (hadm hO).reserved)
    (fun hO => (hadm hO).distinct family hkind) 
    (weight_lt_pow (insert run.descriptor.runId a.acceptedRunIds) (by omega))
  rw [← hmg, hr] at hout
  have hnotes (st : Staging) : a.SameNotes (back st) := by
    cases family <;> exact ⟨rfl, rfl, rfl⟩
  have hmanifest (st : Staging) : (back st).manifest = st.manifest :=
    ActiveGeneration.setRunsOf_manifest ..
  have hother (st : Staging) : (back st).runsOf family.other = a.runsOf family.other := by
    cases family <;> rfl
  have hsame (st : Staging) : (back st).runsOf family = levels :=
    ActiveGeneration.setRunsOf_runsOf ..
  have hids (st : Staging) :
      (back st).acceptedRunIds = insert run.descriptor.runId a.acceptedRunIds :=
    ActiveGeneration.setRunsOf_acceptedRunIds ..
  have hfother : Family m.generation family.other.kind (a.runsOf family.other).intoRuns := by
    rw [hmg]
    exact hin.families _
  have hback (st : Staging) (hk : st.Kept m.generation .Scanning)
      (hf : Family m.generation family.kind levels.intoRuns) :
      (back st).Sound ∧ (back st).generation = a.generation := by
    refine ⟨ActiveGeneration.Sound.of_compacted (a := { a with
      acceptedRunIds := insert run.descriptor.runId a.acceptedRunIds }) hk hf ?_, ?_⟩
    · cases family <;> exact hfother
    · rw [ActiveGeneration.generation, hmanifest, hk.generation]
      exact hmg
  cases result with
  | ok u st =>
    obtain ⟨hready, hfam, hrec, hbound, hw⟩ := hout
    obtain ⟨hsound, hsg⟩ := hback st hready.toKept hfam
    rw [RunLevels.weight_push] at hw
    have hin' : (back st).InStep := by
      refine ⟨hsound, ?_, ?_, fun f => ?_, ?_⟩
      · rw [hmanifest]
        exact hready.state
      · refine List.Perm.trans ?_ (((back st).allRuns_perm family).map _).symm
        rw [hmanifest, hsame, hother, List.map_append]
        exact hready.held
      · rcases ActiveGeneration.eq_or_eq_other f family with rfl | rfl
        · rw [hsame]
          exact hbound
        · rw [hother]
          exact hin.bounded _
      · rw [ActiveGeneration.totalWeight_eq _ family, hsame, hother, hids]
        have : levels.weight ≤ (a.runsOf family).weight + 1 := hw
        omega
    refine ⟨⟨rfl, rfl, rfl, rfl, rfl⟩, back st, rfl, ?_, hin.scanning, hin', hsg, hnotes st, ?_, ?_, hids st, ?_⟩
    · rw [hkind]
      cases family <;> rfl
    · intro f hf
      obtain rfl := InputFamily.kind_inj (hkind.symm.trans hf)
      rw [hsame]
      exact hrec.trans (recordsOf_perm (RunLevels.push_intoRuns _ _))
    · intro f hf
      rcases ActiveGeneration.eq_or_eq_other f family with rfl | rfl
      · exact absurd hkind hf
      · exact hother st
    · rw [hmanifest]
      exact hready.fresh
  | error e st =>
    obtain ⟨⟨hkept, he⟩, hfam⟩ := hout
    obtain ⟨hsound, hsg⟩ := hback st hkept hfam
    exact AcceptOutcome.of_failure hsound (by rw [hmanifest]; exact hkept.state) hsg (hnotes st) he

/-- Accepting a run keeps the generation valid and everything outside it, whatever fails; an
admissible run on a quiet store is refused only when the run ids are exhausted. -/
theorem acceptInputRun_spec {O : Prop} {U : List UInt64} {io : Io} {run : FactRun} {s : ScanStore}
    {a : ActiveGeneration} (ha : s.active = some a) (hv : a.Valid) (hq : O → io = Io.none)
    (hadm : O → Admissible U run a s) :
    AcceptOutcome O U run s a (ScanStore.acceptInputRun io run s) := by
  have hrefl : s.SameOutside s := ScanStore.SameOutside.refl s
  have hsame : ∃ a', s.active = some a' ∧ a.Continues a' ∧
      (a'.manifest.state = .Scanning →
        a.manifest.state = .Scanning ∧ ∀ f, a'.runsOf f = a.runsOf f) :=
    ⟨a, ha, ⟨hv, rfl, ActiveGeneration.SameNotes.refl a⟩, fun h => ⟨h, fun _ => rfl⟩⟩
  unfold ScanStore.acceptInputRun
  dsimp only
  by_cases hk : isInputKind run.descriptor.kind = true
  · rw [if_neg (by simp [hk])]
    by_cases hscan : a.manifest.state = .Scanning
    · have hacc : s.acceptingGeneration = .ok a.generation := by
        simp [ScanStore.acceptingGeneration, ha, hscan]
      rw [hacc]
      dsimp only
      split
      · rename_i hgen
        exact ⟨hrefl, fun hO => absurd (hadm hO).generation hgen, hsame⟩
      · rw [ha]
        dsimp only
        cases hadmit : ScanStore.takeRun io run a with
        | error e a' =>
          obtain ⟨⟨b, rfl⟩, hquiet⟩ := admit_error hadmit
          refine ⟨⟨rfl, rfl, rfl, rfl, rfl⟩, fun hO => ?_, _, rfl, ⟨?_, rfl, ⟨rfl, rfl, rfl⟩⟩,
            fun _ => ⟨hscan, fun f => by cases f <;> rfl⟩⟩
          · -- the manifest takes a new run of its own generation
            obtain ⟨err, m, hadd⟩ := hquiet (hq hO) (hadm hO).notAccepted
            have hn : a.manifest.contains run.descriptor = false := by
              rw [Bool.eq_false_iff]
              intro hc
              obtain ⟨e, he, hid, -⟩ := ScanManifest.contains_iff.mp hc
              exact (hadm hO).fresh.apart e he (by rw [hid]; exact List.mem_cons_self)
            rw [ScanManifest.addRun_returns (by simp [ScanManifest.acceptsRuns, hscan])
              (hadm hO).generation hn] at hadd
            cases hadd
          · exact hv.congr rfl (fun f => by cases f <;> rfl) rfl
        | ok u a' =>
          obtain ⟨hid, m, hadd, rfl⟩ := admit_ok hadmit
          obtain ⟨family, hfamily⟩ : ∃ f, run.descriptor.kind.family? = some f := by
            revert hk
            cases run.descriptor.kind <;> simp [isInputKind, RunKind.family?]
          rw [hfamily]
          dsimp only
          have hruns :
              { a with
                manifest := m
                acceptedRunIds := insert run.descriptor.runId a.acceptedRunIds }.runsOf family =
                a.runsOf family := by
            cases family <;> rfl
          rw [hruns]
          unfold ScanStore.compactActive
          dsimp only [ActiveGeneration.generation]
          cases hr : compactLoop io m.generation family.kind ((a.runsOf family).push run)
            ⟨s.nextRunId, m⟩ with
          | mk levels result =>
            have hout := AcceptOutcome.of_compact (U := U) (s := s) (hv.inStep hscan)
              (RunKind.family?_eq_some.mp hfamily) hid hadd hq hadm hr
            cases result with
            | ok u st => exact hout
            | error e st => exact hout
    · have hacc : s.acceptingGeneration = .error .ClosedGeneration := by
        simp [ScanStore.acceptingGeneration, ha, hscan]
      rw [hacc]
      exact ⟨hrefl, fun hO => absurd (hadm hO).scanning hscan, hsame⟩
  · rw [if_pos (by simpa using hk)]
    exact ⟨hrefl, fun hO => absurd (hadm hO).kind hk, hsame⟩

end Excise
