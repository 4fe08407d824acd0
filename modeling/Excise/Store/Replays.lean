import Excise.Store.Generations
import Excise.Store.Intake

/-!
# Failing and replayed admissions

A run that is refused leaves the active generation as it was, but for the live page; one that was
taken in before its compaction failed leaves the generation incomplete. The accepted ids outlive
the runs that were merged away, so a run enters a generation once.
-/

namespace Excise
set_option autoImplicit false

/-! ## Staging programs keep the state of the manifest -/

/-- The program leaves the generation and the state of the manifest alone. -/
def Steady {α : Type} (c : StagingM α) : Prop :=
  ∀ (g : ScanGeneration) (st : ScanGenerationState),
    Triple (fun s => s.manifest.generation = g ∧ s.manifest.state = st) c
      (fun _ s => s.manifest.generation = g ∧ s.manifest.state = st)
      (fun _ s => s.manifest.generation = g ∧ s.manifest.state = st)

def SameState (m m' : ScanManifest) : Prop := m'.generation = m.generation ∧ m'.state = m.state

theorem Steady.of_same {α : Type} {c : StagingM α}
    (h : ∀ s, (∀ a s', c s = .ok a s' → SameState s.manifest s'.manifest) ∧
      ∀ e s', c s = .error e s' → SameState s.manifest s'.manifest) : Steady c := by
  refine fun g st => Triple.of_result fun s hs => ⟨fun a s' hc => ?_, fun e s' hc => ?_⟩
  · obtain ⟨hg, hst⟩ := (h s).1 a s' hc
    exact ⟨hg.trans hs.1, hst.trans hs.2⟩
  · obtain ⟨hg, hst⟩ := (h s).2 e s' hc
    exact ⟨hg.trans hs.1, hst.trans hs.2⟩

theorem Steady.bind {α β : Type} {c : StagingM α} {f : α → StagingM β} (hc : Steady c)
    (hf : ∀ a, Steady (f a)) : Steady (c >>= f) := fun g st => Triple.bind (hc g st) fun a => hf a g st

theorem Steady.pure {α : Type} (a : α) : Steady (Pure.pure a : StagingM α) :=
  fun _ _ => Triple.pure fun _ hs => hs

theorem newRunWriter_steady (io : Io) (g : ScanGeneration) (kind : RunKind) :
    Steady (newRunWriter io g kind) := by
  refine Steady.of_same fun s => ⟨fun a s' hc => ?_, fun e s' hc => ?_⟩ <;>
    unfold newRunWriter at hc <;> split at hc
  · cases hc
  · split at hc <;> cases hc
    exact ⟨rfl, rfl⟩
  · cases hc
    exact ⟨rfl, rfl⟩
  · split at hc <;> cases hc
    exact ⟨rfl, rfl⟩

theorem writeRun_steady {α : Type} (io : Io) (d : RunDescriptor) (outcome : Except ScanStoreError α) :
    Steady (writeRun io d outcome) := by
  refine Steady.of_same fun s => ⟨fun a s' hc => ?_, fun e s' hc => ?_⟩ <;>
    unfold writeRun at hc <;> split at hc
  · cases hc
  · split at hc <;> cases hc
    exact ⟨rfl, rfl⟩
  · cases hc
    exact ⟨rfl, rfl⟩
  · split at hc <;> cases hc
    exact ⟨rfl, rfl⟩

theorem readRuns_steady (io : Io) (pass : ReadPass) (ds : List RunDescriptor) :
    Steady (readRuns io pass ds) := by
  induction ds with
  | nil => exact Steady.pure ()
  | cons d ds ih =>
    refine Steady.bind (Steady.of_same fun s => ⟨fun a s' hc => ?_, fun e s' hc => ?_⟩) fun _ => ih
    all_goals
      unfold readRun at hc
      split at hc <;> cases hc
      exact ⟨rfl, rfl⟩

theorem recordAddedRun_steady (d : RunDescriptor) : Steady (recordAddedRun d) := by
  refine Steady.of_same fun s => ⟨fun a s' hc => ?_, fun e s' hc => ?_⟩ <;>
    unfold recordAddedRun at hc <;> split at hc
  · rename_i m hadd
    cases hc
    obtain ⟨-, -, -, rfl⟩ := ScanManifest.addRun_ok hadd
    exact ⟨rfl, rfl⟩
  · cases hc
  · cases hc
  · cases hc
    exact ⟨rfl, rfl⟩

theorem recordReplacedRuns_steady (removed : List RunDescriptor) (d : RunDescriptor) :
    Steady (recordReplacedRuns removed d) := by
  refine Steady.of_same fun s => ⟨fun a s' hc => ?_, fun e s' hc => ?_⟩ <;>
    unfold recordReplacedRuns at hc <;> split at hc
  · rename_i m hreplace
    cases hc
    obtain ⟨-, -, rfl⟩ := ScanManifest.replaceRuns_ok hreplace
    exact ⟨rfl, rfl⟩
  · cases hc
  · cases hc
  · cases hc
    exact ⟨rfl, rfl⟩

theorem mergeFamily_steady (io : Io) (g : ScanGeneration) (kind : RunKind) (runs : List FactRun) :
    Steady (mergeFamily io g kind runs) := by
  match runs with
  | [] =>
    unfold mergeFamily
    exact (newRunWriter_steady io g kind).bind fun d => (writeRun_steady io d _).bind fun out =>
      (recordAddedRun_steady d).bind fun _ => Steady.pure out
  | [run] =>
    unfold mergeFamily
    exact Steady.pure run
  | first :: second :: rest =>
    rw [mergeFamily]
    · exact (readRuns_steady io .Merge _).bind fun _ => (newRunWriter_steady io g kind).bind fun d =>
        (writeRun_steady io d _).bind fun out =>
          (recordReplacedRuns_steady _ d).bind fun _ => Steady.pure out
    · intro h
      cases h
    · intro run h
      cases h

/-- The staging a result leaves. -/
def stagingAfter : EStateM.Result ScanStoreError Staging Unit → Staging
  | .ok _ s | .error _ s => s

theorem compactLoop_steady (io : Io) (g : ScanGeneration) (kind : RunKind)
    (levels : RunLevels Fact.key) (s : Staging) :
    SameState s.manifest (stagingAfter (compactLoop io g kind levels s).2).manifest := by
  induction hlen : levels.intoRuns.length using Nat.strong_induction_on generalizing levels s with
  | _ len ih =>
    rw [compactLoop]
    split
    · exact ⟨rfl, rfl⟩
    · rename_i level runs rest ht
      obtain ⟨hfull, -, -, hperm⟩ := RunLevels.takeFullLevel_spec ht
      have hmerge := mergeFamily_steady io g kind runs s.manifest.generation s.manifest.state
      split
      · rename_i e s' hm
        exact hmerge.error ⟨rfl, rfl⟩ hm
      · rename_i merged s' hm
        have hs' := hmerge.ok ⟨rfl, rfl⟩ hm
        split
        · exact hs'
        · rename_i levels' hpush
          have h1 := hperm.length_eq
          have h2 := (RunLevels.pushMerged_intoRuns hpush).length_eq
          rw [List.length_append] at h1
          rw [List.length_cons] at h2
          unfold maxActiveInputRuns at hfull
          have hrest := ih levels'.intoRuns.length (by omega) levels' s' rfl
          exact ⟨hrest.1.trans hs'.1, hrest.2.trans hs'.2⟩

/-! ## How an admission ends -/

/-- The manifest, the run levels and the accepted ids. -/
def ActiveGeneration.intake (a : ActiveGeneration) :
    ScanManifest × RunLevels Fact.key × RunLevels Fact.key × Finset UInt64 :=
  (a.manifest, a.pathRuns, a.identityRuns, a.acceptedRunIds)

/-- `a'` is `a` with the run taken in. -/
structure TakenIn (run : FactRun) (a a' : ActiveGeneration) : Prop where
  scanning : a.manifest.state = .Scanning
  belongs : run.descriptor.generation = a.generation
  fresh : run.descriptor.runId ∉ a.acceptedRunIds
  accepted : a'.acceptedRunIds = insert run.descriptor.runId a.acceptedRunIds
  generation : a'.generation = a.generation

namespace ScanStore

def Untouched (s s' : ScanStore) : Prop :=
  s'.active.map ActiveGeneration.intake = s.active.map ActiveGeneration.intake

/-- The run went into the generation, which is then in the state. -/
def Enters (run : FactRun) (s s' : ScanStore) (state : ScanGenerationState) : Prop :=
  ∃ a a', s.active = some a ∧ s'.active = some a' ∧ TakenIn run a a' ∧ a'.manifest.state = state

def AcceptCases (run : FactRun) (s : ScanStore) :
    EStateM.Result ScanStoreError ScanStore Unit → Prop
  | .ok () s' => s.SameOutside s' ∧ Enters run s s' .Scanning
  | .error _ s' => s.SameOutside s' ∧ (Untouched s s' ∨ Enters run s s' .Incomplete)

theorem takeRun_cases {io : Io} {run : FactRun} {a : ActiveGeneration}
    {r : EStateM.Result ScanStoreError ActiveGeneration Unit} (h : takeRun io run a = r) :
    (∃ e a', r = .error e a' ∧ a'.intake = a.intake) ∨
      ∃ m, r = .ok () { a with
          manifest := m, acceptedRunIds := insert run.descriptor.runId a.acceptedRunIds } ∧
        run.descriptor.runId ∉ a.acceptedRunIds ∧ SameState a.manifest m := by
  subst h
  unfold takeRun
  dsimp only
  split
  · exact Or.inl ⟨_, _, rfl, rfl⟩
  · rename_i hfresh
    split
    · exact Or.inl ⟨_, _, rfl, rfl⟩
    · split
      · exact Or.inl ⟨_, _, rfl, rfl⟩
      · rename_i m hadd
        obtain ⟨-, -, -, hm⟩ := ScanManifest.addRun_ok hadd
        exact Or.inr ⟨m, rfl, hfresh, by rw [hm]; exact ⟨rfl, rfl⟩⟩

theorem markActiveIncomplete_scanning {s : ScanStore} {a : ActiveGeneration} (ha : s.active = some a)
    (hscan : a.manifest.state = .Scanning) :
    ∃ m, s.markActiveIncomplete.active = some { a with manifest := m } ∧
      m.generation = a.manifest.generation ∧ m.state = .Incomplete := by
  have haccepts : a.manifest.acceptsRuns = true := by simp [ScanManifest.acceptsRuns, hscan]
  refine ⟨{ a.manifest with state := .Incomplete }, ?_, rfl, rfl⟩
  rw [markActiveIncomplete, ha, Option.map_some, if_pos haccepts,
    a.markIncomplete_eq (by rw [hscan]; rfl)]

/-- Every admission ends in one of these ways, whatever the state. -/
theorem acceptInputRun_cases (io : Io) (run : FactRun) (s : ScanStore) :
    AcceptCases run s (acceptInputRun io run s) := by
  have hsame : s.SameOutside s := SameOutside.refl s
  unfold acceptInputRun
  dsimp only
  split
  · exact ⟨hsame, Or.inl rfl⟩
  rename_i hkind
  split
  · exact ⟨hsame, Or.inl rfl⟩
  rename_i generation hgeneration
  split
  · exact ⟨hsame, Or.inl rfl⟩
  rename_i hbelongs
  split
  · exact ⟨hsame, Or.inl rfl⟩
  rename_i a ha
  have hscan : a.manifest.state = .Scanning ∧ a.generation = generation := by
    rw [acceptingGeneration, ha] at hgeneration
    dsimp only at hgeneration
    split at hgeneration
    · cases hgeneration
    · rename_i hstate
      exact ⟨not_not.mp hstate, Except.ok.inj hgeneration⟩
  rcases takeRun_cases (r := takeRun io run a) rfl with ⟨e, a', htake, hintake⟩ | ⟨m, htake, hfresh, hm⟩
  · rw [htake]
    refine ⟨⟨rfl, rfl, rfl, rfl, rfl⟩, Or.inl ?_⟩
    show some a'.intake = s.active.map _
    rw [ha, hintake]
    rfl
  · rw [htake]
    dsimp only
    split
    · -- an input kind has a family
      rename_i hfamily
      exfalso
      revert hkind hfamily
      cases run.descriptor.kind <;> simp [isInputKind, RunKind.family?]
    · rename_i family _
      unfold compactActive
      dsimp only
      generalize hlevels : (({ a with
        manifest := m, acceptedRunIds := insert run.descriptor.runId a.acceptedRunIds } :
          ActiveGeneration).runsOf family).push run = levels
      have hsteady := compactLoop_steady io m.generation family.kind levels ⟨s.nextRunId, m⟩
      obtain ⟨levels', r, hr⟩ : ∃ levels' r,
          compactLoop io m.generation family.kind levels ⟨s.nextRunId, m⟩ = (levels', r) := ⟨_, _, rfl⟩
      rw [hr] at hsteady
      have hr : compactLoop io ({ a with
        manifest := m, acceptedRunIds := insert run.descriptor.runId a.acceptedRunIds } :
          ActiveGeneration).generation family.kind levels ⟨s.nextRunId, m⟩ = (levels', r) := hr
      rw [hr]
      have htaken (st : Staging) (hst : SameState m st.manifest) (b : ActiveGeneration)
          (hb : b = { a with
            manifest := st.manifest
            acceptedRunIds := insert run.descriptor.runId a.acceptedRunIds }.setRunsOf family levels') :
          TakenIn run a b ∧ b.manifest = st.manifest := by
        subst hb
        refine ⟨⟨hscan.1, ?_, hfresh, ActiveGeneration.setRunsOf_acceptedRunIds .., ?_⟩,
          ActiveGeneration.setRunsOf_manifest ..⟩
        · rw [hscan.2]
          exact not_not.mp hbelongs
        · rw [ActiveGeneration.generation, ActiveGeneration.setRunsOf_manifest, hst.1, hm.1]
          rfl
      cases r with
      | ok u st =>
        obtain ⟨htake', hmanifest⟩ := htaken st hsteady _ rfl
        refine ⟨⟨rfl, rfl, rfl, rfl, rfl⟩, a, _, ha, rfl, htake', ?_⟩
        rw [hmanifest]
        exact hsteady.2.trans (hm.2.trans hscan.1)
      | error e st =>
        obtain ⟨htake', hmanifest⟩ := htaken st hsteady _ rfl
        refine ⟨⟨rfl, rfl, rfl, rfl, rfl⟩, Or.inr ?_⟩
        obtain ⟨m', hactive, hg, hstate⟩ := markActiveIncomplete_scanning
          (s := { s with nextRunId := st.nextRunId, active := some _ }) rfl (by
            rw [hmanifest]
            exact hsteady.2.trans (hm.2.trans hscan.1))
        refine ⟨a, _, ha, hactive, ⟨htake'.scanning, htake'.belongs, htake'.fresh, htake'.accepted, ?_⟩,
          hstate⟩
        exact hg.trans htake'.generation

/-! ## Failing admissions -/

/-- A failure keeps what is published, and either the whole intake, or leaves an incomplete
generation behind that is not published. -/
def FailsSafely {α : Type} (s : ScanStore) : EStateM.Result ScanStoreError ScanStore α → Prop
  | .ok _ _ => True
  | .error _ s' => s.SameOutside s' ∧ (Untouched s s' ∨
      ∃ a', s'.active = some a' ∧ a'.manifest.state = .Incomplete ∧
        ∀ io, publish io s' = .error .ClosedGeneration s')

theorem publish_closed {s : ScanStore} {a : ActiveGeneration} (ha : s.active = some a)
    (hstate : a.manifest.state ≠ .Scanning) (io : Io) :
    publish io s = .error .ClosedGeneration s := by
  rw [publish, ha]
  dsimp only
  rw [if_pos hstate]

theorem acceptInputRun_failsSafely (io : Io) (run : FactRun) (s : ScanStore) :
    FailsSafely s (acceptInputRun io run s) := by
  have hcases := acceptInputRun_cases io run s
  cases hr : acceptInputRun io run s with
  | ok u s' => trivial
  | error e s' =>
    rw [hr] at hcases
    obtain ⟨houtside, hsame | ⟨a, a', -, ha', -, hstate⟩⟩ := hcases
    · exact ⟨houtside, Or.inl hsame⟩
    · refine ⟨houtside, Or.inr ⟨a', ha', hstate, publish_closed ha' ?_⟩⟩
      rw [hstate]
      decide

/-- The ids the active generation has taken in. -/
def acceptedIds (s : ScanStore) : Finset UInt64 :=
  match s.active with
  | none => ∅
  | some a => a.acceptedRunIds

/-- A leased run is refused by its lease, known already, or admitted like any other. -/
theorem acceptLeasedInputRun_cases (io : Io) (lease : WorkLease) (run : FactRun) (s : ScanStore) :
    (∃ e, acceptLeasedInputRun io lease run s = .error e s) ∨
      (run.descriptor.runId ∈ s.acceptedIds ∧ acceptLeasedInputRun io lease run s = .ok false s) ∨
      (run.descriptor.runId ∉ s.acceptedIds ∧
        ((∃ s', acceptInputRun io run s = .ok () s' ∧
            acceptLeasedInputRun io lease run s = .ok true s') ∨
          ∃ e s', acceptInputRun io run s = .error e s' ∧
            acceptLeasedInputRun io lease run s = .error e s')) := by
  have hknown : (s.active.any fun active => decide (run.descriptor.runId ∈ active.acceptedRunIds)) =
      decide (run.descriptor.runId ∈ s.acceptedIds) := by
    unfold acceptedIds
    cases s.active with
    | none => simp
    | some a => rfl
  unfold acceptLeasedInputRun
  rw [hknown]
  split
  · exact Or.inl ⟨_, rfl⟩
  split
  · exact Or.inl ⟨_, rfl⟩
  split
  · exact Or.inl ⟨_, rfl⟩
  split
  · rename_i h
    exact Or.inr (Or.inl ⟨of_decide_eq_true h, rfl⟩)
  · rename_i h
    refine Or.inr (Or.inr ⟨fun hmem => h (decide_eq_true hmem), ?_⟩)
    cases hr : acceptInputRun io run s with
    | ok u s' => exact Or.inl ⟨s', rfl, rfl⟩
    | error e s' => exact Or.inr ⟨e, s', rfl, rfl⟩

theorem acceptLeasedInputRun_failsSafely (io : Io) (lease : WorkLease) (run : FactRun)
    (s : ScanStore) : FailsSafely s (acceptLeasedInputRun io lease run s) := by
  rcases acceptLeasedInputRun_cases io lease run s with
    ⟨e, hr⟩ | ⟨-, hr⟩ | ⟨-, ⟨s', -, hr⟩ | ⟨e, s', haccept, hr⟩⟩
  · rw [hr]
    exact ⟨SameOutside.refl s, Or.inl rfl⟩
  · rw [hr]
    trivial
  · rw [hr]
    trivial
  · rw [hr]
    have hsafe := acceptInputRun_failsSafely io run s
    rw [haccept] at hsafe
    exact hsafe

/-! ## Entering once -/

/-- The id goes into the active generation. -/
def EntersId (id : UInt64) (s s' : ScanStore) : Prop := id ∉ s.acceptedIds ∧ id ∈ s'.acceptedIds

theorem Enters.entersId {run : FactRun} {s s' : ScanStore} {state : ScanGenerationState}
    (h : Enters run s s' state) : EntersId run.descriptor.runId s s' := by
  obtain ⟨a, a', ha, ha', htaken, -⟩ := h
  refine ⟨?_, ?_⟩
  · rw [acceptedIds, ha]
    exact htaken.fresh
  · rw [acceptedIds, ha']
    dsimp only
    rw [htaken.accepted]
    exact Finset.mem_insert_self _ _

/-! ## Properties that last until a generation begins -/

/-- The active generation, if there is one, has the property. -/
def Active (P : ActiveGeneration → Prop) (s : ScanStore) : Prop := ∀ a, s.active = some a → P a

/-- The property outlasts whatever a call does to an active generation. -/
structure Lasting (P : ActiveGeneration → Prop) : Prop where
  same : ∀ a a' : ActiveGeneration, a'.intake = a.intake → P a → P a'
  taken : ∀ run a a', TakenIn run a a' → P a → P a'
  marked : ∀ a, P a → P { a with manifest := { a.manifest with state := .Incomplete } }
  failed : ∀ a a', a.manifest.state = .Scanning → a'.manifest.state = .Incomplete → P a → P a'

variable {P : ActiveGeneration → Prop}

theorem Active.idle {s : ScanStore} (h : s.active = none) : Active P s := by
  intro a ha
  rw [h] at ha
  cases ha

theorem Active.map {s : ScanStore} (h : Active P s) {f : ActiveGeneration → ActiveGeneration}
    (hf : ∀ a, P a → P (f a)) : Active P { s with active := s.active.map f } := by
  intro b hb
  obtain ⟨a, ha, rfl⟩ := Option.map_eq_some_iff.mp hb
  exact hf a (h a ha)

namespace Lasting

variable (hP : Lasting P)
include hP

theorem untouched {s s' : ScanStore} (h : Active P s) (hu : Untouched s s') : Active P s' := by
  intro a' ha'
  unfold Untouched at hu
  rw [ha', Option.map_some] at hu
  obtain ⟨a, ha, hsame⟩ := Option.map_eq_some_iff.mp hu.symm
  exact hP.same a a' hsame.symm (h a ha)

theorem enters {run : FactRun} {s s' : ScanStore} {state : ScanGenerationState} (h : Active P s)
    (he : Enters run s s' state) : Active P s' := by
  obtain ⟨a, a', ha, ha', htaken, -⟩ := he
  intro b hb
  rw [ha'] at hb
  cases hb
  exact hP.taken run a a' htaken (h a ha)

theorem markActiveIncomplete {s : ScanStore} (h : Active P s) : Active P s.markActiveIncomplete := by
  refine h.map fun a ha => ?_
  split
  · rename_i haccepts
    rw [a.markIncomplete_eq]
    · exact hP.marked a ha
    · simp only [ScanManifest.acceptsRuns, Bool.or_eq_true, decide_eq_true_eq] at haccepts
      rcases haccepts with h | h <;> rw [h] <;> rfl
  · exact ha

/-- The program keeps the property, whatever it answers. -/
def Kept {α : Type} (P : ActiveGeneration → Prop) (c : StoreM α) : Prop :=
  Triple (Active P) c (fun _ => Active P) (fun _ => Active P)

omit hP in
theorem Kept.answered {α : Type} {c : StoreM α} (hc : Kept P c) {s : ScanStore} (h : Active P s) :
    Active P (answered (c s)).1 := by
  cases hr : c s with
  | ok a s' => exact hc.ok h hr
  | error e s' => exact hc.error h hr

theorem acceptInputRun (io : Io) (run : FactRun) : Kept P (acceptInputRun io run) := by
  refine Triple.of_result fun s h => ⟨fun u s' hr => ?_, fun e s' hr => ?_⟩
  · have hcases := acceptInputRun_cases io run s
    rw [hr] at hcases
    exact hP.enters h hcases.2
  · have hcases := acceptInputRun_cases io run s
    rw [hr] at hcases
    rcases hcases.2 with hsame | henters
    · exact hP.untouched h hsame
    · exact hP.enters h henters

theorem acceptLeasedInputRun (io : Io) (lease : WorkLease) (run : FactRun) :
    Kept P (acceptLeasedInputRun io lease run) := by
  have haccept := hP.acceptInputRun io run
  refine Triple.of_result fun s h => ?_
  rcases acceptLeasedInputRun_cases io lease run s with
    ⟨e, hr⟩ | ⟨-, hr⟩ | ⟨-, ⟨t, ht, hr⟩ | ⟨e, t, ht, hr⟩⟩ <;> rw [hr] <;>
    refine ⟨fun a s' hc => ?_, fun e s' hc => ?_⟩ <;> cases hc
  · exact h
  · exact h
  · exact haccept.ok h ht
  · exact haccept.error h ht

theorem acceptRuns (io : Io) (runs : List FactRun) : Kept P (acceptRuns io runs) := by
  induction runs with
  | nil => exact Triple.pure fun s hs => hs
  | cons run rest ih => exact Triple.bind (hP.acceptInputRun io run) fun _ => ih

theorem appendObservationBatch (io : Io) (paths : List PathObservation)
    (identities : List IdentityObservation) : Kept P (appendObservationBatch io paths identities) := by
  have hsealed : Kept P (appendSealedObservationBatch io paths identities) := by
    refine Triple.of_result fun s h => ?_
    have hnext (n : UInt64) : Active P { s with nextRunId := n } := h
    refine ⟨fun u s' hr => ?_, fun e s' hr => ?_⟩ <;>
      unfold appendSealedObservationBatch at hr <;> split at hr
    · cases hr
    · cases hr
    · split at hr
      · cases hr
      · exact (hP.acceptRuns io _).ok (hnext _) hr
    · cases hr
      exact h
    · cases hr
      exact h
    · split at hr
      · cases hr
        exact h
      · exact (hP.acceptRuns io _).error (hnext _) hr
  refine Triple.of_result fun s h => ⟨fun u s' hr => ?_, fun e s' hr => ?_⟩ <;>
    unfold ScanStore.appendObservationBatch at hr <;> split at hr
  · rename_i hok
    cases hr
    exact hsealed.ok h hok
  · cases hr
  · cases hr
  · rename_i herror
    cases hr
    exact hP.markActiveIncomplete (hsealed.error h herror)

theorem publish (io : Io) {s : ScanStore} (h : Active P s) (hs : s.Settled) :
    Active P (answered (publish io s)).1 := by
  cases ha : s.active with
  | none =>
    rw [ScanStore.publish, ha]
    exact h
  | some a =>
    by_cases hscan : a.manifest.state = .Scanning
    · have hout := publish_outcome io ha (hs.valid a ha)
      cases hr : ScanStore.publish io s with
      | ok g s' =>
        rw [hr] at hout
        exact Active.idle hout.2.2.1
      | error e s' =>
        rw [hr] at hout
        rcases hout.2 with ⟨-, a', ha', -, hstate⟩ | ⟨-, hidle⟩
        · intro b hb
          obtain rfl : a' = b := Option.some.inj (ha'.symm.trans hb)
          exact hP.failed a a' hscan hstate (h a ha)
        · exact Active.idle hidle
    · rw [publish_closed ha hscan]
      exact h

end Lasting

theorem closeActive_idle (terminal : ScanGenerationState) (s : ScanStore) :
    (answered (closeActive terminal s)).1.active = none := by
  unfold closeActive
  cases ha : s.active with
  | none => exact ha
  | some a =>
    dsimp only
    split
    · rfl
    · split <;> rfl

/-- The call begins a generation: its number is newer than all the store knows. -/
def Begins (s : ScanStore) (call : StoreCall) : Prop := ∃ g, call.begins = some g ∧ s.Advances g

/-- The step lemma. -/
theorem Lasting.step (hP : Lasting P) {s : ScanStore} (h : Active P s) (hs : s.Settled)
    {call : StoreCall} (hcall : ¬s.Begins call) : Active P (s.step call).1 := by
  cases call with
  | beginGeneration generation =>
    have hadv : ¬s.Advances generation := fun hadv => hcall ⟨generation, rfl, hadv⟩
    have hstep : s.step (.beginGeneration generation) =
      answered (ScanStore.beginGeneration generation s) := rfl
    rw [hstep, beginGeneration_refused hadv]
    exact h
  | beginOverlayGeneration io hash base generation removed folder =>
    have hstep : s.step (.beginOverlayGeneration io hash base generation removed folder) =
      answered (beginOverlayGeneration io hash base generation removed folder s) := rfl
    rcases beginOverlayGeneration_outcome io hash base generation removed folder s with
      ⟨-, hr⟩ | ⟨hadv, -⟩
    · rw [hstep, hr]
      exact h
    · exact absurd ⟨generation, rfl, hadv⟩ hcall
  | acceptInputRun io run => exact (hP.acceptInputRun io run).answered h
  | acceptLeasedInputRun io lease run => exact (hP.acceptLeasedInputRun io lease run).answered h
  | appendObservationBatch io paths identities =>
    exact (hP.appendObservationBatch io paths identities).answered h
  | sealObservationBatch io generation paths identities =>
    have hstep : s.step (.sealObservationBatch io generation paths identities) =
      sealElsewhere io generation paths identities s := rfl
    rw [hstep]
    unfold sealElsewhere
    split <;> exact h
  | recordUnrecordedPaths count => exact h.map fun a => hP.same a _ rfl
  | recordUnreadableDirectory path =>
    refine h.map fun a => hP.same a _ ?_
    obtain ⟨hm, hp, hi, hids⟩ := a.recordUnreadable_same path maxTrackedUnreadableDirectories
    rw [ActiveGeneration.intake, hm, hp, hi, hids]
    rfl
  | provisionalPage kept => exact h.map fun a => hP.same a _ rfl
  | publish io => exact hP.publish io h hs
  | discardActive => exact Active.idle (closeActive_idle .Incomplete s)
  | cancelActive => exact Active.idle (closeActive_idle .Cancelled s)
  | takePublication =>
    have hstep : s.step .takePublication = answered (ScanStore.takePublication s) := rfl
    rw [hstep]
    unfold ScanStore.takePublication
    split
    · exact h
    · split <;> exact h

/-! ## A spent id -/

/-- No admission of the id is left: the generation has it, or is closed. -/
def Spent (id : UInt64) (a : ActiveGeneration) : Prop :=
  id ∈ a.acceptedRunIds ∨ a.manifest.state ≠ .Scanning

theorem spent_lasting (id : UInt64) : Lasting (Spent id) where
  same a a' hsame h := by
    have hmanifest : a'.manifest = a.manifest := congrArg Prod.fst hsame
    have hids : a'.acceptedRunIds = a.acceptedRunIds :=
      congrArg (fun x : _ × _ × _ × _ => x.2.2.2) hsame
    rw [Spent, hmanifest, hids]
    exact h
  taken run a a' htaken h := by
    rcases h with hmem | hclosed
    · refine Or.inl ?_
      rw [htaken.accepted]
      exact Finset.mem_insert_of_mem hmem
    · exact absurd htaken.scanning hclosed
  marked a _ := Or.inr (by simp)
  failed a a' _ hstate _ := Or.inr (by simp [hstate])

/-- The generation is closed without the id. -/
def Shut (id : UInt64) (a : ActiveGeneration) : Prop :=
  id ∉ a.acceptedRunIds ∧ a.manifest.state ≠ .Scanning

theorem shut_lasting (id : UInt64) : Lasting (Shut id) where
  same a a' hsame h := by
    have hmanifest : a'.manifest = a.manifest := congrArg Prod.fst hsame
    have hids : a'.acceptedRunIds = a.acceptedRunIds :=
      congrArg (fun x : _ × _ × _ × _ => x.2.2.2) hsame
    rw [Shut, hmanifest, hids]
    exact h
  taken run a a' htaken h := absurd htaken.scanning h.2
  marked a h := ⟨h.1, by simp⟩
  failed a a' hscan _ h := absurd hscan h.2

theorem acceptedIds_of_active {s : ScanStore} {id : UInt64} (h : id ∈ s.acceptedIds) :
    ∃ a, s.active = some a ∧ id ∈ a.acceptedRunIds := by
  unfold acceptedIds at h
  cases ha : s.active with
  | none =>
    rw [ha] at h
    exact absurd h (Finset.notMem_empty id)
  | some a =>
    rw [ha] at h
    exact ⟨a, rfl, h⟩

theorem active_spent {s : ScanStore} {id : UInt64} (h : id ∈ s.acceptedIds) : Active (Spent id) s := by
  intro a ha
  obtain ⟨b, hb, hmem⟩ := acceptedIds_of_active h
  rw [ha] at hb
  cases hb
  exact Or.inl hmem

/-- Until a generation begins, no call takes a spent id in. -/
theorem not_entersId {id : UInt64} {s : ScanStore} (h : Active (Spent id) s) (hs : s.Settled)
    {call : StoreCall} (hcall : ¬s.Begins call) : ¬EntersId id s (s.step call).1 := by
  rintro ⟨hfresh, hmem⟩
  have hshut : Active (Shut id) s := by
    intro a ha
    rw [acceptedIds, ha] at hfresh
    exact ⟨hfresh, (h a ha).resolve_left hfresh⟩
  obtain ⟨a, ha, hin⟩ := acceptedIds_of_active hmem
  exact ((shut_lasting id).step hshut hs hcall a ha).1 hin

/-- A replay is answered without a change: an error, or `false` for a leased run. -/
def RefusesReplay (s : ScanStore) (run : FactRun) : Prop :=
  (∀ io, ∃ e, acceptInputRun io run s = .error e s) ∧
    ∀ io lease, acceptLeasedInputRun io lease run s = .ok false s ∨
      ∃ e, acceptLeasedInputRun io lease run s = .error e s

theorem refusesReplay_of_spent {s : ScanStore} {run : FactRun}
    (h : Active (Spent run.descriptor.runId) s) : RefusesReplay s run := by
  have hplain (io : Io) : ∃ e, acceptInputRun io run s = .error e s := by
    cases ha : s.active with
    | none => exact acceptInputRun_idle ha
    | some a =>
      unfold acceptInputRun
      dsimp only
      split
      · exact ⟨_, rfl⟩
      split
      · exact ⟨_, rfl⟩
      rename_i generation hgeneration
      split
      · exact ⟨_, rfl⟩
      rw [ha]
      rcases h a ha with hmem | hclosed
      · have htake : takeRun io run a = .error .DuplicateInputRun a := by
          unfold takeRun
          dsimp only
          rw [if_pos hmem]
        dsimp only
        rw [htake]
        refine ⟨.DuplicateInputRun, ?_⟩
        dsimp only
        rw [← ha]
      · rw [acceptingGeneration, ha] at hgeneration
        dsimp only at hgeneration
        rw [if_pos hclosed] at hgeneration
        cases hgeneration
  refine ⟨hplain, fun io lease => ?_⟩
  rcases acceptLeasedInputRun_cases io lease run s with
    hr | ⟨-, hr⟩ | ⟨-, ⟨t, ht, hr⟩ | ⟨e, t, ht, hr⟩⟩
  · exact Or.inr hr
  · exact Or.inl hr
  · obtain ⟨e, he⟩ := hplain io
    rw [he] at ht
    cases ht
  · obtain ⟨e', he⟩ := hplain io
    rw [he] at ht
    cases ht
    exact Or.inr ⟨_, hr⟩

/-- An id taken in stays spent along every continuation that begins no generation. -/
theorem spent_run {s : ScanStore} {id : UInt64} (hs : s.Settled) (h : id ∈ s.acceptedIds)
    {calls : List StoreCall} (hcalls : machine.Along (fun s call => ¬s.Begins call) s calls) :
    Active (Spent id) (machine.run s calls) ∧ (machine.run s calls).Settled :=
  machine.run_induction_along (P := fun _ s => Active (Spent id) s ∧ s.Settled) ⟨active_spent h, hs⟩
    (fun _ _ call hP hcall => ⟨(spent_lasting id).step hP.1 hP.2 hcall, (hP.2.step call).1⟩) hcalls

/-- Admissions fail safely in every state, and enter the run when they do not fail. In every
session, an id that has been taken in is refused and enters no more until a generation begins. -/
theorem input_run_admission_safe (session : ScanSessionId) (generation : ScanGeneration) :
    (∀ (s : ScanStore) (io : Io) (run : FactRun), FailsSafely s (acceptInputRun io run s) ∧
      ∀ lease, FailsSafely s (acceptLeasedInputRun io lease run s)) ∧
    (∀ (s s' : ScanStore) (io : Io) (run : FactRun),
      (acceptInputRun io run s = .ok () s' → EntersId run.descriptor.runId s s') ∧
      ∀ lease, (acceptLeasedInputRun io lease run s = .ok true s' →
          EntersId run.descriptor.runId s s') ∧
        (acceptLeasedInputRun io lease run s = .ok false s' →
          run.descriptor.runId ∈ s.acceptedIds ∧ s' = s)) ∧
    ∀ (earlier later : List StoreCall) (id : UInt64),
      id ∈ (machine.run (ScanStore.new session generation) earlier).acceptedIds →
      machine.Along (fun s call => ¬s.Begins call)
        (machine.run (ScanStore.new session generation) earlier) later →
      (∀ run : FactRun, run.descriptor.runId = id →
        RefusesReplay (machine.run (ScanStore.new session generation) (earlier ++ later)) run) ∧
      ∀ call, ¬(machine.run (ScanStore.new session generation) (earlier ++ later)).Begins call →
        ¬EntersId id (machine.run (ScanStore.new session generation) (earlier ++ later))
          (machine.run (ScanStore.new session generation) (earlier ++ later ++ [call])) := by
  have hok {s s' : ScanStore} {io : Io} {run : FactRun} (h : acceptInputRun io run s = .ok () s') :
      EntersId run.descriptor.runId s s' := by
    have hcases := acceptInputRun_cases io run s
    rw [h] at hcases
    exact hcases.2.entersId
  refine ⟨fun s io run => ⟨acceptInputRun_failsSafely io run s,
    fun lease => acceptLeasedInputRun_failsSafely io lease run s⟩, fun s s' io run => ⟨hok, ?_⟩, ?_⟩
  · intro lease
    rcases acceptLeasedInputRun_cases io lease run s with
      ⟨e, hr⟩ | ⟨hmem, hr⟩ | ⟨-, ⟨t, ht, hr⟩ | ⟨e, t, -, hr⟩⟩ <;> rw [hr] <;>
      refine ⟨fun hc => ?_, fun hc => ?_⟩ <;> cases hc
    · exact ⟨hmem, rfl⟩
    · exact hok ht
  · intro earlier later id hmem hlater
    have hspent := spent_run (settled_run session generation earlier) hmem hlater
    rw [← machine.run_append] at hspent
    refine ⟨fun run hrun => refusesReplay_of_spent (hrun.symm ▸ hspent.1), fun call hcall => ?_⟩
    rw [machine.run_append _ _ [call]]
    exact not_entersId hspent.1 hspent.2 hcall

end ScanStore

end Excise
