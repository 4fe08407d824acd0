import Excise.Coordinator.Queues

/-!
# The generation manifest

`manifest.rs` and the generation lifecycle of `scan_session.rs`. A mutation keeps the manifest it
reached when it fails, as `&mut self` does. The byte count of an entry is left out: nothing
reads it.
-/

namespace Excise
set_option autoImplicit false

inductive ScanGenerationState where
  | Creating
  | Scanning
  | Reducing
  | Published
  | Incomplete
  | Cancelled
  | SummaryOnly
  deriving DecidableEq, Repr

def ScanGenerationState.canTransitionTo : ScanGenerationState → ScanGenerationState → Bool
  | .Creating, .Scanning | .Creating, .Incomplete | .Creating, .Cancelled => true
  | .Scanning, .Reducing | .Scanning, .SummaryOnly | .Scanning, .Incomplete
  | .Scanning, .Cancelled => true
  | .Reducing, .Published | .Reducing, .SummaryOnly | .Reducing, .Incomplete
  | .Reducing, .Cancelled => true
  | _, _ => false

inductive RunKind where
  | PathObservation
  | IdentityObservation
  | AllocationContribution
  | DirectorySummary
  | ChildQuery
  | PathCatalog
  deriving DecidableEq, Repr

def isInputKind : RunKind → Bool
  | .PathObservation | .IdentityObservation => true
  | _ => false

structure RunDescriptor where
  generation : ScanGeneration
  runId : UInt64
  kind : RunKind
  deriving DecidableEq

/-- The comparison the manifest makes: generations are checked apart. -/
def RunDescriptor.sameRun (a b : RunDescriptor) : Bool := a.runId == b.runId && a.kind == b.kind

inductive ManifestError where
  | RunGenerationMismatch
  | DuplicateRun
  | ClosedForRuns
  | InvalidTransition
  | MissingRun
  deriving DecidableEq, Repr

structure ScanManifest where
  session : ScanSessionId
  generation : ScanGeneration
  state : ScanGenerationState
  runs : List RunDescriptor

namespace ScanManifest

def new (session : ScanSessionId) (generation : ScanGeneration) : ScanManifest :=
  ⟨session, generation, .Creating, []⟩

/-- `matches!(self.state, Scanning | Reducing)`. -/
def acceptsRuns (m : ScanManifest) : Bool := m.state = .Scanning || m.state = .Reducing

def contains (m : ScanManifest) (run : RunDescriptor) : Bool := m.runs.any (·.sameRun run)

def addRun (run : RunDescriptor) : EStateM ManifestError ScanManifest Unit := fun m =>
  if !m.acceptsRuns then .error .ClosedForRuns m
  else if run.generation ≠ m.generation then .error .RunGenerationMismatch m
  else if m.contains run then .error .DuplicateRun m
  else .ok () { m with runs := m.runs ++ [run] }

/-- `self.runs.retain(..)` of `replace_runs`. -/
def retain (m : ScanManifest) (removed : List RunDescriptor) : ScanManifest :=
  { m with runs := m.runs.filter fun existing => !removed.any fun d => existing.sameRun d }

def replaceRuns (removed : List RunDescriptor) (added : RunDescriptor) :
    EStateM ManifestError ScanManifest Unit := fun m =>
  if !m.acceptsRuns then .error .ClosedForRuns m
  else if added.generation ≠ m.generation then .error .RunGenerationMismatch m
  else if removed.any fun d => d.generation ≠ m.generation then .error .RunGenerationMismatch m
  else if removed.any fun d => !m.contains d then .error .MissingRun m
  -- the consumed runs are already gone when the successor turns out to be a duplicate
  else if (m.retain removed).contains added then .error .DuplicateRun (m.retain removed)
  else .ok () { m.retain removed with runs := (m.retain removed).runs ++ [added] }

def replaceAllRuns (added : RunDescriptor) : EStateM ManifestError ScanManifest Unit := fun m =>
  replaceRuns m.runs added m

def transition (next : ScanGenerationState) : EStateM ManifestError ScanManifest Unit := fun m =>
  if m.state.canTransitionTo next then .ok () { m with state := next }
  else .error .InvalidTransition m

end ScanManifest

theorem RunDescriptor.sameRun_iff {a b : RunDescriptor} :
    a.sameRun b = true ↔ a.runId = b.runId ∧ a.kind = b.kind := by
  simp [RunDescriptor.sameRun]

theorem RunDescriptor.sameRun_self (a : RunDescriptor) : a.sameRun a = true :=
  sameRun_iff.mpr ⟨rfl, rfl⟩

namespace ScanManifest

variable {m m' : ScanManifest} {run added : RunDescriptor} {removed : List RunDescriptor}

theorem contains_iff : m.contains run = true ↔ ∃ e ∈ m.runs, e.runId = run.runId ∧ e.kind = run.kind := by
  simp [contains, List.any_eq_true, RunDescriptor.sameRun_iff]

/-- Every run of a manifest belongs to its generation. -/
def RunsBelong (m : ScanManifest) : Prop := ∀ e ∈ m.runs, e.generation = m.generation

theorem addRun_ok (h : addRun run m = .ok () m') :
    m.acceptsRuns = true ∧ run.generation = m.generation ∧ m.contains run = false ∧
      m' = { m with runs := m.runs ++ [run] } := by
  unfold addRun at h
  split at h
  · cases h
  · split at h
    · cases h
    · split at h
      · cases h
      · cases h
        simp_all

theorem addRun_error {e : ManifestError} (h : addRun run m = .error e m') : m' = m := by
  unfold addRun at h
  split at h
  · cases h; rfl
  · split at h
    · cases h; rfl
    · split at h
      · cases h; rfl
      · cases h

theorem addRun_returns (ha : m.acceptsRuns = true) (hg : run.generation = m.generation)
    (hn : m.contains run = false) : addRun run m = .ok () { m with runs := m.runs ++ [run] } := by
  simp [addRun, ha, hg, hn]

theorem replaceRuns_ok (h : replaceRuns removed added m = .ok () m') :
    added.generation = m.generation ∧ (m.retain removed).contains added = false ∧
      m' = { m with runs := (m.retain removed).runs ++ [added] } := by
  unfold replaceRuns at h
  split at h
  · cases h
  · split at h
    · cases h
    · split at h
      · cases h
      · split at h
        · cases h
        · split at h
          · cases h
          · rename_i hg _ _ hn
            cases h
            exact ⟨not_not.mp hg, by simpa using hn, rfl⟩

theorem replaceRuns_returns (ha : m.acceptsRuns = true) (hg : added.generation = m.generation)
    (hr : ∀ d ∈ removed, d.generation = m.generation) (hc : ∀ d ∈ removed, m.contains d = true)
    (hn : (m.retain removed).contains added = false) :
    replaceRuns removed added m =
      .ok () { m with runs := (m.retain removed).runs ++ [added] } := by
  unfold replaceRuns
  rw [if_neg (by simp [ha]), if_neg (by simp [hg]), if_neg (by simpa using hr),
    if_neg (by simpa using hc), if_neg (by simp [hn])]
  rfl

theorem retain_subset : ∀ e ∈ (m.retain removed).runs, e ∈ m.runs :=
  fun _ he => List.mem_of_mem_filter he

/-- No two runs of a manifest share their id and kind. -/
def UniqueRuns (m : ScanManifest) : Prop := (m.runs.map fun d => (d.runId, d.kind)).Nodup

theorem unique_append (hu : m.UniqueRuns) (hn : m.contains run = false) :
    { m with runs := m.runs ++ [run] }.UniqueRuns := by
  rw [UniqueRuns, List.map_append, List.nodup_append]
  refine ⟨hu, List.nodup_singleton _, ?_⟩
  intro a ha b hb hab
  rw [List.map_singleton, List.mem_singleton] at hb
  obtain ⟨e, he, rfl⟩ := List.mem_map.mp ha
  subst hb
  rw [Prod.mk.injEq] at hab
  have hc : m.contains run = true := contains_iff.mpr ⟨e, he, hab⟩
  rw [hn] at hc
  cases hc

theorem retain_unique (hu : m.UniqueRuns) : (m.retain removed).UniqueRuns :=
  hu.sublist (List.filter_sublist.map _)

/-- Retaining takes out exactly the removed runs. -/
theorem retain_perm {kept : List RunDescriptor} (hu : m.UniqueRuns)
    (hp : m.runs.Perm (removed ++ kept)) : (m.retain removed).runs.Perm kept := by
  have hnodup : ((removed ++ kept).map fun d => (d.runId, d.kind)).Nodup :=
    ((hp.map _).nodup_iff).mp hu
  rw [List.map_append, List.nodup_append] at hnodup
  have hr : removed.filter (fun e => !removed.any fun d => e.sameRun d) = [] := by
    apply List.filter_eq_nil_iff.mpr
    intro e he
    have : (removed.any fun d => e.sameRun d) = true :=
      List.any_eq_true.mpr ⟨e, he, e.sameRun_self⟩
    simp [this]
  have hk : kept.filter (fun e => !removed.any fun d => e.sameRun d) = kept := by
    apply List.filter_eq_self.mpr
    intro e he
    rw [Bool.not_eq_true', List.any_eq_false]
    intro d hd hsame
    obtain ⟨h1, h2⟩ := RunDescriptor.sameRun_iff.mp hsame
    refine hnodup.2.2 _ (List.mem_map_of_mem hd) _ (List.mem_map_of_mem he) ?_
    rw [h1, h2]
  have hfilter := hp.filter fun e => !removed.any fun d => e.sameRun d
  rw [List.filter_append, hr, hk, List.nil_append] at hfilter
  exact hfilter

theorem retain_self : (m.retain m.runs).runs = [] := by
  apply List.filter_eq_nil_iff.mpr
  intro e he
  have hany : (m.runs.any fun d => e.sameRun d) = true :=
    List.any_eq_true.mpr ⟨e, he, e.sameRun_self⟩
  simp [hany]

/-- Replacing everything cannot fail while the manifest is open: nothing is left to collide. -/
theorem replaceAllRuns_returns (ha : m.acceptsRuns = true) (hg : added.generation = m.generation)
    (hb : m.RunsBelong) : replaceAllRuns added m = .ok () { m with runs := [added] } := by
  have hc : ∀ d ∈ m.runs, m.contains d = true := fun d hd =>
    contains_iff.mpr ⟨d, hd, rfl, rfl⟩
  have hn : (m.retain m.runs).contains added = false := by
    simp [contains, retain_self]
  rw [replaceAllRuns, replaceRuns_returns ha hg hb hc hn, retain_self]
  rfl

theorem transition_ok {next : ScanGenerationState} (h : transition next m = .ok () m') :
    m' = { m with state := next } := by
  unfold transition at h
  split at h
  · cases h; rfl
  · cases h

end ScanManifest

end Excise
