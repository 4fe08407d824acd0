import Excise.Lib.Machine
import Excise.Store.Publication
import Mathlib.Data.List.ReduceOption

/-!
# The life of a store session

Every call of a session as one machine. Between two calls the active generation is valid and newer
than everything else the store knows; a call forgets a generation number only by dropping the
active generation, which cancelling an incomplete generation and one exit of `publish` do.
-/

namespace Excise
set_option autoImplicit false

namespace ScanStore

def ActiveValid (s : ScanStore) : Prop := ∀ a, s.active = some a → a.Valid

/-- `s` goes on as `s'`: nothing outside the active generation moves, and that one continues. -/
structure Goes (s s' : ScanStore) : Prop where
  outside : s.SameOutside s'
  idle : s.active = none → s'.active = none
  active : ∀ a, s.active = some a → ∃ a', s'.active = some a' ∧ a.Continues a'

theorem Goes.refl {s : ScanStore} (h : s.ActiveValid) : s.Goes s :=
  ⟨SameOutside.refl s, fun h => h, fun a ha => ⟨a, ha, h a ha, rfl, ActiveGeneration.SameNotes.refl a⟩⟩

theorem Goes.trans {s s' s'' : ScanStore} (h : s.Goes s') (h' : s'.Goes s'') : s.Goes s'' := by
  refine ⟨h.outside.trans h'.outside, fun hs => h'.idle (h.idle hs), fun a ha => ?_⟩
  obtain ⟨b, hb, hab⟩ := h.active a ha
  obtain ⟨c, hc, hbc⟩ := h'.active b hb
  exact ⟨c, hc, hab.trans hbc⟩

theorem Goes.valid {s s' : ScanStore} (h : s.Goes s') : s'.ActiveValid := by
  intro a' ha'
  cases ha : s.active with
  | none =>
    rw [h.idle ha] at ha'
    cases ha'
  | some a =>
    obtain ⟨b, hb, hab⟩ := h.active a ha
    rw [hb] at ha'
    cases ha'
    exact hab.valid

/-- Marking the active generation incomplete. -/
theorem goes_markActiveIncomplete {s : ScanStore} (h : s.ActiveValid) :
    s.Goes s.markActiveIncomplete := by
  refine ⟨⟨rfl, rfl, rfl, rfl, rfl⟩, fun hs => ?_, fun a ha => ?_⟩
  · rw [markActiveIncomplete, hs]
    rfl
  · refine ⟨if a.manifest.acceptsRuns then a.markIncomplete else a,
      by rw [markActiveIncomplete, ha]; rfl, ?_⟩
    split
    · rename_i haccepts
      have ht : a.manifest.state.canTransitionTo .Incomplete = true := by
        simp only [ScanManifest.acceptsRuns, Bool.or_eq_true, decide_eq_true_eq] at haccepts
        rcases haccepts with h | h <;> rw [h] <;> rfl
      obtain ⟨hvalid, hgen, -⟩ := (h a ha).sound.markIncomplete ht
      refine ⟨hvalid, hgen, ?_⟩
      rw [a.markIncomplete_eq ht]
      exact ⟨rfl, rfl, rfl⟩
    · exact ⟨h a ha, rfl, ActiveGeneration.SameNotes.refl a⟩

theorem markActiveIncomplete_state {s : ScanStore} {a : ActiveGeneration} (hv : a.Valid)
    (ha : s.active = some a) :
    ∀ a', s.markActiveIncomplete.active = some a' → a'.manifest.state = .Incomplete := by
  intro a' ha'
  rw [markActiveIncomplete, ha] at ha'
  obtain rfl : (if a.manifest.acceptsRuns then a.markIncomplete else a) = a' := Option.some.inj ha'
  rcases hv with h | h
  · have haccepts : a.manifest.acceptsRuns = true := by simp [ScanManifest.acceptsRuns, h.scanning]
    rw [if_pos haccepts]
    exact (h.toSound.markIncomplete (by rw [h.scanning]; rfl)).2.2
  · have haccepts : a.manifest.acceptsRuns = false := by simp [ScanManifest.acceptsRuns, h.2]
    rw [haccepts]
    exact h.2

/-- The program keeps what `Goes` says, whatever it answers. -/
def Keeps {α : Type} (c : StoreM α) : Prop :=
  ∀ s₀ : ScanStore, Triple s₀.Goes c (fun _ => s₀.Goes) (fun _ => s₀.Goes)

theorem Keeps.of_result {α : Type} {c : StoreM α}
    (h : ∀ s, s.ActiveValid →
      (∀ a s', c s = .ok a s' → s.Goes s') ∧ ∀ e s', c s = .error e s' → s.Goes s') :
    Keeps c := fun _ => Triple.of_result fun s hs =>
  ⟨fun a s' hc => hs.trans ((h s hs.valid).1 a s' hc),
    fun e s' hc => hs.trans ((h s hs.valid).2 e s' hc)⟩

theorem Keeps.goes {α : Type} {c : StoreM α} (h : Keeps c) {s : ScanStore} (hs : s.ActiveValid) :
    (∀ a s', c s = .ok a s' → s.Goes s') ∧ ∀ e s', c s = .error e s' → s.Goes s' :=
  ⟨fun _ _ hc => (h s).ok (Goes.refl hs) hc, fun _ _ hc => (h s).error (Goes.refl hs) hc⟩

theorem acceptInputRun_idle {io : Io} {run : FactRun} {s : ScanStore} (h : s.active = none) :
    ∃ e, acceptInputRun io run s = .error e s := by
  unfold acceptInputRun
  dsimp only
  split
  · exact ⟨_, rfl⟩
  · rw [acceptingGeneration, h]
    exact ⟨_, rfl⟩

theorem acceptInputRun_keeps (io : Io) (run : FactRun) : Keeps (acceptInputRun io run) := by
  apply Keeps.of_result
  intro s hs
  cases ha : s.active with
  | none =>
    obtain ⟨e, he⟩ := @acceptInputRun_idle io run _ ha
    rw [he]
    refine ⟨fun _ s' hc => ?_, fun _ s' hc => ?_⟩ <;> cases hc
    exact Goes.refl hs
  | some a =>
    have hout := @acceptInputRun_spec False [] io run _ _ ha (hs a ha)
      False.elim False.elim
    have hone {s' : ScanStore} (ho : s.SameOutside s')
        (h : ∃ a', s'.active = some a' ∧ a.Continues a') : s.Goes s' := by
      refine ⟨ho, fun hn => ?_, fun b hb => ?_⟩
      · rw [ha] at hn
        cases hn
      · rw [ha] at hb
        cases hb
        exact h
    refine ⟨fun _ s' hc => ?_, fun e s' hc => ?_⟩ <;> rw [hc] at hout
    · obtain ⟨ho, a', ha', -, hacc⟩ := hout
      exact hone ho ⟨a', ha', Or.inl hacc.inStep, hacc.generation, hacc.notes⟩
    · obtain ⟨ho, -, a', ha', hcont, -⟩ := hout
      exact hone ho ⟨a', ha', hcont⟩

theorem acceptLeasedInputRun_keeps (io : Io) (lease : WorkLease) (run : FactRun) :
    Keeps (acceptLeasedInputRun io lease run) := by
  apply Keeps.of_result
  intro s hs
  have hrefl := Goes.refl hs
  have hgoes := (acceptInputRun_keeps io run).goes hs
  unfold acceptLeasedInputRun
  refine ⟨fun _ s' hc => ?_, fun e s' hc => ?_⟩ <;> split at hc
  · cases hc
  · split at hc
    · cases hc
    · split at hc
      · cases hc
      · split at hc
        · cases hc
          exact hrefl
        · split at hc
          · rename_i s' hr
            cases hc
            exact hgoes.1 _ _ hr
          · cases hc
  · cases hc
    exact hrefl
  · split at hc
    · cases hc
      exact hrefl
    · split at hc
      · cases hc
        exact hrefl
      · split at hc
        · cases hc
        · split at hc
          · cases hc
          · rename_i s' hr
            cases hc
            exact hgoes.2 _ _ hr

theorem acceptRuns_keeps (io : Io) (runs : List FactRun) : Keeps (acceptRuns io runs) := by
  intro s₀
  induction runs with
  | nil => exact Triple.pure fun s hs => hs
  | cons run rest ih => exact Triple.bind (acceptInputRun_keeps io run s₀) fun _ => ih

theorem goes_nextRunId {s : ScanStore} (hs : s.ActiveValid) (n : UInt64) :
    s.Goes { s with nextRunId := n } :=
  ⟨⟨rfl, rfl, rfl, rfl, rfl⟩, fun h => h, fun a ha =>
    ⟨a, ha, hs a ha, rfl, ActiveGeneration.SameNotes.refl a⟩⟩

theorem appendSealedObservationBatch_keeps (io : Io) (paths : List PathObservation)
    (identities : List IdentityObservation) :
    Keeps (appendSealedObservationBatch io paths identities) := by
  apply Keeps.of_result
  intro s hs
  have hrefl := Goes.refl hs
  unfold appendSealedObservationBatch
  refine ⟨fun _ s' hc => ?_, fun e s' hc => ?_⟩ <;> split at hc
  · cases hc
  · cases hc
  · split at hc
    · cases hc
    · rename_i runs staging hseal
      have hnext := goes_nextRunId hs staging.nextRunId
      exact hnext.trans (((acceptRuns_keeps io runs).goes hnext.valid).1 _ _ hc)
  · cases hc
    exact hrefl
  · cases hc
    exact hrefl
  · split at hc
    · rename_i staging hseal
      cases hc
      exact goes_nextRunId hs _
    · rename_i runs staging hseal
      have hnext := goes_nextRunId hs staging.nextRunId
      exact hnext.trans (((acceptRuns_keeps io runs).goes hnext.valid).2 _ _ hc)

theorem appendObservationBatch_keeps (io : Io) (paths : List PathObservation)
    (identities : List IdentityObservation) :
    Keeps (appendObservationBatch io paths identities) := by
  apply Keeps.of_result
  intro s hs
  have hgoes := (appendSealedObservationBatch_keeps io paths identities).goes hs
  unfold appendObservationBatch
  refine ⟨fun _ s' hc => ?_, fun e s' hc => ?_⟩ <;> split at hc
  · rename_i s' hr
    cases hc
    exact hgoes.1 _ _ hr
  · cases hc
  · cases hc
  · rename_i s' hr
    cases hc
    have hg := hgoes.2 _ _ hr
    exact hg.trans (goes_markActiveIncomplete hg.valid)

end ScanStore

/-! ## The overlay copy -/

section

variable (io : Io) (hash : EntryHash) (removed : RelativePath) (folder : Option RefreshedFolder)
  (s₀ : ScanStore)

/-- The copy so far, as a step of the store it copies into. -/
def OverlayCopy.Goes (c : OverlayCopy) : Prop := s₀.Goes c.store

theorem appendOverlayBatch_keeps :
    Triple (OverlayCopy.Goes s₀) (appendOverlayBatch io) (fun _ => OverlayCopy.Goes s₀)
      (fun _ => OverlayCopy.Goes s₀) := by
  apply Triple.of_result
  intro c hc
  have hgoes := (ScanStore.appendObservationBatch_keeps io c.paths c.identities).goes hc.valid
  unfold appendOverlayBatch
  refine ⟨fun _ c' h => ?_, fun e c' h => ?_⟩ <;> split at h
  · cases h
    exact hc
  · split at h
    · rename_i store hr
      cases h
      exact hc.trans (hgoes.1 _ _ hr)
    · cases h
  · cases h
  · split at h
    · cases h
    · rename_i store hr
      cases h
      exact hc.trans (hgoes.2 _ _ hr)

theorem noteFolder_store {o o' : PathObservation} {c c' : OverlayCopy}
    (h : noteFolder hash folder o c = .ok (o', c')) :
    c'.store = c.store ∧ c'.paths = c.paths ∧ c'.identities = c.identities := by
  unfold noteFolder at h
  split at h
  · cases h
    exact ⟨rfl, rfl, rfl⟩
  split at h
  · split at h
    · cases h
    · cases h
      exact ⟨rfl, rfl, rfl⟩
  split at h
  · split at h
    · cases h
      exact ⟨rfl, rfl, rfl⟩
    · cases h
      exact ⟨rfl, rfl, rfl⟩
  · cases h
    exact ⟨rfl, rfl, rfl⟩

theorem copyEntry_keeps (entry : PathObservation × Option IdentityObservation) :
    Triple (OverlayCopy.Goes s₀) (copyEntry io hash removed folder entry)
      (fun _ => OverlayCopy.Goes s₀) (fun _ => OverlayCopy.Goes s₀) := by
  apply Triple.of_result
  intro c hc
  unfold copyEntry
  have hstore {o : PathObservation} {c' : OverlayCopy}
      (hn : noteFolder hash folder entry.1 c = .ok (o, c')) :
      OverlayCopy.Goes s₀ { c' with
        identities := c'.identities ++ (keptIdentity o entry.2).toList
        paths := c'.paths ++ [o] } := by
    show s₀.Goes c'.store
    rw [(noteFolder_store hash folder hn).1]
    exact hc
  refine ⟨fun _ c' h => ?_, fun e c' h => ?_⟩ <;> split at h
  · split at h
    · cases h
    · cases h
      exact hc
  · split at h
    · cases h
    · rename_i o c₁ hn
      dsimp only at h
      split at h
      · exact (appendOverlayBatch_keeps io s₀).ok (hstore hn) h
      · cases h
        exact hstore hn
  · split at h
    · cases h
      exact hc
    · cases h
  · split at h
    · cases h
      exact hc
    · rename_i o c₁ hn
      dsimp only at h
      split at h
      · exact (appendOverlayBatch_keeps io s₀).error (hstore hn) h
      · cases h

theorem copyEntries_keeps (entries : List (PathObservation × Option IdentityObservation)) :
    Triple (OverlayCopy.Goes s₀) (copyEntries io hash removed folder entries)
      (fun _ => OverlayCopy.Goes s₀) (fun _ => OverlayCopy.Goes s₀) := by
  induction entries with
  | nil => exact Triple.pure fun c hc => hc
  | cons entry rest ih =>
    exact Triple.bind (copyEntry_keeps io hash removed folder s₀ entry) fun _ => ih

theorem copyOverlayFacts_keeps (base : OverlayBase) :
    Triple (OverlayCopy.Goes s₀) (copyOverlayFacts io hash base removed folder)
      (fun _ => OverlayCopy.Goes s₀) (fun _ => OverlayCopy.Goes s₀) := by
  unfold copyOverlayFacts
  apply Triple.bind (Q := fun _ => OverlayCopy.Goes s₀)
  · unfold readBase
    split
    · exact copyEntries_keeps io hash removed folder s₀ _
    · apply Triple.bind (copyEntries_keeps io hash removed folder s₀ _)
      exact fun _ c hc => hc
  · intro _ c hc
    have happend := appendOverlayBatch_keeps io s₀ c hc
    dsimp only
    cases hcheck : folderCheck folder c with
    | error e => exact hc
    | ok u => exact happend

end

namespace ScanStore

/-- The active generation an overlay starts from. -/
def overlayStart (s : ScanStore) (base : OverlayBase) (generation : ScanGeneration) :
    ActiveGeneration :=
  { ActiveGeneration.new s.session generation with
    unrecordedPathCount := base.unrecordedPathCount
    unreadableDirectories := base.unreadableDirectories
    unreadableDirectoriesOverflowed := base.unreadableDirectoriesOverflowed }

theorem overlayStart_valid (s : ScanStore) (base : OverlayBase) (generation : ScanGeneration) :
    (s.overlayStart base generation).Valid := by
  have h : (ActiveGeneration.new s.session generation).Valid :=
    Or.inl (ActiveGeneration.new_inStep s.session generation)
  exact h.congr rfl (fun f => by cases f <;> rfl) rfl

/-- `generation` advances over everything the store knows. -/
def Advances (s : ScanStore) (generation : ScanGeneration) : Prop :=
  s.latestGeneration.any (fun latest => decide (generation ≤ latest)) = false

theorem beginGeneration_eq {s : ScanStore} {generation : ScanGeneration} (h : s.Advances generation) :
    beginGeneration generation s =
      .ok () { s with active := some (ActiveGeneration.new s.session generation) } := by
  rw [beginGeneration, if_neg (by rw [h]; exact Bool.false_ne_true)]

theorem beginGeneration_refused {s : ScanStore} {generation : ScanGeneration}
    (h : ¬s.Advances generation) :
    beginGeneration generation s = .error .NonMonotonicGeneration s := by
  rw [beginGeneration, if_pos (Bool.not_eq_false _ ▸ h)]

/-- Beginning an overlay: refused without a trace, or the new generation is active, incomplete
when the call failed. -/
theorem beginOverlayGeneration_outcome (io : Io) (hash : EntryHash) (base : OverlayBase)
    (generation : ScanGeneration) (removed : RelativePath) (folder : Option RefreshedFolder)
    (s : ScanStore) :
    (¬s.Advances generation ∧ beginOverlayGeneration io hash base generation removed folder s =
        .error .NonMonotonicGeneration s) ∨
      (s.Advances generation ∧
        match beginOverlayGeneration io hash base generation removed folder s with
        | .ok () s' => { s with active := some (s.overlayStart base generation) }.Goes s'
        | .error _ s' => { s with active := some (s.overlayStart base generation) }.Goes s' ∧
            ∀ a', s'.active = some a' → a'.manifest.state = .Incomplete) := by
  by_cases hadv : s.Advances generation
  · refine Or.inr ⟨hadv, ?_⟩
    have hvalid : { s with active := some (s.overlayStart base generation) }.ActiveValid := by
      intro a ha
      cases ha
      exact s.overlayStart_valid base generation
    have hstart : startOverlayGeneration base generation s =
        .ok () { s with active := some (s.overlayStart base generation) } := by
      rw [startOverlayGeneration, beginGeneration_eq hadv]
      rfl
    unfold beginOverlayGeneration
    rw [hstart]
    dsimp only
    by_cases hroot : removed.isRoot = true
    · rw [if_pos hroot]
      exact Goes.refl hvalid
    · rw [if_neg hroot]
      have hspec := copyOverlayFacts_keeps io hash removed folder
        { s with active := some (s.overlayStart base generation) } base
        ⟨{ s with active := some (s.overlayStart base generation) }, [], [],
          folder.all fun folder => folder.path.isRoot, .empty⟩ (Goes.refl hvalid)
      cases hcopy : copyOverlayFacts io hash base removed folder
        ⟨{ s with active := some (s.overlayStart base generation) }, [], [],
          folder.all fun folder => folder.path.isRoot, .empty⟩ with
      | ok u c =>
        rw [hcopy] at hspec
        exact hspec
      | error e c =>
        rw [hcopy] at hspec
        have hgoes : { s with active := some (s.overlayStart base generation) }.Goes c.store := hspec
        obtain ⟨a, ha, hcont⟩ := hgoes.active _ rfl
        refine ⟨hgoes.trans (goes_markActiveIncomplete hgoes.valid), ?_⟩
        exact markActiveIncomplete_state hcont.valid ha
  · refine Or.inl ⟨hadv, ?_⟩
    rw [beginOverlayGeneration, startOverlayGeneration, beginGeneration_refused hadv]

end ScanStore

/-! ## The session as a machine -/

/-- The calls of a session. The scanner's threads seal batches of their own, which only draws run
ids; what the live page shows is left out. -/
inductive StoreCall where
  | beginGeneration (generation : ScanGeneration)
  | beginOverlayGeneration (io : Io) (hash : EntryHash) (base : OverlayBase)
      (generation : ScanGeneration) (removed : RelativePath) (folder : Option RefreshedFolder)
  | acceptInputRun (io : Io) (run : FactRun)
  | acceptLeasedInputRun (io : Io) (lease : WorkLease) (run : FactRun)
  | appendObservationBatch (io : Io) (paths : List PathObservation)
      (identities : List IdentityObservation)
  | sealObservationBatch (io : Io) (generation : ScanGeneration) (paths : List PathObservation)
      (identities : List IdentityObservation)
  | recordUnrecordedPaths (count : Nat)
  | recordUnreadableDirectory (path : RelativePath)
  | provisionalPage (kept : Bool)
  | publish (io : Io)
  | discardActive
  | cancelActive
  | takePublication

namespace ScanStore

/-- The state a call leaves and the error it answers with, if any. -/
def answered {α : Type} : EStateM.Result ScanStoreError ScanStore α → ScanStore × Option ScanStoreError
  | .ok _ s => (s, none)
  | .error e s => (s, some e)

/-- A batch sealed by a factory takes ids from the session's counter. -/
def sealElsewhere (io : Io) (generation : ScanGeneration) (paths : List PathObservation)
    (identities : List IdentityObservation) (s : ScanStore) : ScanStore × Option ScanStoreError :=
  match sealObservationBatch io generation paths identities ⟨s.nextRunId, .new s.session generation⟩ with
  | .ok _ staging => ({ s with nextRunId := staging.nextRunId }, none)
  | .error e staging => ({ s with nextRunId := staging.nextRunId }, some e)

def setProvisionalPage (kept : Bool) (s : ScanStore) : ScanStore :=
  { s with active := s.active.map fun active => { active with hasProvisionalPage := kept } }

def step (s : ScanStore) : StoreCall → ScanStore × Option ScanStoreError
  | .beginGeneration generation => answered (beginGeneration generation s)
  | .beginOverlayGeneration io hash base generation removed folder =>
    answered (beginOverlayGeneration io hash base generation removed folder s)
  | .acceptInputRun io run => answered (acceptInputRun io run s)
  | .acceptLeasedInputRun io lease run => answered (acceptLeasedInputRun io lease run s)
  | .appendObservationBatch io paths identities =>
    answered (appendObservationBatch io paths identities s)
  | .sealObservationBatch io generation paths identities =>
    sealElsewhere io generation paths identities s
  | .recordUnrecordedPaths count => (recordUnrecordedPaths count s, none)
  | .recordUnreadableDirectory path => (recordUnreadableDirectory path s, none)
  | .provisionalPage kept => (setProvisionalPage kept s, none)
  | .publish io => answered (publish io s)
  | .discardActive => answered (discardActive s)
  | .cancelActive => answered (cancelActive s)
  | .takePublication => answered (takePublication s)

def machine : Machine ScanStore StoreCall (Option ScanStoreError) := ⟨step⟩

/-! ## What the store knows -/

/-- Every generation number the store compares a new one with. -/
def known (s : ScanStore) : List ScanGeneration :=
  [s.activeGeneration, s.published.map (·.manifest.generation),
    s.summaryOnly.map (·.manifest.generation), s.retiredGeneration,
    s.handedOffGeneration].reduceOption

theorem mem_known {s : ScanStore} {g : ScanGeneration} :
    g ∈ s.known ↔ s.activeGeneration = some g ∨ s.published.map (·.manifest.generation) = some g ∨
      s.summaryOnly.map (·.manifest.generation) = some g ∨ s.retiredGeneration = some g ∨
      s.handedOffGeneration = some g := by
  simp only [known, List.reduceOption_mem_iff, List.mem_cons, List.not_mem_nil, or_false]
  simp only [eq_comm]

theorem advances_iff {s : ScanStore} {g : ScanGeneration} : s.Advances g ↔ ∀ k ∈ s.known, k < g := by
  unfold Advances latestGeneration
  change (s.known.max?.any fun latest => decide (g ≤ latest)) = false ↔ _
  cases hmax : s.known.max? with
  | none =>
    rw [List.max?_eq_none_iff] at hmax
    simp [hmax]
  | some latest =>
    obtain ⟨hmem, hle⟩ := List.max?_eq_some_iff.mp hmax
    simp only [Option.any_some, decide_eq_false_iff_not, not_le]
    exact ⟨fun h k hk => lt_of_le_of_lt (hle k hk) h, fun h => h latest hmem⟩

/-- The store knows `g` or a newer generation. -/
def Covers (s : ScanStore) (g : ScanGeneration) : Prop := ∃ k ∈ s.known, g ≤ k

/-- Nothing `s` knew is forgotten in `s'`. -/
def Remembered (s s' : ScanStore) : Prop := ∀ g, s.Covers g → s'.Covers g

/-- Between two calls. -/
structure Settled (s : ScanStore) : Prop where
  valid : s.ActiveValid
  newest : ∀ a, s.active = some a → ∀ k ∈ s.known, k ≤ a.generation

theorem Remembered.refl (s : ScanStore) : s.Remembered s := fun _ h => h

theorem Remembered.trans {s s' s'' : ScanStore} (h : s.Remembered s') (h' : s'.Remembered s'') :
    s.Remembered s'' := fun g hg => h' g (h g hg)

theorem Remembered.of_known {s s' : ScanStore} (h : ∀ k ∈ s.known, s'.Covers k) :
    s.Remembered s' := by
  rintro g ⟨k, hk, hgk⟩
  obtain ⟨k', hk', hkk'⟩ := h k hk
  exact ⟨k', hk', le_trans hgk hkk'⟩

theorem Settled.remembered {s s' : ScanStore} (h : s.Settled) {a : ActiveGeneration}
    (ha : s.active = some a) (hc : s'.Covers a.generation) : s.Remembered s' := by
  rintro g ⟨k, hk, hgk⟩
  obtain ⟨k', hk', hle⟩ := hc
  exact ⟨k', hk', le_trans (le_trans hgk (h.newest a ha k hk)) hle⟩

theorem Goes.known {s s' : ScanStore} (h : s.Goes s') : ∀ k, k ∈ s'.known ↔ k ∈ s.known := by
  have hactive : s'.activeGeneration = s.activeGeneration := by
    unfold activeGeneration
    cases ha : s.active with
    | none => rw [h.idle ha]
    | some a =>
      obtain ⟨a', ha', hcont⟩ := h.active a ha
      rw [ha']
      exact congrArg some hcont.generation
  intro k
  rw [mem_known, mem_known, hactive, h.outside.published, h.outside.summaryOnly, h.outside.retired,
    h.outside.handedOff]

theorem Settled.goes {s s' : ScanStore} (h : s.Settled) (hg : s.Goes s') :
    s'.Settled ∧ s.Remembered s' := by
  refine ⟨⟨hg.valid, fun a' ha' k hk => ?_⟩, Remembered.of_known fun k hk =>
    ⟨k, (hg.known k).mpr hk, le_refl k⟩⟩
  cases ha : s.active with
  | none =>
    rw [hg.idle ha] at ha'
    cases ha'
  | some a =>
    obtain ⟨b, hb, hcont⟩ := hg.active a ha
    rw [hb] at ha'
    cases ha'
    rw [hcont.generation]
    exact h.newest a ha k ((hg.known k).mp hk)

/-- The store after a generation that advances became active. -/
theorem settled_begin {s : ScanStore} {a : ActiveGeneration} {g : ScanGeneration}
    (hadv : s.Advances g) (hg : a.generation = g) (hv : a.Valid) :
    { s with active := some a }.Settled ∧ s.Remembered { s with active := some a } := by
  have hlt := advances_iff.mp hadv
  have hold : ∀ k, k ∈ { s with active := some a }.known → k = a.generation ∨ k ∈ s.known := by
    intro k hk
    rcases mem_known.mp hk with h | h
    · exact Or.inl (Option.some.inj h).symm
    · exact Or.inr (mem_known.mpr (Or.inr h))
  refine ⟨⟨fun b hb => ?_, fun b hb k hk => ?_⟩, Remembered.of_known fun k hk => ?_⟩
  · cases hb
    exact hv
  · cases hb
    rcases hold k hk with rfl | hk
    · exact le_refl _
    · rw [hg]
      exact le_of_lt (hlt k hk)
  · refine ⟨a.generation, mem_known.mpr (Or.inl rfl), ?_⟩
    rw [hg]
    exact le_of_lt (hlt k hk)

/-- A change of the active generation that keeps its number. -/
theorem Settled.map {s : ScanStore} (h : s.Settled) {f : ActiveGeneration → ActiveGeneration}
    (hv : ∀ a, a.Valid → (f a).Valid) (hg : ∀ a, (f a).generation = a.generation) :
    { s with active := s.active.map f }.Settled ∧
      s.Remembered { s with active := s.active.map f } := by
  have hknown : { s with active := s.active.map f }.known = s.known := by
    unfold known activeGeneration
    cases s.active with
    | none => rfl
    | some a => rw [Option.map_some, Option.map_some, hg, Option.map_some]
  refine ⟨⟨fun b hb => ?_, fun b hb k hk => ?_⟩, Remembered.of_known fun k hk =>
    ⟨k, by rw [hknown]; exact hk, le_refl k⟩⟩
  · obtain ⟨a, ha, rfl⟩ := Option.map_eq_some_iff.mp hb
    exact hv a (h.valid a ha)
  · obtain ⟨a, ha, rfl⟩ := Option.map_eq_some_iff.mp hb
    rw [hknown] at hk
    rw [hg]
    exact h.newest a ha k hk

theorem Settled.idle {s : ScanStore} (h : s.active = none) : s.Settled := by
  refine ⟨fun a ha => ?_, fun a ha => ?_⟩
  · rw [h] at ha
    cases ha
  · rw [h] at ha
    cases ha

/-- A closed generation is retired under its number, unless its state refuses to close. -/
theorem Settled.close {s : ScanStore} (h : s.Settled) (terminal : ScanGenerationState) :
    (answered (closeActive terminal s)).1.Settled ∧
      ((∀ a, s.active = some a →
          a.manifest.state = terminal ∨ a.manifest.state.canTransitionTo terminal = true) →
        s.Remembered (answered (closeActive terminal s)).1) := by
  unfold closeActive
  cases ha : s.active with
  | none => exact ⟨h, fun _ => Remembered.refl s⟩
  | some a =>
    dsimp only
    split
    · refine ⟨Settled.idle rfl, fun _ => h.remembered ha ?_⟩
      exact ⟨a.generation, mem_known.mpr (Or.inr (Or.inr (Or.inr (Or.inl rfl)))), le_refl _⟩
    · rename_i hne
      cases ht : ScanManifest.transition terminal a.manifest with
      | error e m =>
        refine ⟨Settled.idle rfl, fun hcan => ?_⟩
        rcases hcan a rfl with heq | hcan
        · exact absurd heq hne
        · simp [ScanManifest.transition, hcan] at ht
      | ok u m =>
        refine ⟨Settled.idle rfl, fun _ => h.remembered ha ?_⟩
        have hm := ScanManifest.transition_ok ht
        refine ⟨m.generation, mem_known.mpr (Or.inr (Or.inr (Or.inr (Or.inl rfl)))), ?_⟩
        rw [hm]
        exact le_refl _

/-- The handed-off number is one of those handed over, and the newest of them. -/
theorem noteHandedOff_spec (s : ScanStore) (g : ScanGeneration) :
    ∃ k, (s.noteHandedOff g).handedOffGeneration = some k ∧ g ≤ k ∧
      (∀ h, s.handedOffGeneration = some h → h ≤ k) ∧
      (k = g ∨ s.handedOffGeneration = some k) := by
  unfold noteHandedOff
  cases hs : s.handedOffGeneration with
  | none =>
    refine ⟨g, rfl, le_refl g, fun h hh => ?_, Or.inl rfl⟩
    cases hh
  | some handed =>
    refine ⟨max handed g, rfl, le_max_right _ _, fun h hh => ?_, ?_⟩
    · cases hh
      exact le_max_left _ _
    · rcases max_choice handed g with h | h
      · exact Or.inr (by rw [h])
      · exact Or.inl h

/-- Moving a publication out of `s` into `t`, whose number is then handed off. -/
theorem Settled.handOff {s t : ScanStore} {g : ScanGeneration} (h : s.Settled) (hg : g ∈ s.known)
    (hactive : t.active = s.active) (hold : ∀ k ∈ s.known, k = g ∨ k ∈ t.known)
    (hnew : ∀ k ∈ t.known, k ∈ s.known) :
    (t.noteHandedOff g).Settled ∧ s.Remembered (t.noteHandedOff g) := by
  obtain ⟨top, htop, hle, hmax, hfrom⟩ := t.noteHandedOff_spec g
  have hcover : (t.noteHandedOff g).Covers g :=
    ⟨top, mem_known.mpr (Or.inr (Or.inr (Or.inr (Or.inr htop)))), hle⟩
  refine ⟨⟨fun a ha => h.valid a (hactive ▸ ha), fun a ha k hk => ?_⟩,
    Remembered.of_known fun k hk => ?_⟩
  · have hsa : s.active = some a := hactive ▸ ha
    apply h.newest a hsa
    rcases mem_known.mp hk with hk | hk | hk | hk | hk
    · exact hnew k (mem_known.mpr (Or.inl hk))
    · exact hnew k (mem_known.mpr (Or.inr (Or.inl hk)))
    · exact hnew k (mem_known.mpr (Or.inr (Or.inr (Or.inl hk))))
    · exact hnew k (mem_known.mpr (Or.inr (Or.inr (Or.inr (Or.inl hk)))))
    · rw [htop] at hk
      cases hk
      rcases hfrom with rfl | hfrom
      · exact hg
      · exact hnew _ (mem_known.mpr (Or.inr (Or.inr (Or.inr (Or.inr hfrom)))))
  · rcases hold k hk with rfl | hk
    · exact hcover
    · rcases mem_known.mp hk with hk | hk | hk | hk | hk
      · exact ⟨k, mem_known.mpr (Or.inl hk), le_refl k⟩
      · exact ⟨k, mem_known.mpr (Or.inr (Or.inl hk)), le_refl k⟩
      · exact ⟨k, mem_known.mpr (Or.inr (Or.inr (Or.inl hk))), le_refl k⟩
      · exact ⟨k, mem_known.mpr (Or.inr (Or.inr (Or.inr (Or.inl hk)))), le_refl k⟩
      · exact ⟨top, mem_known.mpr (Or.inr (Or.inr (Or.inr (Or.inr htop)))), hmax k hk⟩

/-- A generation handed over keeps its number in the store. -/
theorem Settled.take {s : ScanStore} (h : s.Settled) :
    (answered (takePublication s)).1.Settled ∧ s.Remembered (answered (takePublication s)).1 := by
  unfold takePublication
  cases hsum : s.summaryOnly with
  | some summary =>
    refine h.handOff (t := { s with summaryOnly := none }) ?_ rfl (fun k hk => ?_) fun k hk => ?_
    · exact mem_known.mpr (Or.inr (Or.inr (Or.inl (by rw [hsum]; rfl))))
    · rcases mem_known.mp hk with hk | hk | hk | hk
      · exact Or.inr (mem_known.mpr (Or.inl hk))
      · exact Or.inr (mem_known.mpr (Or.inr (Or.inl hk)))
      · rw [hsum] at hk
        exact Or.inl (Option.some.inj hk).symm
      · exact Or.inr (mem_known.mpr (Or.inr (Or.inr (Or.inr hk))))
    · rcases mem_known.mp hk with hk | hk | hk | hk
      · exact mem_known.mpr (Or.inl hk)
      · exact mem_known.mpr (Or.inr (Or.inl hk))
      · cases hk
      · exact mem_known.mpr (Or.inr (Or.inr (Or.inr hk)))
  | none =>
    cases hpub : s.published with
    | none => exact ⟨h, Remembered.refl s⟩
    | some published =>
      refine h.handOff (t := { s with published := none, summaryOnly := none }) ?_ rfl
        (fun k hk => ?_) fun k hk => ?_
      · exact mem_known.mpr (Or.inr (Or.inl (by rw [hpub]; rfl)))
      · rcases mem_known.mp hk with hk | hk | hk | hk
        · exact Or.inr (mem_known.mpr (Or.inl hk))
        · rw [hpub] at hk
          exact Or.inl (Option.some.inj hk).symm
        · rw [hsum] at hk
          cases hk
        · exact Or.inr (mem_known.mpr (Or.inr (Or.inr (Or.inr hk))))
      · rcases mem_known.mp hk with hk | hk | hk | hk
        · exact mem_known.mpr (Or.inl hk)
        · cases hk
        · cases hk
        · exact mem_known.mpr (Or.inr (Or.inr (Or.inr hk)))

/-- A publication leaves its number behind, published or summarised, unless it loses the active
generation. -/
theorem Settled.publish {s : ScanStore} (h : s.Settled) (io : Io) :
    (answered (ScanStore.publish io s)).1.Settled ∧
      ((∀ a, s.active = some a → ¬LosesActive io s a) →
        s.Remembered (answered (ScanStore.publish io s)).1) := by
  cases ha : s.active with
  | none =>
    have he : ScanStore.publish io s = .error .NoActiveGeneration s := by
      rw [ScanStore.publish, ha]
    rw [he]
    exact ⟨h, fun _ => Remembered.refl s⟩
  | some a =>
    have hout := publish_outcome io ha (h.valid a ha)
    cases hr : ScanStore.publish io s with
    | ok g s' =>
      rw [hr] at hout
      obtain ⟨-, -, hidle, -, -, -, hpub⟩ := hout
      refine ⟨Settled.idle hidle, fun _ => h.remembered ha ?_⟩
      rcases hpub with ⟨-, p, hp, hinto⟩ | ⟨-, m, hm, hg⟩
      · refine ⟨a.generation, mem_known.mpr (Or.inr (Or.inl ?_)), le_refl _⟩
        show s'.published.map _ = _
        rw [hp]
        exact congrArg some hinto.generation
      · refine ⟨a.generation, mem_known.mpr (Or.inr (Or.inr (Or.inl ?_))), le_refl _⟩
        show s'.summaryOnly.map _ = _
        rw [hm]
        exact congrArg some hg
    | error e s' =>
      rw [hr] at hout
      obtain ⟨hsame, ⟨-, a', ha', hcont, -⟩ | ⟨hloses, hidle⟩⟩ := hout
      · have hgoes : s.Goes s' := by
          refine ⟨hsame, fun hn => ?_, fun b hb => ?_⟩
          · rw [ha] at hn
            cases hn
          · rw [ha] at hb
            cases hb
            exact ⟨a', ha', hcont⟩
        exact ⟨(h.goes hgoes).1, fun _ => (h.goes hgoes).2⟩
      · exact ⟨Settled.idle hidle, fun hnot => absurd hloses (hnot a rfl)⟩

end ScanStore

end Excise
