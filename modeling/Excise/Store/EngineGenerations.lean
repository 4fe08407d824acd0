import Excise.Store.Generations
import Excise.Store.StoreEvents

/-!
# Generations of the store thread

What a command does to the generation that takes input, and what the thread answers: a publication
is of that generation, or of the overlay it was asked for, and of nothing the store knew before.
-/

namespace Excise
set_option autoImplicit false

/-- The generation a command begins. -/
def StoreCommand.begins : StoreCommand → Option ScanGeneration
  | .BeginGeneration generation => some generation
  | .Overlay request => some request.generation
  | _ => none

/-- A result that answers no publication and reports no lost command. -/
def StoreResult.isNotice : StoreResult → Bool
  | .AdmissionFailed _ | .ProvisionalPage _ _ => true
  | .Published _ | .Overlaid _ | .Failure _ => false

/-- What a command may do to the generation that takes input, from `x` to `x'`, and answer. -/
def StoreCommand.Effect (x x' : Option ScanGeneration) (result : Option StoreResult) :
    StoreCommand → Prop
  | .Notes _ | .Admit _ _ | .ProvisionalPage _ =>
    (x' = x ∨ x' = none) ∧ result.all StoreResult.isNotice = true
  | .Publish => ∃ answer, result = some (.Published answer) ∧ (x' = x ∨ x' = none) ∧
      ∀ publication, answer = .ok publication → x = some publication.generation ∧ x' = none
  | .BeginGeneration generation => result = none ∧ x' = some generation
  | .Overlay request => ∃ answer, result = some (.Overlaid answer) ∧ (x' = x ∨ x' = none) ∧
      ∀ publication, answer = .ok publication →
        publication.generation = request.generation ∧ x' = none
  | .DiscardActive => result = none ∧ x' = none
  | .CancelActive => x' = none ∧ result.all (fun r => !r.isNotice) = true ∧
      ∀ answer, result ≠ some (.Published answer) ∧ result ≠ some (.Overlaid answer)

namespace ScanStore

/-! ## The generation that takes input -/

def scanning (s : ScanStore) : Option ScanGeneration := s.acceptingGeneration.toOption

theorem scanning_eq_some {s : ScanStore} {g : ScanGeneration} : s.scanning = some g ↔
    ∃ a, s.active = some a ∧ a.manifest.state = .Scanning ∧ a.generation = g := by
  unfold scanning acceptingGeneration
  cases ha : s.active with
  | none =>
    refine ⟨fun h => (by cases h), ?_⟩
    rintro ⟨a, hno, -⟩
    cases hno
  | some a =>
    dsimp only
    split
    · rename_i hstate
      refine ⟨fun h => (by cases h), ?_⟩
      rintro ⟨b, hb, hb', -⟩
      cases hb
      exact absurd hb' hstate
    · rename_i hstate
      rw [not_not] at hstate
      constructor
      · intro h
        exact ⟨a, rfl, hstate, Option.some.inj h⟩
      · rintro ⟨b, hb, -, rfl⟩
        cases hb
        rfl

theorem scanning_none_of {s : ScanStore} (h : ∀ a, s.active = some a → a.manifest.state = .Incomplete) :
    s.scanning = none := by
  cases hs : s.scanning with
  | none => rfl
  | some g =>
    obtain ⟨a, ha, hstate, -⟩ := scanning_eq_some.mp hs
    rw [h a ha] at hstate
    cases hstate

theorem scanning_idle {s : ScanStore} (h : s.active = none) : s.scanning = none :=
  scanning_none_of fun a ha => by
    rw [h] at ha
    cases ha

theorem scanning_known {s : ScanStore} {g : ScanGeneration} (h : s.scanning = some g) :
    g ∈ s.known := by
  obtain ⟨a, ha, -, rfl⟩ := scanning_eq_some.mp h
  refine mem_known.mpr (Or.inl ?_)
  unfold activeGeneration
  rw [ha]
  rfl

/-- A generation that goes on is the one that took input, or it takes none any more. -/
theorem Goes.scanning {s s' : ScanStore} {g : ScanGeneration} (hg : s.Goes s')
    (h : s.scanning = some g) : s'.scanning = s.scanning ∨ s'.scanning = none := by
  cases hs : s'.scanning with
  | none => exact Or.inr rfl
  | some k =>
    obtain ⟨a, ha, -, rfl⟩ := scanning_eq_some.mp h
    obtain ⟨a', ha', -, rfl⟩ := scanning_eq_some.mp hs
    obtain ⟨b, hb, hcont⟩ := hg.active a ha
    rw [ha'] at hb
    cases hb
    exact Or.inl (by rw [h, hcont.generation])

theorem acceptInputRun_closed (io : Io) (run : FactRun) {s : ScanStore} (h : s.scanning = none) :
    ∃ e, acceptInputRun io run s = .error e s := by
  unfold scanning at h
  unfold acceptInputRun
  dsimp only
  split
  · exact ⟨_, rfl⟩
  · cases ha : s.acceptingGeneration with
    | error e => exact ⟨e, rfl⟩
    | ok g =>
      rw [ha] at h
      cases h

theorem acceptLeasedInputRun_closed {io : Io} {lease : WorkLease} {run : FactRun} {s : ScanStore}
    (h : s.scanning = none) : (answered (acceptLeasedInputRun io lease run s)).1 = s := by
  obtain ⟨e, he⟩ := acceptInputRun_closed io run h
  unfold acceptLeasedInputRun
  rw [he]
  split
  · rfl
  · split
    · rfl
    · split
      · rfl
      · split <;> rfl

/-! ## The store between two commands -/

/-- A store as the thread finds it: one of the session's, all it published handed over. -/
structure Ready (session : ScanSessionId) (first : ScanGeneration) (s : ScanStore) : Prop where
  reached : ∃ calls, machine.run (new session first) calls = s
  published : s.published = none
  summaryOnly : s.summaryOnly = none

/-- `s'` follows `s` under a command that begins the generations `new`. -/
structure Follows (session : ScanSessionId) (first : ScanGeneration) (s s' : ScanStore)
    (begun : Option ScanGeneration) : Prop where
  ready : Ready session first s'
  known : ∀ k ∈ s'.known, k ∈ s.known ∨ begun = some k

section
variable {session : ScanSessionId} {first : ScanGeneration} {s s' s'' : ScanStore}
  {begun : Option ScanGeneration}

theorem Ready.settled (h : Ready session first s) : s.Settled := by
  obtain ⟨calls, rfl⟩ := h.reached
  exact settled_run session first calls

theorem Ready.follows (h : Ready session first s) : Follows session first s s begun :=
  ⟨h, fun _ hk => Or.inl hk⟩

theorem Follows.trans (h : Follows session first s s' none)
    (h' : Follows session first s' s'' begun) : Follows session first s s'' begun := by
  refine ⟨h'.ready, fun k hk => ?_⟩
  rcases h'.known k hk with hk | hk
  · exact Or.inl ((h.known k hk).resolve_right fun hno => by cases hno)
  · exact Or.inr hk

theorem Follows.then (h : Follows session first s s' begun)
    (h' : Follows session first s' s'' none) : Follows session first s s'' begun :=
  ⟨h'.ready, fun k hk => h.known k ((h'.known k hk).resolve_right fun hno => by cases hno)⟩

theorem reached_step (h : ∃ calls, machine.run (new session first) calls = s) (call : StoreCall) :
    ∃ calls, machine.run (new session first) calls = (s.step call).1 := by
  obtain ⟨calls, rfl⟩ := h
  exact ⟨calls ++ [call], machine.run_append _ _ _⟩

theorem Ready.goes (h : Ready session first s) (call : StoreCall) (hg : s.Goes (s.step call).1) :
    Follows session first s (s.step call).1 none :=
  ⟨⟨reached_step h.reached call, hg.outside.published.trans h.published,
    hg.outside.summaryOnly.trans h.summaryOnly⟩, fun k hk => Or.inl ((hg.known k).mp hk)⟩

/-- A call that keeps the manifest of the active generation. -/
theorem Ready.map (h : Ready session first s) (call : StoreCall)
    {f : ActiveGeneration → ActiveGeneration} (hf : ∀ a, (f a).manifest = a.manifest)
    (hstep : (s.step call).1 = { s with active := s.active.map f }) :
    Follows session first s (s.step call).1 none ∧ (s.step call).1.scanning = s.scanning := by
  have hknown : { s with active := s.active.map f }.known = s.known := by
    unfold known activeGeneration
    cases s.active with
    | none => rfl
    | some a =>
      simp only [Option.map_some]
      rw [show (f a).generation = a.generation from congrArg ScanManifest.generation (hf a)]
  have hscan : { s with active := s.active.map f }.scanning = s.scanning := by
    unfold scanning acceptingGeneration
    cases s.active with
    | none => rfl
    | some a =>
      simp only [Option.map_some]
      rw [hf a, show (f a).generation = a.generation from congrArg ScanManifest.generation (hf a)]
  have hreached := reached_step h.reached call
  rw [hstep] at hreached ⊢
  exact ⟨⟨⟨hreached, h.published, h.summaryOnly⟩, fun k hk => Or.inl (hknown ▸ hk)⟩, hscan⟩

end

end ScanStore

/-! ## Commands -/

namespace StoreEngine
open ScanStore
variable {session : ScanSessionId} {first : ScanGeneration} (env : EngineIo)

theorem follows_recordNotes (notes : StoreNotes) {s : ScanStore} (h : Ready session first s) :
    Follows session first s (recordNotes notes s) none ∧
      (recordNotes notes s).scanning = s.scanning := by
  have hfold (paths : List RelativePath) : ∀ {t : ScanStore}, Ready session first t →
      Follows session first t
        (paths.foldl (fun s path => ScanStore.recordUnreadableDirectory path s) t) none ∧
      (paths.foldl (fun s path => ScanStore.recordUnreadableDirectory path s) t).scanning =
        t.scanning := by
    induction paths with
    | nil => exact fun ht => ⟨ht.follows, rfl⟩
    | cons path paths ih =>
      intro t ht
      obtain ⟨hstep, hscan⟩ := ht.map (.recordUnreadableDirectory path)
        (f := fun a => a.recordUnreadable path maxTrackedUnreadableDirectories)
        (fun a => (a.recordUnreadable_same path maxTrackedUnreadableDirectories).1) rfl
      obtain ⟨hrest, hscan'⟩ := ih hstep.ready
      exact ⟨hstep.trans hrest, hscan'.trans hscan⟩
  obtain ⟨hcount, hscan⟩ := h.map (.recordUnrecordedPaths notes.unrecordedPaths)
    (f := fun a => { a with
      unrecordedPathCount := satAdd 64 a.unrecordedPathCount notes.unrecordedPaths })
    (fun _ => rfl) rfl
  obtain ⟨hpaths, hscan'⟩ := hfold (notes.unreadableDirectories.sort (· ≤ ·)) hcount.ready
  exact ⟨hcount.trans hpaths, hscan'.trans hscan⟩

/-- A run goes into the generation that takes input, or leaves the store as it is. -/
theorem follows_accept (lease : WorkLease) (run : FactRun) {s : ScanStore}
    (h : Ready session first s) :
    Follows session first s (answered (acceptLeasedInputRun env.io lease run s)).1 none ∧
      ((answered (acceptLeasedInputRun env.io lease run s)).1.scanning = s.scanning ∨
        (answered (acceptLeasedInputRun env.io lease run s)).1.scanning = none) := by
  cases hscan : s.scanning with
  | none =>
    rw [acceptLeasedInputRun_closed hscan]
    exact ⟨h.follows, Or.inl hscan⟩
  | some g =>
    have hgoes : s.Goes (answered (acceptLeasedInputRun env.io lease run s)).1 := by
      have hkeeps := (acceptLeasedInputRun_keeps env.io lease run).goes h.settled.valid
      cases hr : acceptLeasedInputRun env.io lease run s with
      | ok _ s' => exact hkeeps.1 _ _ hr
      | error _ s' => exact hkeeps.2 _ _ hr
    refine ⟨h.goes (.acceptLeasedInputRun env.io lease run) hgoes, ?_⟩
    rw [← hscan]
    exact hgoes.scanning hscan

theorem follows_admitRuns (lease : WorkLease) (runs : List FactRun) :
    ∀ {e : StoreEngine}, Ready session first e.store →
      Follows session first e.store (admitRuns env lease e runs).1.store none ∧
      ((admitRuns env lease e runs).1.store.scanning = e.store.scanning ∨
        (admitRuns env lease e runs).1.store.scanning = none) ∧
      (admitRuns env lease e runs).2.all StoreResult.isNotice = true := by
  induction runs with
  | nil => exact fun h => ⟨h.follows, Or.inl rfl, rfl⟩
  | cons run runs ih =>
    intro e h
    obtain ⟨hfirst, hscan⟩ := follows_accept env lease run h
    unfold admitRuns
    cases hr : acceptLeasedInputRun env.io lease run e.store with
    | error error s' =>
      rw [hr] at hfirst hscan
      exact ⟨hfirst, hscan, rfl⟩
    | ok admitted s' =>
      rw [hr] at hfirst hscan
      obtain ⟨hrest, hscan', hnotice⟩ := ih (e := { e with store := s' }) hfirst.ready
      refine ⟨hfirst.trans hrest, ?_, hnotice⟩
      rcases hscan' with hscan' | hscan'
      · rcases hscan with hscan | hscan
        · exact Or.inl (hscan'.trans hscan)
        · exact Or.inr (hscan'.trans hscan)
      · exact Or.inr hscan'

/-- A map of the session, as some run of its store published it. -/
def Built (session : ScanSessionId) (first : ScanGeneration) (p : PublishedGeneration) : Prop :=
  ∃ calls, (ScanStore.machine.run (ScanStore.new session first) calls).published = some p

/-- What publishing answers: the generation that took input, closed and handed over, or an error. -/
structure Publishes (session : ScanSessionId) (first : ScanGeneration) (s s' : ScanStore)
    (answer : Except ScanStoreError Publication) : Prop where
  follows : Follows session first s s' none
  closed : s'.scanning = none
  answered : ∀ publication, answer = .ok publication → s.scanning = some publication.generation
  built : ∀ p, answer = .ok (.Published p) → Built session first p

/-- A publication that was not handed over yet is, and the store keeps its number. -/
theorem publishes_take {s s₁ : ScanStore} (hreached : ∃ calls, machine.run (new session first) calls = s₁)
    {a : ActiveGeneration} (ha : s.active = some a) (hstate : a.manifest.state = .Scanning)
    (hnone : s.published = none ∧ s.summaryOnly = none) (hidle : s₁.active = none)
    (hretired : s₁.retiredGeneration = s.retiredGeneration)
    (hhanded : s₁.handedOffGeneration = s.handedOffGeneration)
    (hpub : (s₁.summaryOnly = none ∧ ∃ p, s₁.published = some p ∧ PublishesInto a p) ∨
      (s₁.published = s.published ∧
        ∃ m, s₁.summaryOnly = some m ∧ m.manifest.generation = a.generation))
    (failed : Bool) : Publishes session first s (takePublished ⟨s₁, failed⟩).1.store
      (takePublished ⟨s₁, failed⟩).2 := by
  have hscan : s.scanning = some a.generation := scanning_eq_some.mpr ⟨a, ha, hstate, rfl⟩
  have hmem : a.generation ∈ s.known := scanning_known hscan
  -- what the store knows after its publication of `g` was taken out
  have hknown {t : ScanStore} (hactive : t.active = none) (hp : t.published = none)
      (hs : t.summaryOnly = none) (hr : t.retiredGeneration = s₁.retiredGeneration)
      (hh : t.handedOffGeneration = (s₁.noteHandedOff a.generation).handedOffGeneration) :
      ∀ k ∈ t.known, k ∈ s.known := by
    intro k hk
    obtain ⟨top, htop, -, -, hfrom⟩ := s₁.noteHandedOff_spec a.generation
    rcases mem_known.mp hk with hk | hk | hk | hk | hk
    · rw [show t.activeGeneration = none by unfold activeGeneration; rw [hactive]; rfl] at hk
      cases hk
    · rw [hp] at hk
      cases hk
    · rw [hs] at hk
      cases hk
    · rw [hr, hretired] at hk
      exact mem_known.mpr (Or.inr (Or.inr (Or.inr (Or.inl hk))))
    · rw [hh, htop] at hk
      cases hk
      rcases hfrom with rfl | hfrom
      · exact hmem
      · rw [hhanded] at hfrom
        exact mem_known.mpr (Or.inr (Or.inr (Or.inr (Or.inr hfrom))))
  have htaken := reached_step hreached .takePublication
  change ∃ calls, machine.run (new session first) calls = (answered (takePublication s₁)).1 at htaken
  unfold takePublished
  rcases hpub with ⟨hsum, p, hp, hinto⟩ | ⟨hp, m, hm, hg⟩
  · have htake : takePublication s₁ = .ok (some (.Published p))
        ({ s₁ with published := none }.noteHandedOff p.manifest.generation) := by
      unfold takePublication
      rw [hsum]
      dsimp only
      rw [hp]
    rw [htake] at htaken ⊢
    have hknown := hknown (t := { s₁ with published := none }.noteHandedOff p.manifest.generation)
      hidle rfl hsum rfl (by rw [hinto.generation]; rfl)
    refine ⟨⟨⟨htaken, rfl, hsum⟩, fun k hk => Or.inl (hknown k hk)⟩, scanning_idle hidle, ?_, ?_⟩
    · rintro publication hok
      cases hok
      exact hscan.trans (congrArg some hinto.generation.symm)
    · rintro q hok
      cases hok
      obtain ⟨calls, rfl⟩ := hreached
      exact ⟨calls, hp⟩
  · have htake : takePublication s₁ = .ok (some (.SummaryOnly m))
        ({ s₁ with summaryOnly := none }.noteHandedOff m.manifest.generation) := by
      unfold takePublication
      rw [hm]
    rw [htake] at htaken ⊢
    have hp' : s₁.published = none := hp.trans hnone.1
    have hknown := hknown (t := { s₁ with summaryOnly := none }.noteHandedOff m.manifest.generation)
      hidle hp' rfl rfl (by rw [hg]; rfl)
    refine ⟨⟨⟨htaken, hp', rfl⟩, fun k hk => Or.inl (hknown k hk)⟩, scanning_idle hidle, ?_, ?_⟩
    · rintro publication hok
      cases hok
      exact hscan.trans (congrArg some hg.symm)
    · rintro q hok
      cases hok

theorem publishes_publishReporting {e : StoreEngine} (h : Ready session first e.store) :
    Publishes session first e.store (publishReporting env e).1.store (publishReporting env e).2 := by
  have herror {s' : ScanStore} {error : ScanStoreError}
      (hf : Follows session first e.store s' none) (hk : s'.scanning = none) :
      Publishes session first e.store s' (.error error) :=
    ⟨hf, hk, fun _ hno => (by cases hno), fun _ hno => (by cases hno)⟩
  have hreached := reached_step h.reached (.publish env.io)
  change ∃ calls, machine.run (new session first) calls =
    (answered (ScanStore.publish env.io e.store)).1 at hreached
  unfold publishReporting
  cases ha : e.store.active with
  | none =>
    have hr : ScanStore.publish env.io e.store = .error .NoActiveGeneration e.store := by
      unfold ScanStore.publish
      rw [ha]
    rw [hr]
    exact herror h.follows (scanning_idle ha)
  | some a =>
    have hout := publish_outcome env.io ha (h.settled.valid a ha)
    cases hr : ScanStore.publish env.io e.store with
    | ok g s₁ =>
      rw [hr] at hout hreached
      obtain ⟨-, -, hidle, -, hretired, hhanded, hpub⟩ := hout
      have hstate : a.manifest.state = .Scanning := by
        by_contra hclosed
        unfold ScanStore.publish at hr
        rw [ha] at hr
        dsimp only at hr
        rw [if_pos hclosed] at hr
        cases hr
      exact publishes_take hreached ha hstate ⟨h.published, h.summaryOnly⟩ hidle hretired hhanded hpub
        e.admissionFailed
    | error error s₁ =>
      rw [hr] at hout hreached
      obtain ⟨hsame, hkept⟩ := hout
      refine herror ⟨⟨hreached, hsame.published.trans h.published,
        hsame.summaryOnly.trans h.summaryOnly⟩, fun k hk => Or.inl ?_⟩ ?_
      · rcases mem_known.mp hk with hk | hk
        · rcases hkept with ⟨-, a', ha', hcont, -⟩ | ⟨-, hno⟩
          · refine mem_known.mpr (Or.inl ?_)
            unfold activeGeneration at hk ⊢
            rw [ha'] at hk
            rw [ha]
            exact (congrArg some hcont.generation).symm.trans hk
          · unfold activeGeneration at hk
            rw [hno] at hk
            cases hk
        · rw [hsame.published, hsame.summaryOnly, hsame.retired, hsame.handedOff] at hk
          exact mem_known.mpr (Or.inr hk)
      · refine scanning_none_of fun b hb => ?_
        rcases hkept with ⟨-, a', ha', -, hstate⟩ | ⟨-, hno⟩
        · rw [ha'] at hb
          cases hb
          exact hstate
        · rw [hno] at hb
          cases hb

/-- An overlay the store accepts is active, with nothing else known; a failed one is incomplete. -/
theorem follows_beginOverlay {s : ScanStore} (h : Ready session first s) (request : OverlayRequest)
    (folder : Option RefreshedFolder) (hadv : s.Advances request.generation) :
    let r := beginOverlayGeneration env.io env.hash request.base request.generation
      request.replacedPrefix folder s
    Follows session first s (answered r).1 (some request.generation) ∧
      (∀ s', r = .ok () s' → ∀ g, s'.scanning = some g → g = request.generation) ∧
      ∀ error s', r = .error error s' → s'.scanning = none := by
  intro r
  have hreached := reached_step h.reached (.beginOverlayGeneration env.io env.hash request.base
    request.generation request.replacedPrefix folder)
  change ∃ calls, machine.run (new session first) calls = (answered r).1 at hreached
  have hknown : ∀ k ∈ { s with active := some (s.overlayStart request.base request.generation) }.known,
      k ∈ s.known ∨ some request.generation = some k := by
    intro k hk
    rcases mem_known.mp hk with hk | hk
    · exact Or.inr hk
    · exact Or.inl (mem_known.mpr (Or.inr hk))
  have hfollows {s' : ScanStore} (hanswered : (answered r).1 = s')
      (hg : { s with active := some (s.overlayStart request.base request.generation) }.Goes s') :
      Follows session first s (answered r).1 (some request.generation) := by
    refine ⟨⟨hreached, ?_, ?_⟩, fun k hk => ?_⟩
    · rw [hanswered]
      exact hg.outside.published.trans h.published
    · rw [hanswered]
      exact hg.outside.summaryOnly.trans h.summaryOnly
    · rw [hanswered] at hk
      exact hknown k ((hg.known k).mp hk)
  rcases beginOverlayGeneration_outcome env.io env.hash request.base request.generation
    request.replacedPrefix folder s with ⟨hno, -⟩ | ⟨-, hout⟩
  · exact absurd hadv hno
  · cases hr : r with
    | ok u s' =>
      have hr' : beginOverlayGeneration env.io env.hash request.base request.generation
        request.replacedPrefix folder s = .ok u s' := hr
      rw [hr'] at hout
      rw [← hr]
      refine ⟨hfollows (by rw [hr]; rfl) hout, fun t ht g hg => ?_, fun _ t ht => ?_⟩
      · rw [hr] at ht
        cases ht
        obtain ⟨a', ha', -, rfl⟩ := scanning_eq_some.mp hg
        obtain ⟨b, hb, hcont⟩ := hout.active _ rfl
        rw [ha'] at hb
        cases hb
        exact hcont.generation
      · rw [hr] at ht
        cases ht
    | error error s' =>
      have hr' : beginOverlayGeneration env.io env.hash request.base request.generation
        request.replacedPrefix folder s = .error error s' := hr
      rw [hr'] at hout
      rw [← hr]
      refine ⟨hfollows (by rw [hr]; rfl) hout.1, fun t ht => ?_, fun _ t ht => ?_⟩
      · rw [hr] at ht
        cases ht
      · rw [hr] at ht
        cases ht
        exact scanning_none_of hout.2

/-- A closed generation is no longer known as the active one. -/
theorem follows_closeActive {s : ScanStore} (h : Ready session first s) (call : StoreCall)
    (terminal : ScanGenerationState)
    (hcall : (s.step call).1 = (answered (closeActive terminal s)).1) :
    Follows session first s (answered (closeActive terminal s)).1 none ∧
      (answered (closeActive terminal s)).1.scanning = none := by
  have hreached := reached_step h.reached call
  rw [hcall] at hreached
  unfold closeActive at *
  cases ha : s.active with
  | none => exact ⟨h.follows, scanning_idle ha⟩
  | some a =>
    have hmem : a.generation ∈ s.known := mem_known.mpr (Or.inl (by
      unfold activeGeneration
      rw [ha]
      rfl))
    have hretired {g : ScanGeneration} (hg : g = a.generation) :
        ∀ k ∈ { s with active := none, retiredGeneration := some g }.known, k ∈ s.known := by
      intro k hk
      rcases mem_known.mp hk with hk | hk | hk | hk | hk
      · cases hk
      · exact mem_known.mpr (Or.inr (Or.inl hk))
      · exact mem_known.mpr (Or.inr (Or.inr (Or.inl hk)))
      · cases hk
        rw [hg]
        exact hmem
      · exact mem_known.mpr (Or.inr (Or.inr (Or.inr (Or.inr hk))))
    rw [ha] at hreached
    dsimp only at hreached ⊢
    split
    · rename_i hstate
      rw [if_pos hstate] at hreached
      exact ⟨⟨⟨hreached, h.published, h.summaryOnly⟩, fun k hk => Or.inl (hretired rfl k hk)⟩, rfl⟩
    · rename_i hstate
      rw [if_neg hstate] at hreached
      cases ht : ScanManifest.transition terminal a.manifest with
      | error error m =>
        rw [ht] at hreached
        refine ⟨⟨⟨hreached, h.published, h.summaryOnly⟩, fun k hk => Or.inl ?_⟩, rfl⟩
        rcases mem_known.mp hk with hk | hk
        · cases hk
        · exact mem_known.mpr (Or.inr hk)
      | ok u m =>
        rw [ht] at hreached
        have hm := ScanManifest.transition_ok ht
        exact ⟨⟨⟨hreached, h.published, h.summaryOnly⟩,
          fun k hk => Or.inl (hretired (by rw [hm]; rfl) k hk)⟩, rfl⟩

/-- Discarding never fails: what is open can become incomplete. -/
theorem discardActive_ok {s : ScanStore} (h : Ready session first s) :
    ∃ s', ScanStore.discardActive s = .ok () s' := by
  unfold ScanStore.discardActive closeActive
  cases ha : s.active with
  | none => exact ⟨s, rfl⟩
  | some a =>
    dsimp only
    split
    · exact ⟨_, rfl⟩
    · rename_i hstate
      rcases h.settled.valid a ha with hv | hv
      · cases ht : ScanManifest.transition .Incomplete a.manifest with
        | error error m =>
          have hcan : a.manifest.state.canTransitionTo .Incomplete = true := by
            rw [hv.scanning]
            rfl
          simp [ScanManifest.transition, hcan] at ht
        | ok u m => exact ⟨_, rfl⟩
      · exact absurd hv.2 hstate

/-- How a publication or an overlay that began `begun` may end: the generation that took input is
left as it was or closed, and a publication is of the generation `of` says. -/
structure Ends (session : ScanSessionId) (first : ScanGeneration) (e e' : StoreEngine)
    (begun : Option ScanGeneration) (of : ScanGeneration → Prop)
    (answer : Except ScanStoreError Publication) : Prop where
  follows : Follows session first e.store e'.store begun
  kept : e'.store.scanning = e.store.scanning ∨ e'.store.scanning = none
  answered : ∀ publication, answer = .ok publication →
    of publication.generation ∧ e'.store.scanning = none
  built : ∀ p, answer = .ok (.Published p) → Built session first p

theorem ends_publish {e : StoreEngine} (h : Ready session first e.store) :
    Ends session first e (e.publish env).1 none (fun g => e.store.scanning = some g)
      (e.publish env).2 := by
  unfold publish
  split
  · exact ⟨h.follows, Or.inl rfl, fun _ hno => (by cases hno), fun _ hno => (by cases hno)⟩
  · have hp := publishes_publishReporting env h
    exact ⟨hp.follows, Or.inr hp.closed, fun publication hok =>
      ⟨hp.answered publication hok, hp.closed⟩, hp.built⟩

theorem ends_overlay {e : StoreEngine} (h : Ready session first e.store) (request : OverlayRequest)
    (hadv : e.store.Advances request.generation) :
    Ends session first e (overlay env request e).1 (some request.generation)
      (fun g => g = request.generation) (overlay env request e).2 := by
  unfold overlay
  split
  · exact ⟨h.follows, Or.inl rfl, fun _ hno => (by cases hno), fun _ hno => (by cases hno)⟩
  · rename_i folder _
    obtain ⟨hf, hscan, herror⟩ := follows_beginOverlay env h request folder hadv
    cases hr : beginOverlayGeneration env.io env.hash request.base request.generation
        request.replacedPrefix folder e.store with
    | error error s' =>
      rw [hr] at hf
      exact ⟨hf, Or.inr (herror error s' hr), fun _ hno => (by cases hno), fun _ hno => (by cases hno)⟩
    | ok u s' =>
      rw [hr] at hf
      have hp := publishes_publishReporting env (e := { e with store := s' }) hf.ready
      exact ⟨hf.then hp.follows, Or.inr hp.closed, fun publication hok =>
        ⟨hscan s' hr _ (hp.answered publication hok), hp.closed⟩, hp.built⟩

/-- One command of the thread: what the store is then ready for, what happened to the generation
that takes input, and that a map handed over is one the store published. -/
theorem apply_spec (env : EngineIo) (e : StoreEngine) (c : StoreCommand)
    (h : Ready session first e.store)
    (hadv : ∀ g, c.begins = some g → ∀ k ∈ e.store.known, k < g) :
    Follows session first e.store (apply env e c).1.store c.begins ∧
      c.Effect e.store.scanning (apply env e c).1.store.scanning (apply env e c).2 ∧
      ∀ p, ((apply env e c).2 = some (.Published (.ok (.Published p))) ∨
        (apply env e c).2 = some (.Overlaid (.ok (.Published p)))) → Built session first p := by
  have hquiet {r : Option StoreResult} (hr : r.all StoreResult.isNotice = true) {p : PublishedGeneration} :
      ¬(r = some (.Published (.ok (.Published p))) ∨ r = some (.Overlaid (.ok (.Published p)))) := by
    rintro (rfl | rfl) <;> cases hr
  cases c with
  | Notes notes =>
    obtain ⟨hf, hscan⟩ := follows_recordNotes notes h
    exact ⟨hf, ⟨Or.inl hscan, rfl⟩, fun p hp => absurd hp (hquiet rfl)⟩
  | Admit lease batch =>
    change Follows session first e.store (e.admitBatch env lease batch).1.store none ∧
      StoreCommand.Effect _ (e.admitBatch env lease batch).1.store.scanning
        (e.admitBatch env lease batch).2 (.Admit lease batch) ∧
      ∀ p, ((e.admitBatch env lease batch).2 = _ ∨ (e.admitBatch env lease batch).2 = _) → _
    unfold admitBatch
    split
    · exact ⟨h.follows, ⟨Or.inl rfl, rfl⟩, fun p hp => absurd hp (hquiet rfl)⟩
    · obtain ⟨hf, hscan, hnotice⟩ := follows_admitRuns env lease batch h
      exact ⟨hf, ⟨hscan, hnotice⟩, fun p hp => absurd hp (hquiet hnotice)⟩
  | ProvisionalPage request =>
    have hpage : Follows session first e.store (e.provisionalPage env request).1.store none ∧
        (e.provisionalPage env request).1.store.scanning = e.store.scanning := by
      unfold provisionalPage
      split
      · exact ⟨h.follows, rfl⟩
      · split
        · exact ⟨h.follows, rfl⟩
        · exact h.map (.provisionalPage true) (f := fun a => { a with hasProvisionalPage := true })
            (fun _ => rfl) rfl
    exact ⟨hpage.1, ⟨Or.inl hpage.2, rfl⟩, fun p hp => absurd hp (hquiet rfl)⟩
  | Publish =>
    have hends := ends_publish env h
    refine ⟨hends.follows, ⟨_, rfl, hends.kept, hends.answered⟩, ?_⟩
    rintro p (hok | hok)
    · exact hends.built p (StoreResult.Published.inj (Option.some.inj hok))
    · cases hok
  | BeginGeneration generation =>
    have hadv : e.store.Advances generation := advances_iff.mpr (hadv generation rfl)
    have hstep := beginGeneration_eq hadv
    have hreached := reached_step h.reached (.beginGeneration generation)
    change ∃ calls, machine.run (new session first) calls =
      (answered (ScanStore.beginGeneration generation e.store)).1 at hreached
    have happly : apply env e (.BeginGeneration generation) =
        (⟨{ e.store with active := some (ActiveGeneration.new e.store.session generation) }, false⟩,
          none) := by
      unfold apply reported
      dsimp only
      rw [hstep]
    rw [hstep] at hreached
    rw [happly]
    refine ⟨⟨⟨hreached, h.published, h.summaryOnly⟩, fun k hk => ?_⟩, ⟨rfl, rfl⟩,
      fun p hp => absurd hp (hquiet rfl)⟩
    rcases mem_known.mp hk with hk | hk
    · exact Or.inr hk
    · exact Or.inl (mem_known.mpr (Or.inr hk))
  | Overlay request =>
    have hends := ends_overlay env (e := { e with admissionFailed := false }) h request
      (advances_iff.mpr (hadv request.generation rfl))
    refine ⟨hends.follows, ⟨_, rfl, hends.kept, hends.answered⟩, ?_⟩
    rintro p (hok | hok)
    · cases hok
    · exact hends.built p (StoreResult.Overlaid.inj (Option.some.inj hok))
  | DiscardActive =>
    obtain ⟨hf, hscan⟩ := follows_closeActive h .discardActive .Incomplete rfl
    obtain ⟨s', hs'⟩ := discardActive_ok h
    have happly : apply env e .DiscardActive = ({ e with store := s' }, none) := by
      unfold apply reported
      dsimp only
      rw [hs']
    have hs' : closeActive .Incomplete e.store = .ok () s' := hs'
    rw [hs'] at hf hscan
    rw [happly]
    exact ⟨hf, ⟨rfl, hscan⟩, fun p hp => absurd hp (hquiet rfl)⟩
  | CancelActive =>
    obtain ⟨hf, hscan⟩ := follows_closeActive h .cancelActive .Cancelled rfl
    have hanswer : (apply env e .CancelActive).1.store = (answered (closeActive .Cancelled e.store)).1 ∧
        ((apply env e .CancelActive).2 = none ∨
          ∃ error, (apply env e .CancelActive).2 = some (.Failure error)) := by
      change (e.reported ScanStore.cancelActive).1.store = _ ∧ ((e.reported ScanStore.cancelActive).2 = _ ∨
        ∃ error, (e.reported ScanStore.cancelActive).2 = _)
      unfold reported
      rw [show ScanStore.cancelActive e.store = closeActive .Cancelled e.store from rfl]
      cases closeActive .Cancelled e.store with
      | ok u s' => exact ⟨rfl, Or.inl rfl⟩
      | error error s' => exact ⟨rfl, Or.inr ⟨error, rfl⟩⟩
    rw [← hanswer.1] at hf hscan
    refine ⟨hf, ⟨hscan, ?_, fun answer => ?_⟩, fun p hp => ?_⟩
    · rcases hanswer.2 with hr | ⟨error, hr⟩ <;> rw [hr] <;> rfl
    · rcases hanswer.2 with hr | ⟨error, hr⟩ <;> rw [hr] <;> exact ⟨fun hno => (by cases hno),
        fun hno => (by cases hno)⟩
    · rcases hanswer.2 with hr | ⟨error, hr⟩ <;> rw [hr] at hp <;> rcases hp with hno | hno <;> cases hno

end StoreEngine

end Excise
