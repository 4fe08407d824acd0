import Excise.Store.Lifecycle

/-!
# Generation numbers over a whole session

Every call keeps the session settled. A call that does not drop the active generation also keeps
every number the store knows, so a run of such calls never accepts a number twice; and a failing
publication keeps the active generation on every exit but one.
-/

namespace Excise
set_option autoImplicit false

/-- The generation a call asks to begin. -/
def StoreCall.begins : StoreCall → Option ScanGeneration
  | .beginGeneration generation => some generation
  | .beginOverlayGeneration _ _ _ generation _ _ => some generation
  | _ => none

theorem ActiveGeneration.recordUnreadable_same (a : ActiveGeneration) (path : RelativePath)
    (cap : Nat) :
    (a.recordUnreadable path cap).manifest = a.manifest ∧
      (a.recordUnreadable path cap).pathRuns = a.pathRuns ∧
      (a.recordUnreadable path cap).identityRuns = a.identityRuns ∧
      (a.recordUnreadable path cap).acceptedRunIds = a.acceptedRunIds := by
  unfold recordUnreadable
  dsimp only
  split
  · exact ⟨rfl, rfl, rfl, rfl⟩
  · split <;> exact ⟨rfl, rfl, rfl, rfl⟩

namespace ScanStore

/-- The call does not drop the active generation: it cancels no incomplete generation, and a
publication does not take the exit that loses it. -/
def Careful (s : ScanStore) : StoreCall → Prop
  | .cancelActive => ∀ a, s.active = some a → a.manifest.state ≠ .Incomplete
  | .publish io => ∀ a, s.active = some a → ¬LosesActive io s a
  | _ => True

theorem Keeps.settled {α : Type} {c : StoreM α} (hk : Keeps c) {s : ScanStore} (h : s.Settled) :
    (answered (c s)).1.Settled ∧ s.Remembered (answered (c s)).1 := by
  obtain ⟨hok, herror⟩ := hk.goes h.valid
  cases hc : c s with
  | ok a s' => exact h.goes (hok a s' hc)
  | error e s' => exact h.goes (herror e s' hc)

theorem Settled.beginOverlay {s : ScanStore} (h : s.Settled) (io : Io) (hash : EntryHash)
    (base : OverlayBase) (generation : ScanGeneration) (removed : RelativePath)
    (folder : Option RefreshedFolder) :
    (answered (beginOverlayGeneration io hash base generation removed folder s)).1.Settled ∧
      s.Remembered
        (answered (beginOverlayGeneration io hash base generation removed folder s)).1 := by
  rcases beginOverlayGeneration_outcome io hash base generation removed folder s with
    ⟨-, hr⟩ | ⟨hadv, hout⟩
  · rw [hr]
    exact ⟨h, Remembered.refl s⟩
  · obtain ⟨hstart, hold⟩ := settled_begin hadv rfl (s.overlayStart_valid base generation)
    cases hr : beginOverlayGeneration io hash base generation removed folder s with
    | ok u s' =>
      rw [hr] at hout
      obtain ⟨hs, hrem⟩ := hstart.goes hout
      exact ⟨hs, hold.trans hrem⟩
    | error e s' =>
      rw [hr] at hout
      obtain ⟨hs, hrem⟩ := hstart.goes hout.1
      exact ⟨hs, hold.trans hrem⟩

/-- The step lemma. -/
theorem Settled.step {s : ScanStore} (h : s.Settled) (call : StoreCall) :
    (s.step call).1.Settled ∧ (s.Careful call → s.Remembered (s.step call).1) := by
  have hboth {t : ScanStore} {p : Prop} (ht : t.Settled ∧ s.Remembered t) :
      t.Settled ∧ (p → s.Remembered t) := ⟨ht.1, fun _ => ht.2⟩
  cases call with
  | beginGeneration generation =>
    apply hboth
    have hstep : s.step (.beginGeneration generation) =
      answered (ScanStore.beginGeneration generation s) := rfl
    rw [hstep]
    by_cases hadv : s.Advances generation
    · rw [beginGeneration_eq hadv]
      exact settled_begin hadv rfl (Or.inl (ActiveGeneration.new_inStep s.session generation))
    · rw [beginGeneration_refused hadv]
      exact ⟨h, Remembered.refl s⟩
  | beginOverlayGeneration io hash base generation removed folder =>
    exact hboth (h.beginOverlay io hash base generation removed folder)
  | acceptInputRun io run => exact hboth ((acceptInputRun_keeps io run).settled h)
  | acceptLeasedInputRun io lease run =>
    exact hboth ((acceptLeasedInputRun_keeps io lease run).settled h)
  | appendObservationBatch io paths identities =>
    exact hboth ((appendObservationBatch_keeps io paths identities).settled h)
  | sealObservationBatch io generation paths identities =>
    apply hboth
    have hstep : s.step (.sealObservationBatch io generation paths identities) =
      sealElsewhere io generation paths identities s := rfl
    rw [hstep]
    unfold sealElsewhere
    split <;> exact h.goes (goes_nextRunId h.valid _)
  | recordUnrecordedPaths count =>
    exact hboth (h.map (fun a hv => hv.congr rfl (fun f => by cases f <;> rfl) rfl) fun a => rfl)
  | recordUnreadableDirectory path =>
    refine hboth (h.map (fun a hv => ?_) fun a => ?_)
    · obtain ⟨hm, hp, hi, hids⟩ := a.recordUnreadable_same path maxTrackedUnreadableDirectories
      refine hv.congr hm (fun f => ?_) hids
      cases f
      · exact hp
      · exact hi
    · exact congrArg ScanManifest.generation
        (a.recordUnreadable_same path maxTrackedUnreadableDirectories).1
  | provisionalPage kept =>
    exact hboth (h.map (fun a hv => hv.congr rfl (fun f => by cases f <;> rfl) rfl) fun a => rfl)
  | publish io => exact h.publish io
  | discardActive =>
    obtain ⟨hs, hrem⟩ := h.close .Incomplete
    refine ⟨hs, fun _ => hrem fun a ha => ?_⟩
    rcases h.valid a ha with hv | hv
    · exact Or.inr (by rw [hv.scanning]; rfl)
    · exact Or.inl hv.2
  | cancelActive =>
    obtain ⟨hs, hrem⟩ := h.close .Cancelled
    refine ⟨hs, fun hcareful => hrem fun a ha => ?_⟩
    rcases h.valid a ha with hv | hv
    · exact Or.inr (by rw [hv.scanning]; rfl)
    · exact absurd hv.2 (hcareful a ha)
  | takePublication => exact hboth h.take

theorem settled_new (session : ScanSessionId) (generation : ScanGeneration) :
    (ScanStore.new session generation).Settled := by
  refine ⟨fun a ha => ?_, fun a ha k hk => ?_⟩
  · cases ha
    exact Or.inl (ActiveGeneration.new_inStep session generation)
  · cases ha
    rcases mem_known.mp hk with hk | hk | hk | hk | hk
    · cases hk
      exact le_refl _
    · cases hk
    · cases hk
    · cases hk
    · cases hk

/-- Every reachable session is settled, whatever was called. -/
theorem settled_run (session : ScanSessionId) (generation : ScanGeneration)
    (calls : List StoreCall) : (machine.run (ScanStore.new session generation) calls).Settled :=
  machine.run_invariant (settled_new session generation) (fun _ call h => (h.step call).1) calls

theorem remembered_run {s : ScanStore} {calls : List StoreCall} (h : s.Settled)
    (hc : machine.Along Careful s calls) : s.Remembered (machine.run s calls) :=
  (machine.run_along Remembered.refl (fun _ _ _ h h' => h.trans h')
    (fun _ call hs hcall => ⟨(hs.step call).1, (hs.step call).2 hcall⟩) h hc).2

/-- A begin that is not refused as non-monotonic advances over all the store knows. -/
theorem advances_of_begins {s : ScanStore} {call : StoreCall} {g : ScanGeneration}
    (hb : call.begins = some g) (ha : (s.step call).2 ≠ some .NonMonotonicGeneration) :
    s.Advances g := by
  by_contra hadv
  apply ha
  cases call with
  | beginGeneration generation =>
    cases hb
    have hstep : s.step (.beginGeneration g) = answered (ScanStore.beginGeneration g s) := rfl
    rw [hstep, beginGeneration_refused hadv]
    rfl
  | beginOverlayGeneration io hash base generation removed folder =>
    cases hb
    have hstep : s.step (.beginOverlayGeneration io hash base g removed folder) =
      answered (beginOverlayGeneration io hash base g removed folder s) := rfl
    rcases beginOverlayGeneration_outcome io hash base g removed folder s with ⟨-, hr⟩ | ⟨h, -⟩
    · rw [hstep, hr]
      rfl
    · exact absurd h hadv
  | _ => cases hb

/-- In a session whose calls are careful, an accepted generation number is newer than every
number that was active in any earlier state. -/
theorem accepted_generation_newer (session : ScanSessionId) (generation : ScanGeneration)
    (calls : List StoreCall)
    (hcareful : machine.Along Careful (ScanStore.new session generation) calls) :
    ∀ before call after g, calls = before ++ call :: after → call.begins = some g →
      (step (machine.run (ScanStore.new session generation) before) call).2 ≠
        some .NonMonotonicGeneration →
      ∀ earlier, earlier <+: before → ∀ old,
        (machine.run (ScanStore.new session generation) earlier).activeGeneration = some old →
        old < g := by
  rintro before call after g rfl hbegins haccepted earlier ⟨later, rfl⟩ old hold
  have hsettled := settled_run session generation earlier
  obtain ⟨hbefore, -⟩ := machine.along_append.mp hcareful
  obtain ⟨-, hlater⟩ := machine.along_append.mp hbefore
  -- the number is still covered when the call is made
  have hcovers : (machine.run (ScanStore.new session generation) earlier).Covers old :=
    ⟨old, mem_known.mpr (Or.inl hold), le_refl old⟩
  have hnow := remembered_run hsettled hlater old hcovers
  rw [← machine.run_append] at hnow
  obtain ⟨k, hk, hle⟩ := hnow
  exact lt_of_le_of_lt hle (advances_iff.mp (advances_of_begins hbegins haccepted) k hk)

theorem not_losesActive {io : Io} (h : childQueryRefused io = false) (s : ScanStore)
    (a : ActiveGeneration) : ¬LosesActive io s a := by
  rintro ⟨-, reduced, w, -, -, hr, -⟩
  rw [h] at hr
  cases hr

/-- A published, handed-over and succeeded generation. -/
theorem accepted_generation_newer_published :
    machine.Along Careful (ScanStore.new ⟨0⟩ ⟨0⟩)
        [.publish Io.none, .takePublication, .beginGeneration ⟨1⟩] ∧
      (ScanStore.new ⟨0⟩ ⟨0⟩).activeGeneration = some ⟨0⟩ ∧
      (step (machine.run (ScanStore.new ⟨0⟩ ⟨0⟩) [.publish Io.none, .takePublication])
        (.beginGeneration ⟨1⟩)).2 = none ∧
      (⟨0⟩ : ScanGeneration) < ⟨1⟩ := by
  have hcareful : machine.Along Careful (ScanStore.new ⟨0⟩ ⟨0⟩)
      [.publish Io.none, .takePublication, .beginGeneration ⟨1⟩] :=
    ⟨fun a _ => not_losesActive rfl _ a, trivial, trivial, trivial⟩
  have haccepted : (step (machine.run (ScanStore.new ⟨0⟩ ⟨0⟩) [.publish Io.none, .takePublication])
      (.beginGeneration ⟨1⟩)).2 = none := by decide +kernel
  refine ⟨hcareful, rfl, haccepted, ?_⟩
  refine accepted_generation_newer ⟨0⟩ ⟨0⟩ _ hcareful [.publish Io.none, .takePublication]
    (.beginGeneration ⟨1⟩) [] ⟨1⟩ rfl rfl ?_ [] List.nil_prefix ⟨0⟩ rfl
  rw [haccepted]
  intro h
  cases h

/-- No run can be created. -/
def fullStorage : Io := { Io.none with create := fun _ => some .StorageFull }

/-- A publication out of space leaves generation 0 incomplete; cancelling drops it, and the store
takes the number 0 again. -/
theorem cancelled_incomplete_number_again :
    (ScanStore.new ⟨0⟩ ⟨0⟩).activeGeneration = some ⟨0⟩ ∧
      (step (machine.run (ScanStore.new ⟨0⟩ ⟨0⟩) [.publish fullStorage, .cancelActive])
        (.beginGeneration ⟨0⟩)).2 = none ∧
      ¬(⟨0⟩ : ScanGeneration) < ⟨0⟩ := by
  refine ⟨rfl, ?_, lt_irrefl _⟩
  decide +kernel

/-! ## Failing publications -/

/-- In every reachable session, a failing publication keeps what is published and leaves the
active generation there, incomplete, exactly when it does not take the exit that loses it. -/
theorem publish_failure_keeps_iff (session : ScanSessionId) (generation : ScanGeneration)
    (calls : List StoreCall) (io : Io) (a : ActiveGeneration)
    (ha : (machine.run (ScanStore.new session generation) calls).active = some a) :
    (∀ e s', publish io (machine.run (ScanStore.new session generation) calls) = .error e s' →
        (machine.run (ScanStore.new session generation) calls).SameOutside s' ∧
          ∃ a', s'.active = some a' ∧ a'.generation = a.generation ∧
            a'.manifest.state = .Incomplete) ↔
      ¬LosesActive io (machine.run (ScanStore.new session generation) calls) a := by
  have hsettled := settled_run session generation calls
  generalize machine.run (ScanStore.new session generation) calls = s at *
  have hout := publish_outcome io ha (hsettled.valid a ha)
  constructor
  · intro hkeeps hloses
    cases hr : publish io s with
    | ok g s' =>
      rw [hr] at hout
      exact hout.1 hloses
    | error e s' =>
      rw [hr] at hout
      obtain ⟨-, a', ha', -⟩ := hkeeps e s' hr
      rcases hout.2 with ⟨hnot, -⟩ | ⟨-, hidle⟩
      · exact hnot hloses
      · rw [hidle] at ha'
        cases ha'
  · intro hnot e s' hr
    rw [hr] at hout
    rcases hout.2 with ⟨-, a', ha', hcont, hstate⟩ | ⟨hloses, -⟩
    · exact ⟨hout.1, a', ha', hcont.generation, hstate⟩
    · exact absurd hloses hnot

/-- The merged run cannot be read back. -/
def truncatedRun : Io :=
  { Io.none with read := fun pass _ => if pass = .Reduce then some .Truncated else none }

theorem publish_failure_keeps_iff_truncated :
    (ScanStore.new ⟨0⟩ ⟨0⟩).active = some (ActiveGeneration.new ⟨0⟩ ⟨0⟩) ∧
      ∃ e s', publish truncatedRun (ScanStore.new ⟨0⟩ ⟨0⟩) = .error e s' ∧
        (ScanStore.new ⟨0⟩ ⟨0⟩).SameOutside s' ∧
        ∃ a', s'.active = some a' ∧ a'.generation = ⟨0⟩ ∧ a'.manifest.state = .Incomplete := by
  have hkeeps := (publish_failure_keeps_iff ⟨0⟩ ⟨0⟩ [] truncatedRun
    (ActiveGeneration.new ⟨0⟩ ⟨0⟩) rfl).mpr (not_losesActive rfl _ _)
  have hfails : (step (ScanStore.new ⟨0⟩ ⟨0⟩) (.publish truncatedRun)).2 = some (.Run .Truncated) := by
    decide +kernel
  refine ⟨rfl, ?_⟩
  cases hr : publish truncatedRun (ScanStore.new ⟨0⟩ ⟨0⟩) with
  | ok g s' =>
    rw [step, hr] at hfails
    cases hfails
  | error e s' => exact ⟨e, s', rfl, hkeeps e s' hr⟩

/-- Space runs out for the child-query run, and the summary run cannot be read. -/
def fullThenUnreadable : Io :=
  { Io.none with
    create := fun
      | .Derived .ChildQuery => some .StorageFull
      | _ => none
    read := fun pass _ => if pass = .SummaryRoot then some (.Io .Other) else none }

/-- There the failing publication drops the active generation. -/
theorem publish_failure_drops_active :
    (ScanStore.new ⟨0⟩ ⟨0⟩).activeGeneration = some ⟨0⟩ ∧
      (step (ScanStore.new ⟨0⟩ ⟨0⟩) (.publish fullThenUnreadable)).2 = some (.Run (.Io .Other)) ∧
      (step (ScanStore.new ⟨0⟩ ⟨0⟩) (.publish fullThenUnreadable)).1.activeGeneration = none := by
  refine ⟨rfl, ?_, ?_⟩
  · decide +kernel
  · decide +kernel

end ScanStore

end Excise
