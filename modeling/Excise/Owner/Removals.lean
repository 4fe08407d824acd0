import Excise.Owner.LeavesOut

/-!
# No removal is forgotten

Over the turns of the loop every removal stays owed, on its way out of the map installed, or left out
of it.
-/

namespace Excise
set_option autoImplicit false

variable {session : ScanSessionId} {first : ScanGeneration} {cs ds : List StoreCommand}
  {removal : EndedRemoval} {busy busy' : Bool} {m : MapState} {h : StoreHandle}

/-! ## What turns keep -/

section
variable {applied : List StoreCommand} {h₁ : StoreHandle} {notes : List StoreCommand}
  {pending : PendingPublication}

/-- A rebuild begins after every removal that ended. -/
theorem Rescans.begins (hk : removal.Known h) {next : ScanGeneration}
    (hnext : h.nextGeneration = some next)
    (hq : StoreHandle.Queues h h₁ (notes ++ [.BeginGeneration next])) (hidle : m.publications = [])
    (hfinished : m.finishedPublications = []) :
    Rescans session first (applied ++ (h₁.noteGeneration next).queued) removal busy m.begun
      (h₁.noteGeneration next) := by
  have hcs : applied ++ (h₁.noteGeneration next).queued =
      applied ++ h.queued ++ notes ++ [.BeginGeneration next] := by
    rw [show (h₁.noteGeneration next).queued = h₁.queued from rfl, hq.queued, ← List.append_assoc,
      ← List.append_assoc]
  refine ⟨rfl, ?_, ?_, fun hno => ?_⟩
  · rw [hcs, lastScanned_append]
    exact .scanned (List.mem_append_right _ (List.mem_singleton_self _)) (hk.lt hnext)
  · rw [show m.begun.publications = [] from hidle]
    exact .nil
  · unfold MapState.replaced at hno
    rw [show m.begun.finishedPublications = [] from hfinished] at hno
    cases hno

/-- The same commands and the same map installed; no flag of the loop set later makes the first map
expected. -/
theorem RemovalHeld.kept (hs : RemovalHeld session first cs removal busy m h) (hcs : ds = cs)
    (hpublished : h₁.published = h.published) (hbusy : busy = false → busy' = false) :
    RemovalHeld session first ds removal busy' m h₁ := by
  rw [hcs]
  have hkept (hc : Coming session first cs removal busy m h) :
      Coming session first cs removal busy' m h₁ := hc.kept .refl rfl hpublished hbusy id
  rcases hs with ho | hr | hc
  · exact Or.inl ho
  · exact Or.inr (Or.inl (hr.kept .refl rfl rfl fun hrep => hkept (hr.replaced hrep)))
  · exact Or.inr (Or.inr (hkept hc))

/-- A publication is asked for of the scan that is over. -/
theorem RemovalHeld.publishes (hs : RemovalHeld session first (applied ++ h.queued) removal busy m h)
    (hneutral : ∀ c ∈ notes, c.isNeutral = true)
    (hq : StoreHandle.Queues h h₁ (notes ++ [.Publish]))
    (hneeded : busy = true ∨ m.rebuildActive = true) :
    RemovalHeld session first (applied ++ h₁.queued) removal busy
      { m with publications := m.publications ++ [pending] } h₁ := by
  have hcs : applied ++ h₁.queued = applied ++ h.queued ++ notes ++ [.Publish] := by
    rw [hq.queued, ← List.append_assoc, ← List.append_assoc]
  have hnotes : Grown first (applied ++ h.queued) (applied ++ h.queued ++ notes) :=
    .quiet fun c hc => isRequest_quiet (Or.inl (hneutral c hc))
  have hsub : applied ++ h.queued ⊆ applied ++ h₁.queued := by
    rw [hcs]
    exact fun c hc => List.mem_append_left _ (hnotes.subset hc)
  have hrequests : requests first (applied ++ h₁.queued) = requests first (applied ++ h.queued) ++
      [.Publish (lastScanned first (applied ++ h.queued))] := by
    rw [hcs, requests_append, hnotes.requests, hnotes.scanned]
    rfl
  have hscanned : lastScanned first (applied ++ h₁.queued) =
      lastScanned first (applied ++ h.queued) := by
    rw [hcs, lastScanned_append, hnotes.scanned]
    rfl
  have hcoming (hc : Coming session first (applied ++ h.queued) removal busy m h) :
      Coming session first (applied ++ h₁.queued) removal busy
        { m with publications := m.publications ++ [pending] } h₁ := by
    refine ⟨?_, ?_, fun hno => ?_⟩
    · rw [List.length_append]
      exact (hc.overlays.weaken (le_refl _) rfl fun q hq request heq =>
        (hq request heq).mono hsub).asked hrequests fun request hno => by cases hno
    · rcases hc.map with ⟨removed, rest, heq⟩ | hmap
      · refine Or.inl ⟨removed, rest ++ [pending], ?_⟩
        rw [heq]
        rfl
      · exact Or.inr fun p hp => (hmap p (hq.same.published ▸ hp)).mono hsub
    · obtain ⟨-, hidle, hoff⟩ := hc.unmapped (hq.same.published ▸ hno)
      rcases hneeded with hneeded | hneeded
      · rw [hidle] at hneeded
        cases hneeded
      · rw [hoff] at hneeded
        cases hneeded
  rcases hs with ho | hr | hc
  · exact Or.inl ho
  · refine Or.inr (Or.inl ⟨hr.active, ?_, ?_, fun hrep => hcoming (hr.replaced hrep)⟩)
    · rw [hscanned]
      exact hr.later.mono hsub
    · rw [List.length_append]
      refine (hr.publishes.weaken (le_refl _) rfl fun q hq g heq => (hq g heq).mono hsub).asked
        hrequests fun g hg => ?_
      cases hg
      exact hr.later.mono hsub
  · exact Or.inr (Or.inr (hcoming hc))

/-- The first scan is cancelled: there is no map, and none is published of it. -/
theorem RemovalHeld.cancelsPrimary (hidle : m.publications = []) (hnone : h.published = none)
    (hoff : m.rebuildActive = false)
    (hq : StoreHandle.Queues h h₁ (notes ++ [.CancelActive])) :
    RemovalHeld session first (applied ++ h₁.queued) removal false { m with removals := .empty } h₁ := by
  refine Or.inr (Or.inr ⟨?_, Or.inr fun p hp => ?_, fun _ => ⟨hidle, rfl, hoff⟩⟩)
  · rw [show ({ m with removals := .empty } : MapState).publications = [] from hidle]
    exact .nil
  · rw [hq.same.published, hnone] at hp
    cases hp

/-- A rebuild's publication ended; a replacement is only left to one that counts for nothing. -/
theorem RemovalHeld.ends (hs : RemovalHeld session first cs removal busy m h)
    {publication : FinishedPublication}
    (hmarked : m.rebuildActive = true → m.rebuildRequired = m.rebuildInvalidated)
    (hwithout : publication.isReplacement = true → m.rebuildInvalidated = true) :
    RemovalHeld session first cs removal busy
      { m with finishedPublications := m.finishedPublications ++ [publication] } h := by
  have hkept (hc : Coming session first cs removal busy m h) :
      Coming session first cs removal busy
        { m with finishedPublications := m.finishedPublications ++ [publication] } h :=
    hc.kept .refl rfl rfl id id
  rcases hs with ho | hr | hc
  · exact Or.inl ho
  · cases hrep : publication.isReplacement with
    | true =>
      exact Or.inl (Or.inr (Or.inl ((hmarked hr.active).trans (hwithout hrep))))
    | false =>
      refine Or.inr (Or.inl (hr.kept .refl rfl rfl fun hno => hkept (hr.replaced ?_)))
      unfold MapState.replaced at hno ⊢
      rw [List.any_append, List.any_cons, hrep, List.any_nil, Bool.or_self, Bool.or_false] at hno
      exact hno
  · exact Or.inr (Or.inr (hkept hc))

/-- A rebuild is over: it failed, or its map is installed. -/
theorem RemovalHeld.finishes (hs : RemovalHeld session first cs removal busy m h)
    {failure : Option OwnerFailure}
    {rest : List FinishedPublication} (hmarked : m.rebuildRequired = m.rebuildInvalidated)
    (holdest : m.finishedPublications = .Rebuild failure :: rest) :
    RemovalHeld session first cs removal busy (m.ended rest) h ∨
      (m.rebuildInvalidated = false ∧ failure.isSome = true) := by
  have hkept (hc : Coming session first cs removal busy m h) :
      Coming session first cs removal busy (m.ended rest) h :=
    hc.kept .refl rfl rfl id fun _ => rfl
  rcases hs with ho | hr | hc
  · rcases ho with hlost | hrequired | hrebuild | hprefix
    · exact Or.inl (Or.inl (Or.inl hlost))
    · exact Or.inl (Or.inl (Or.inr (Or.inl (hmarked.symm.trans hrequired))))
    · exact Or.inl (Or.inl (Or.inr (Or.inr (Or.inl hrebuild))))
    · exact Or.inl (Or.inl (Or.inr (Or.inr (Or.inr hprefix))))
  · cases hinvalidated : m.rebuildInvalidated with
    | true => exact Or.inl (Or.inl (Or.inr (Or.inl hinvalidated)))
    | false =>
      cases hfailure : failure with
      | some error => exact Or.inr ⟨rfl, rfl⟩
      | none =>
        refine Or.inl (Or.inr (Or.inr (hkept (hr.replaced ?_))))
        unfold MapState.replaced
        rw [holdest, hfailure]
        rfl
  · exact Or.inl (Or.inr (Or.inr (hkept hc)))

end

namespace OwnerLoop
variable {env : OwnerEnv} {kind : StepKind} {s s' : OwnerLoop}

def Safely (session : ScanSessionId) (first : ScanGeneration) (s : OwnerLoop) (removal : EndedRemoval) :
    Prop :=
  removal.Known s.app.scanStore ∧
    RemovalHeld session first (s.applied ++ s.app.scanStore.queued) removal
      (s.primaryScanActive || s.primaryReduction) s.app.map s.app.scanStore

/-- Every removal is owed, on its way out, or left out. -/
structure Unforgotten (session : ScanSessionId) (first : ScanGeneration) (s : OwnerLoop) : Prop where
  reducing : s.primaryScanActive = true → s.primaryReduction = false
  overlayFirst : s.app.map.OverlayFirst
  removals : ∀ removal ∈ s.removals, s.Safely session first removal

theorem Unforgotten.of (hu : s.Unforgotten session first)
    (hremovals : s'.removals = s.removals)
    (hreducing : s'.primaryScanActive = true → s'.primaryReduction = false)
    (hfirst : s'.app.map.OverlayFirst)
    (hheld : ∀ removal, s.Safely session first removal → s'.Safely session first removal) :
    s'.Unforgotten session first :=
  ⟨hreducing, hfirst, fun removal hr => hheld removal (hu.removals removal (hremovals ▸ hr))⟩

theorem unforgotten_turn (h : LoopTurn kind s s') (hcalm : kind.calm) (hs : s.Steady)
    (hn : s.Numbers session first) (ho : s.Owing first) (hu : s.Unforgotten session first) :
    s'.Unforgotten session first := by
  have hb : Between session first s.engine s.applied s.app.book := ⟨hn, ho, hu.overlayFirst⟩
  cases h with
  | calls moves =>
    refine hu.of rfl hu.reducing (hb.moves hcalm moves).overlayFirst fun removal hr => ?_
    exact RemovalHeld.moves hb hcalm hr.1 hr.2 moves
  | @removes a target moves =>
    refine ⟨hu.reducing, (hb.moves hcalm moves.moves).overlayFirst, fun removal hr => ?_⟩
    rcases List.mem_append.mp hr with hr | hr
    · obtain ⟨hk, hheld⟩ := hu.removals removal hr
      exact RemovalHeld.moves hb hcalm hk hheld moves.moves
    · obtain ⟨m, h, hto, howed, hon⟩ := moves
      rw [List.mem_singleton.mp hr]
      refine RemovalHeld.moves (hb.moves hcalm hto) hcalm (known_moves ?_ hto) (Or.inl howed) hon
      exact fun l hl => ⟨l, hl, le_refl l⟩
  | begins primary rebuild required idle finished chain newest open_ neutral queues book =>
    obtain ⟨hmap, hstore⟩ := book_inj book
    refine hu.of rfl hu.reducing ?_ fun removal hr => ⟨?_, ?_⟩
    · rw [hmap]
      intro pending rest heq
      rw [show s.app.map.begun.publications = [] from idle] at heq
      cases heq
    · rw [hstore]
      exact (hr.1.queues queues).noted _
    · rw [hmap, hstore]
      exact Or.inr (Or.inl (.begins hr.1 newest queues idle finished))
  | scanned primary reduction asks active reducing =>
    refine hu.of rfl (fun hprimary => ?_) hu.overlayFirst fun removal hr => ⟨hr.1, ?_⟩
    · cases hreduction : reduction with
      | false => rfl
      | true =>
        rcases reducing hreduction with hbusy | ⟨-, hno⟩
        · rw [hu.reducing (active hprimary)] at hbusy
          cases hbusy
        · rw [show primary = true from hprimary] at hno
          cases hno
    · refine hr.2.kept rfl rfl fun hbusy => Bool.or_eq_false_iff.mpr ⟨?_, ?_⟩
      · obtain ⟨hprimary, -⟩ := Bool.or_eq_false_iff.mp hbusy
        cases hset : primary with
        | false => rfl
        | true => exact (active hset).symm.trans hprimary
      · obtain ⟨hprimary, hreduction⟩ := Bool.or_eq_false_iff.mp hbusy
        cases hset : reduction with
        | false => rfl
        | true =>
          rcases reducing hset with hyes | ⟨hyes, -⟩
          · exact hyes.symm.trans hreduction
          · exact hyes.symm.trans hprimary
  | reduced asks =>
    refine hu.of rfl (fun _ => rfl) hu.overlayFirst fun removal hr =>
      ⟨hr.1, hr.2.kept rfl rfl fun hbusy => ?_⟩
    rw [(Bool.or_eq_false_iff.mp hbusy).1]
    rfl
  | cancelsPrimary asks primary open_ neutral queues book =>
    obtain ⟨hmap, hstore⟩ := book_inj book
    obtain ⟨hno, hidle, hnone⟩ := hs.primary primary
    refine hu.of rfl (fun hyes => (by cases hyes)) ?_ fun removal hr => ⟨?_, ?_⟩
    · rw [hmap]
      exact hu.overlayFirst
    · rw [hstore]
      exact hr.1.queues queues
    · rw [hmap, hstore]
      change RemovalHeld _ _ _ _ (false || s.primaryReduction) _ _
      rw [hu.reducing primary]
      exact RemovalHeld.cancelsPrimary hidle hnone (hs.active.symm.trans hno) queues
  | publishes asks primary asked open_ neutral queues book =>
    obtain ⟨hmap, hstore⟩ := book_inj book
    refine hu.of rfl hu.reducing ?_ fun removal hr => ⟨?_, ?_⟩
    · rw [hmap]
      exact hu.overlayFirst.publishes fun removed hno => by
        rcases asked with ⟨rfl, -⟩ | ⟨rfl, -⟩ <;> cases hno
    · rw [hstore]
      exact hr.1.queues queues
    · rw [hmap, hstore]
      refine hr.2.publishes neutral queues ?_
      rcases asked with ⟨-, hreduction⟩ | ⟨-, hrebuild, -⟩
      · exact Or.inl (by rw [hreduction, Bool.or_true])
      · exact Or.inr (hs.active.symm.trans hrebuild)
  | ends asks rebuild still without book =>
    obtain ⟨hmap, hstore⟩ := book_inj book
    refine hu.of rfl hu.reducing ?_ fun removal hr => ⟨?_, ?_⟩
    · rw [hmap]
      exact hu.overlayFirst
    · rw [hstore]
      exact hr.1
    · rw [hmap, hstore]
      exact hr.2.ends hs.marked without
  | @finishes a failure rest target asks known oldest moves lost =>
    have hactive : s.app.map.rebuildActive = true := by
      rw [← hs.target, known]
      rfl
    have hb' : Between session first s.engine s.applied (s.app.map.ended rest, s.app.scanStore) :=
      ⟨hn, ho, hu.overlayFirst⟩
    refine hu.of rfl hu.reducing (hb'.moves hcalm moves).overlayFirst fun removal hr => ?_
    rcases hr.2.finishes (hs.marked hactive) oldest with hheld | ⟨hvalid, hfailed⟩
    · exact RemovalHeld.moves hb' hcalm hr.1 hheld moves
    · exact ⟨known_moves hr.1 moves, Or.inl (Or.inl (lost hvalid hfailed))⟩
  | cancels asks active still later open_ neutral queues book =>
    obtain ⟨hmap, hstore⟩ := book_inj book
    refine hu.of rfl hu.reducing ?_ fun removal hr => ⟨?_, ?_⟩
    · rw [hmap]
      exact hu.overlayFirst
    · rw [hstore]
      exact hr.1.queues queues
    · rw [hmap]
      exact Or.inl (Or.inr (Or.inl rfl))
  | idles asks active => exact hu.of rfl hu.reducing hu.overlayFirst fun _ hr => hr
  | thread io runs =>
    rcases threadStep_cases hs.threaded io with heq | ⟨c, commands, hqueued, -, heq⟩
    · rw [heq]
      exact hu
    · rw [heq]
      refine hu.of rfl hu.reducing hu.overlayFirst fun removal hr => ⟨hr.1, hr.2.kept ?_ rfl id⟩
      change s.applied ++ [c] ++ commands = s.applied ++ s.app.scanStore.queued
      rw [hqueued, List.append_assoc]
      rfl
  | threadEnds runs =>
    rw [threadStop_eq hs.threaded]
    exact hu.of rfl hu.reducing hu.overlayFirst fun removal hr => ⟨hr.1, hr.2.kept rfl rfl id⟩

theorem unforgotten_run {page : SnapshotTree} {steps : List LoopStep}
    (h : CalmRun env (start session first page) steps) :
    ((machine env).run (start session first page) steps).Unforgotten session first := by
  refine (calm_run_turns (I := fun s => s.Numbers session first ∧ s.Owing first ∧
      s.Unforgotten session first) (steady_start session first page)
    ⟨MapsNumbered.start, Outstanding.start, ⟨fun _ => rfl, ?_, ?_⟩⟩ ?_ h).2.2.2
  · intro pending rest heq
    cases heq
  · intro removal hr
    exact absurd hr List.not_mem_nil
  · rintro kind s₁ s₂ hcalm hs ⟨hn, ho, hu⟩ hturn
    exact ⟨(numbers_turn hturn hs hn).1, owing_turn hturn hcalm hs hn ho,
      unforgotten_turn hturn hcalm hs hn ho hu⟩

/-- The overlay outstanding is the oldest publication, and leaves out what is on its way out. -/
theorem outstanding_overlay {removal : EndedRemoval} {removed : RelativePath}
    {rest : List PendingPublication} (ho : s.Owing first)
    (hc : Coming session first s.sent removal busy s.app.map s.app.scanStore)
    (hfirst : s.app.map.publications = .Overlay removed :: rest) :
    ∃ request, request.replacedPrefix = removed ∧ .Overlay request ∈ s.sent ∧
      LeavesOut session first s.sent removal request.generation := by
  have hreported : s.app.scanStore.unavailableReported = false := by
    cases hreported : s.app.scanStore.unavailableReported with
    | false => rfl
    | true =>
      rw [(ho.reported hreported).2.2] at hfirst
      cases hfirst
  obtain ⟨answered, waiting, hrequests, -, hasks⟩ := ho.matched hreported
  have hall : requests first s.sent = answered ++
      (waiting ++ requests (lastScanned first s.applied) s.app.scanStore.queued) := by
    unfold sent
    rw [requests_append, hrequests, List.append_assoc]
  have hrecent := hc.overlays _ _ hall (le_of_eq hasks.length_eq.symm)
  rw [hfirst] at hasks
  obtain ⟨q, late, hq, -, heq⟩ := List.forall₂_cons_left_iff.mp hasks
  rw [heq] at hall hrecent
  cases q with
  | Publish g => exact hq.elim
  | Overlay request =>
    have hmem : .Overlay request ∈ requests first s.sent := by
      rw [hall]
      exact List.mem_append_right _ List.mem_cons_self
    exact ⟨request, hq, mem_of_overlay hmem, hrecent _ List.mem_cons_self request rfl⟩

/-- Whatever a deletion removed: the map installed leaves it out, or it is owed, a rebuild scans
that began after it, or an overlay is outstanding that leaves it out. -/
theorem removals_not_forgotten {page : SnapshotTree} {steps : List LoopStep}
    (h : CalmRun env (start session first page) steps) {removal : EndedRemoval}
    (hremoval : removal ∈ ((machine env).run (start session first page) steps).removals)
    {p : PublishedGeneration}
    (hinstalled : ((machine env).run (start session first page) steps).app.scanStore.published =
      some p) :
    ((machine env).run (start session first page) steps).app.map.Owed removal.target ∨
      (((machine env).run (start session first page) steps).app.map.rebuildActive = true ∧
        LeavesOut session first ((machine env).run (start session first page) steps).sent removal
          (lastScanned first ((machine env).run (start session first page) steps).sent)) ∨
      (∃ request rest, ((machine env).run (start session first page) steps).app.map.publications =
          .Overlay request.replacedPrefix :: rest ∧
        .Overlay request ∈ ((machine env).run (start session first page) steps).sent ∧
        LeavesOut session first ((machine env).run (start session first page) steps).sent removal
          request.generation) ∨
      LeavesOut session first ((machine env).run (start session first page) steps).sent removal
        p.manifest.generation := by
  obtain ⟨-, -, ho⟩ := owing_run h
  obtain ⟨-, hheld⟩ := (unforgotten_run h).removals removal hremoval
  rcases hheld with howed | hr | hc
  · exact Or.inl howed
  · exact Or.inr (Or.inl ⟨hr.active, hr.later⟩)
  · rcases hc.map with ⟨removed, rest, hfirst⟩ | hmap
    · obtain ⟨request, rfl, hsent, hleaves⟩ := outstanding_overlay ho hc hfirst
      exact Or.inr (Or.inr (Or.inl ⟨request, rest, hfirst, hsent, hleaves⟩))
    · exact Or.inr (Or.inr (Or.inr (hmap p hinstalled)))

/-- A folder is deleted once the first map is installed, and its overlay is installed next. -/
def overlaidFolder : List LoopStep := firstMapShown ++ (folderOverlaid ++ [.storeEvent .quiet])

theorem removals_not_forgotten_overlaidFolder :
    ∃ removal ∈ ((machine .quiet).run emptyStart overlaidFolder).removals, ∃ p,
      ((machine .quiet).run emptyStart overlaidFolder).app.scanStore.published = some p ∧
      LeavesOut ⟨0⟩ ⟨0⟩ ((machine .quiet).run emptyStart overlaidFolder).sent removal
        p.manifest.generation := by
  have hcalm : CalmRun .quiet emptyStart overlaidFolder := by decide +kernel
  have hone : ((machine .quiet).run emptyStart overlaidFolder).removals.length = 1 := by
    decide +kernel
  have hsome : ((machine .quiet).run emptyStart overlaidFolder).app.scanStore.published.isSome =
      true := by decide +kernel
  have hmap : ((machine .quiet).run emptyStart overlaidFolder).app.map.scanStoreAvailable = true ∧
      ((machine .quiet).run emptyStart overlaidFolder).app.map.rebuildRequired = false ∧
      ((machine .quiet).run emptyStart overlaidFolder).app.map.rebuildActive = false ∧
      ((machine .quiet).run emptyStart overlaidFolder).app.map.removals.rebuild = false ∧
      ((machine .quiet).run emptyStart overlaidFolder).app.map.removals.prefixes.length = 0 ∧
      ((machine .quiet).run emptyStart overlaidFolder).app.map.publications.length = 0 := by
    decide +kernel
  obtain ⟨havailable, hrequired, hactive, hrebuild, hprefixes, hidle⟩ := hmap
  obtain ⟨removal, hremovals⟩ := List.length_eq_one_iff.mp hone
  obtain ⟨p, hp⟩ := Option.isSome_iff_exists.mp hsome
  have hmem : removal ∈ ((machine .quiet).run emptyStart overlaidFolder).removals := by
    rw [hremovals]
    exact List.mem_singleton_self _
  refine ⟨removal, hmem, p, hp, ?_⟩
  rcases removals_not_forgotten hcalm hmem hp with
    howed | ⟨hno, -⟩ | ⟨request, rest, hno, -⟩ | hleaves
  · rcases howed with hno | hno | hno | ⟨removed, hno, -⟩
    · exact absurd (havailable.symm.trans hno) Bool.noConfusion
    · exact absurd (hrequired.symm.trans hno) Bool.noConfusion
    · exact absurd (hrebuild.symm.trans hno) Bool.noConfusion
    · exact absurd (lt_of_lt_of_eq (List.length_pos_of_mem hno) hprefixes) (lt_irrefl 0)
  · exact absurd (hactive.symm.trans hno) Bool.noConfusion
  · cases (congrArg List.length hno).symm.trans hidle
  · exact hleaves

end OwnerLoop

end Excise
