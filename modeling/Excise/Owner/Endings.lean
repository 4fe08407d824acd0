import Excise.Owner.Handed

/-!
# How publications end

The publication of a scan is one of those outstanding until it ends, and then one the loop has still
to finish its part of. Only a scan that is over adds one, and only the loop takes one; every other
step leaves their number as it is.
-/

namespace Excise
set_option autoImplicit false

/-- The publication of a scan: a rebuild's, or the first map's. -/
def PendingPublication.ofScan (rebuild : Bool) : PendingPublication → Bool
  | .Primary => !rebuild
  | .Rebuild => rebuild
  | .Overlay _ => false

/-- The publications of a scan that the loop has still to finish its part of. -/
def MapState.scanEnds (rebuild : Bool) (m : MapState) : Nat :=
  m.publications.countP (PendingPublication.ofScan rebuild) +
    m.finishedPublications.countP fun f => f.ofRebuild == rebuild

/-! ## Calls beside the thread -/

/-- A call that neither takes a result nor ends a publication. -/
def StepKind.apart : StepKind := ⟨False, False, False, False⟩

/-- The results told and the publications of scans stay. -/
structure Keeps (x y : MapState × StoreHandle) : Prop where
  told : y.2.told = x.2.told
  reported : y.2.unavailableReported = x.2.unavailableReported
  scans : ∀ rebuild, y.1.scanEnds rebuild = x.1.scanEnds rebuild

section
variable {kind : StepKind} {x y z : MapState × StoreHandle} {m m' : MapState} {h h' : StoreHandle}

theorem Keeps.refl (x : MapState × StoreHandle) : Keeps x x := ⟨rfl, rfl, fun _ => rfl⟩

theorem Keeps.trans (hxy : Keeps x y) (hyz : Keeps y z) : Keeps x z :=
  ⟨hyz.told.trans hxy.told, hyz.reported.trans hxy.reported,
    fun rebuild => (hyz.scans rebuild).trans (hxy.scans rebuild)⟩

theorem MapState.scanEnds_eq (hpubs : m'.publications = m.publications)
    (hfinished : m'.finishedPublications = m.finishedPublications) (rebuild : Bool) :
    m'.scanEnds rebuild = m.scanEnds rebuild := by
  unfold scanEnds
  rw [hpubs, hfinished]

theorem Keeps.of_same (htold : h'.told = h.told)
    (hreported : h'.unavailableReported = h.unavailableReported)
    (hpubs : m'.publications = m.publications)
    (hfinished : m'.finishedPublications = m.finishedPublications) : Keeps (m, h) (m', h') :=
  ⟨htold, hreported, MapState.scanEnds_eq hpubs hfinished⟩

theorem Keeps.of_queues {commands : List StoreCommand} (hq : StoreHandle.Queues h h' commands)
    (hpubs : m'.publications = m.publications)
    (hfinished : m'.finishedPublications = m.finishedPublications) : Keeps (m, h) (m', h') :=
  .of_same hq.told hq.same.reported hpubs hfinished

theorem Move.keeps (hmove : Move kind x y) (htakes : ¬kind.takes) (hfinishes : ¬kind.finishes) :
    Keeps x y := by
  cases hmove with
  | owes same owes aside => exact .of_same rfl rfl same (aside hfinishes)
  | loses same loses aside => exact .of_same rfl rfl same (aside hfinishes)
  | invalidates same invalidates => exact .of_same rfl rfl same invalidates.finished
  | adds available installed held added =>
    subst added
    exact .of_same rfl rfl rfl rfl
  | sends queues quiet => exact .of_queues queues rfl rfl
  | asksOverlay idle installed next base oldest open_ neutral queues noted asked =>
    subst noted asked
    refine ⟨queues.told, queues.same.reported, fun rebuild => ?_⟩
    unfold MapState.scanEnds
    rw [show _ = [] from idle]
    rfl
  | takes polls | stray polls | ends polls | installs polls | fails polls | stops polls =>
    exact absurd polls htakes

theorem Moves.keeps (hmoves : Moves kind x y) (htakes : ¬kind.takes) (hfinishes : ¬kind.finishes) :
    Keeps x y := by
  induction hmoves with
  | refl => exact .refl x
  | tail _ hmove ih => exact ih.trans (hmove.keeps htakes hfinishes)

theorem keeps_of_moves (hmoves : Moves .apart x y) : Keeps x y := Moves.keeps hmoves id id

end

/-! ## Results taken -/

namespace App
variable (env : OwnerEnv) (w : CallWorld) {a b : App}

theorem keeps_of_book {x : MapState × StoreHandle} (hbook : b.book = a.book) (hx : Keeps x a.book) :
    Keeps x b.book := by
  rw [hbook]
  exact hx

theorem scanEnds_finished (publication : FinishedPublication) (rebuild : Bool) :
    (a.finished publication).map.scanEnds rebuild =
      a.map.scanEnds rebuild + if publication.ofRebuild = rebuild then 1 else 0 := by
  unfold finished MapState.scanEnds
  rw [List.countP_append, List.countP_singleton, Nat.add_assoc]
  congr 2
  by_cases hkind : publication.ofRebuild = rebuild
  · rw [if_pos hkind, if_pos (beq_iff_eq.mpr hkind)]
  · rw [if_neg hkind, if_neg (fun heq => hkind (beq_iff_eq.mp heq))]

theorem threaded_of_keeps (hmoves : Moves .apart a.book b.book) (ht : a.scanStore.threaded = true) :
    b.scanStore.threaded = true := Moves.threaded hmoves ht

theorem threaded_install {h : StoreHandle} (ht : h.threaded = true) (publication : Publication) :
    (h.install publication).threaded = true := by
  cases publication <;> exact ht

theorem keeps_install (publication : Publication) :
    Keeps a.book ({ a with scanStore := a.scanStore.install publication } : App).book := by
  cases publication <;> exact .of_same rfl rfl rfl rfl

theorem keeps_settleRemovals (ht : a.scanStore.threaded = true) :
    Keeps a.book (a.settleRemovalsBeforeFirstMap env w).book := by
  unfold settleRemovalsBeforeFirstMap
  split
  · exact .refl _
  · split
    · exact .of_same rfl rfl rfl rfl
    · split
      · exact keeps_of_moves (moves_invalidate env w ht)
      · exact .refl _

/-- The publication of the first map, which ends with its completion. -/
theorem keeps_completePrimary (ht : a.scanStore.threaded = true)
    (result : Except StoreFailure Publication) : ∃ b : App, Keeps a.book b.book ∧
      (a.completePrimaryPublication env w result).book = (b.finished .Primary).book := by
  have htaken : Keeps a.book (a.takePrimaryPublication env result).1.book ∧
      (a.takePrimaryPublication env result).1.scanStore.threaded = true := by
    unfold takePrimaryPublication
    cases result with
    | error failure =>
      dsimp only
      split
      · have hmoves : Moves .apart a.book _ := moves_abandonWithFailure env ht (.store failure)
        exact ⟨keeps_of_moves hmoves, threaded_of_keeps hmoves ht⟩
      · exact ⟨.refl _, ht⟩
    | ok publication =>
      dsimp only
      split
      · split
        · exact ⟨(keeps_install publication).trans (.of_same rfl rfl rfl rfl),
            threaded_install ht publication⟩
        · exact ⟨keeps_install publication, threaded_install ht publication⟩
      · exact ⟨.refl _, ht⟩
  obtain ⟨htaken, hts⟩ := htaken
  have hover {c : App} (hc : Keeps a.book c.book) (htc : c.scanStore.threaded = true) :
      ∃ b : App, Keeps a.book b.book ∧ (((c.settleRemovalsBeforeFirstMap env w).finished
        .Primary).resumePendingNavigation env w).book = (b.finished .Primary).book :=
    ⟨_, hc.trans (keeps_settleRemovals env w htc), resumePendingNavigation_book env w _⟩
  unfold completePrimaryPublication
  dsimp only
  split
  · rcases showPublishedMap_cases env w (a := (a.takePrimaryPublication env result).1)
      a.view.currentRelative with hshown | ⟨failure, hshown⟩
    · refine hover (keeps_of_book hshown htaken) ?_
      rw [(Prod.mk.inj hshown).2]
      exact hts
    · refine hover ?_ ?_
      · rw [hshown]
        exact htaken.trans (.of_same rfl rfl rfl rfl)
      · rw [(Prod.mk.inj hshown).2]
        exact hts
  · exact hover (c := (a.takePrimaryPublication env result).1.showScanResultsUnavailable) htaken hts

/-- The publication of a rebuild, which ends with the rebuild's. -/
theorem keeps_completeRebuild (result : Except StoreFailure Publication) :
    ∃ (b : App) (publication : FinishedPublication), Keeps a.book b.book ∧
      publication.ofRebuild = true ∧
      (a.completeRebuildPublication result).book = (b.finished publication).book := by
  unfold completeRebuildPublication
  split
  · exact ⟨a, .RebuildCancelled, .refl _, rfl, rfl⟩
  · split
    · cases result with
      | error failure => exact ⟨a, _, .refl _, rfl, rfl⟩
      | ok publication => exact ⟨_, _, keeps_install publication, rfl, rfl⟩
    · exact ⟨a, _, .refl _, rfl, rfl⟩

/-- The publication of an overlay ends beside the map, or with another map. -/
theorem moves_overlayOver (ht : a.scanStore.threaded = true)
    (result : Except StoreFailure Publication) (removed : RelativePath) :
    Moves .apart a.book (a.completeOverlayPublication env w result removed).book ∨
      ∃ publication, Moves .apart ({ a with scanStore := a.scanStore.install publication } : App).book
        (a.completeOverlayPublication env w result removed).book := by
  unfold completeOverlayPublication
  cases result with
  | error failure =>
    dsimp only
    split
    · exact Or.inl (moves_invalidate env w ht)
    · exact Or.inl (moves_owes rfl ⟨⟨rfl, rfl, fun _ h => Or.inl h⟩, rfl, rfl, rfl, fun _ h => h,
        fun h => h, fun _ _ h => h⟩ rfl)
  | ok publication =>
    dsimp only
    split
    · have hti := threaded_install ht publication
      have hload (folder : RelativePath) : Moves .apart
          ({ a with scanStore := a.scanStore.install publication } : App).book _ :=
        moves_of_book (loadEither_book env w (App.invalidateCachedPagesForOverlay removed
          { a with scanStore := a.scanStore.install publication }) folder
            (relativeParentOrRoot removed))
      have hnext {c : App} (hc : Moves .apart
          ({ a with scanStore := a.scanStore.install publication } : App).book c.book) :
          Moves .apart ({ a with scanStore := a.scanStore.install publication } : App).book
            (c.startNextRemovalOverlay env w).book :=
        hc.trans (moves_startNextRemovalOverlay env w (threaded_of_keeps hc hti))
      have hagain (folder : RelativePath) := (hload folder).trans
        (moves_invalidate env w (Moves.threaded (hload folder) hti))
      refine Or.inr ⟨publication, ?_⟩
      unfold installOverlay
      dsimp only
      split
      · exact moves_invalidate env w hti
      · split
        · split
          · exact hnext (hagain _)
          · exact hnext (hload _)
        · split
          · exact hnext (hagain _)
          · exact hnext (hload _)
    · exact Or.inl .refl

theorem keeps_completeOverlay (ht : a.scanStore.threaded = true)
    (result : Except StoreFailure Publication) (removed : RelativePath) :
    Keeps a.book (a.completeOverlayPublication env w result removed).book := by
  rcases moves_overlayOver env w ht result removed with hmoves | ⟨publication, hmoves⟩
  · exact keeps_of_moves hmoves
  · exact (keeps_install publication).trans (keeps_of_moves hmoves)

/-- The oldest publication leaves those outstanding and, if a scan's, joins those that ended. -/
theorem keeps_applyPublicationResult (ht : a.scanStore.threaded = true)
    (result : Except StoreFailure Publication) :
    Keeps a.book (a.applyPublicationResult env w result).book := by
  unfold applyPublicationResult
  split
  · exact .refl _
  · rename_i pending rest hpubs
    have hpopped (rebuild : Bool) : a.map.scanEnds rebuild =
        ({ a.map with publications := rest } : MapState).scanEnds rebuild +
          if pending.ofScan rebuild = true then 1 else 0 := by
      unfold MapState.scanEnds
      rw [hpubs, List.countP_cons, Nat.add_right_comm]
    have hended {b : App} {publication : FinishedPublication}
        (hb : Keeps ({ a.map with publications := rest }, a.scanStore) b.book)
        (hsame : ∀ rebuild, publication.ofRebuild = rebuild ↔ pending.ofScan rebuild = true) :
        Keeps a.book (b.finished publication).book := by
      refine ⟨hb.told, hb.reported, fun rebuild => ?_⟩
      change (b.finished publication).map.scanEnds rebuild = a.map.scanEnds rebuild
      rw [scanEnds_finished, hpopped, show b.map.scanEnds rebuild = _ from hb.scans rebuild]
      simp only [hsame]
    unfold settlePublication
    cases pending with
    | Primary =>
      obtain ⟨b, hb, heq⟩ := keeps_completePrimary env w
        (a := { a with map := { a.map with publications := rest } }) ht result
      dsimp only
      rw [heq]
      exact hended hb fun rebuild => by cases rebuild <;> decide
    | Rebuild =>
      obtain ⟨b, publication, hb, hrebuild, heq⟩ := keeps_completeRebuild
        (a := { a with map := { a.map with publications := rest } }) result
      dsimp only
      rw [heq]
      exact hended hb fun rebuild => by rw [hrebuild]; cases rebuild <;> decide
    | Overlay removed =>
      have hpop : Keeps a.book ({ a.map with publications := rest }, a.scanStore) :=
        ⟨rfl, rfl, fun rebuild => (hpopped rebuild).symm⟩
      exact hpop.trans (keeps_completeOverlay env w
        (a := { a with map := { a.map with publications := rest } }) ht result removed)

/-- All publications of a store that is lost end. -/
theorem keeps_settleAll (failure : StoreFailure) (count : Nat) : ∀ a : App,
    a.scanStore.threaded = true → a.map.scanStoreAvailable = false →
    a.map.publications.length = count → Keeps a.book (a.settleAll env w failure count).book := by
  induction count with
  | zero => exact fun a _ _ _ => .refl a.book
  | succ count ih =>
    intro a ht hlost hcount
    obtain ⟨pending, rest, hpubs⟩ := List.exists_cons_of_length_eq_add_one hcount
    obtain ⟨hstore, hrest, hloses⟩ := lost_applyPublicationResult env w failure hpubs hlost
    rw [hpubs] at hcount
    refine (keeps_applyPublicationResult env w ht (.error failure)).trans
      (ih _ ?_ hloses.available ?_)
    · rw [hstore]
      exact ht
    · rw [hrest]
      exact Nat.succ.inj hcount

theorem failed_failScanStore {failure : OwnerFailure} :
    (a.failScanStore env failure).map.scanStoreAvailable = false := by
  unfold failScanStore
  split
  · rfl
  · rename_i hno
    exact Bool.eq_false_iff.mpr hno

theorem keeps_scanStoreStopped (ht : a.scanStore.threaded = true) (failure : StoreFailure) :
    Keeps a.book (a.scanStoreStopped env w failure).book := by
  have hmoves : Moves .apart a.book _ := moves_failScanStore env ht (.store failure)
  refine (keeps_of_moves hmoves).trans
    (keeps_settleAll env w failure _ _ (Moves.threaded hmoves ht) (failed_failScanStore env) rfl)

/-- A result is taken by the poll; what follows takes no other. -/
theorem keeps_processNextEvent (ht : a.scanStore.threaded = true) :
    Keeps (a.map, (a.scanStore.poll env.engine).1) (a.processNextEvent env w).book := by
  have hpoll := StoreHandle.polls_poll env.engine ht
  unfold processNextEvent
  dsimp only
  generalize a.scanStore.poll env.engine = polled at hpoll
  cases hpoll with
  | idle => exact .refl _
  | stopped told gone =>
    exact keeps_scanStoreStopped env w (a := { a with
      scanStore := { a.scanStore with unavailableReported := true } }) ht .stopped
  | @admissionFailed h' error takes =>
    exact keeps_of_moves (moves_failScanStore env (a := { a with scanStore := h' })
      takes.threaded (.store (.store error)))
  | @page h₁ h' folder page takes next =>
    obtain ⟨commands, hq, -⟩ := next
    exact keeps_of_moves (moves_applyProvisionalPage env w (a := { a with scanStore := h' })
      hq.threaded folder page)
  | @published h' answer takes =>
    exact keeps_applyPublicationResult env w (a := { a with scanStore := h' }) takes.threaded _
  | @overlaid h' answer takes =>
    exact keeps_applyPublicationResult env w (a := { a with scanStore := h' }) takes.threaded _
  | @failure h' error takes =>
    exact keeps_scanStoreStopped env w (a := { a with scanStore := h' }) takes.threaded (.store error)

/-! ## Publications asked for -/

/-- One more publication of a scan is to end for the loop. -/
def AsksEnd (rebuild : Bool) (m m' : MapState) : Prop :=
  ∀ kind, m'.scanEnds kind = m.scanEnds kind + if rebuild = kind then 1 else 0

theorem asks_finished {x : MapState × StoreHandle} (hx : Keeps x a.book)
    (publication : FinishedPublication) :
    AsksEnd publication.ofRebuild x.1 (a.finished publication).map := by
  intro kind
  rw [← hx.scans kind]
  exact scanEnds_finished publication kind

theorem asks_published {m : MapState} {rebuild : Bool} {pending : PendingPublication}
    (hpending : ∀ kind, pending.ofScan kind = true ↔ rebuild = kind) :
    AsksEnd rebuild m { m with publications := m.publications ++ [pending] } := by
  intro kind
  unfold MapState.scanEnds
  rw [List.countP_append, List.countP_singleton, Nat.add_right_comm]
  simp only [hpending]

theorem asks_beginPrimary (ht : a.scanStore.threaded = true) :
    AsksEnd false a.map (a.beginPrimaryPublication env w).map := by
  unfold beginPrimaryPublication
  rcases OwnerLoop.beginPublication_cases env .apart .Primary ht with
    ⟨h, notes, -, -, -, heq⟩ | ⟨hno, hmoves, -⟩
  · rw [heq]
    exact asks_published fun kind => by cases kind <;> decide
  · dsimp only
    rw [hno, if_neg Bool.false_ne_true]
    have hsettled := (keeps_of_moves hmoves).trans
      (keeps_settleRemovals env w (Moves.threaded hmoves ht))
    exact asks_finished (a := (App.settleRemovalsBeforeFirstMap env w _).showScanResultsUnavailable)
      hsettled .Primary

theorem asks_beginRebuild (ht : a.scanStore.threaded = true) :
    AsksEnd true a.map (a.beginRebuildPublication env).map := by
  unfold beginRebuildPublication
  split
  · exact asks_finished (.refl a.book) (.Rebuild none)
  · split
    · exact asks_finished (.refl a.book) .RebuildCancelled
    · rcases OwnerLoop.beginPublication_cases env .apart .Rebuild ht with
        ⟨h, notes, -, -, -, heq⟩ | ⟨hno, hmoves, -⟩
      · rw [heq]
        exact asks_published fun kind => by cases kind <;> decide
      · dsimp only
        rw [hno, if_neg Bool.false_ne_true]
        exact asks_finished (keeps_of_moves hmoves) (.Rebuild _)

end App

/-! ## Steps -/

namespace OwnerLoop
variable {env : OwnerEnv} {kind : StepKind} {w : CallWorld} {s s' s'' : OwnerLoop}

/-- A step of which the thread and the publications of scans know nothing. -/
structure Beside (s s' : OwnerLoop) : Prop extends Keeps s.app.book s'.app.book where
  primary : s'.primaryScanActive = s.primaryScanActive

theorem Beside.refl (s : OwnerLoop) : Beside s s := ⟨.refl _, rfl⟩

theorem Beside.trans (h : Beside s s') (h' : Beside s' s'') : Beside s s'' :=
  ⟨h.toKeeps.trans h'.toKeeps, h'.primary.trans h.primary⟩

theorem beside_turn (h : LoopTurn kind s s') (htakes : ¬kind.takes) (hfinishes : ¬kind.finishes) :
    Beside s s' := by
  cases h with
  | calls moves => exact ⟨Moves.keeps moves htakes hfinishes, rfl⟩
  | removes moves => exact ⟨Moves.keeps moves.moves htakes hfinishes, rfl⟩
  | begins primary rebuild required idle finished chain newest open_ neutral queues book =>
    refine ⟨?_, rfl⟩
    rw [book]
    exact .of_same queues.told queues.same.reported rfl rfl
  | scanned primary reduction asks | cancelsPrimary asks | publishes asks | ends asks | finishes asks
  | cancels asks | reduced asks | idles asks => exact absurd asks hfinishes
  | thread io runs | threadEnds runs => exact absurd runs htakes

theorem beside_turns (h : LoopTurns kind s s') (htakes : ¬kind.takes) (hfinishes : ¬kind.finishes) :
    Beside s s' := by
  induction h with
  | refl => exact .refl s
  | tail _ hturn ih => exact ih.trans (beside_turn hturn htakes hfinishes)

theorem beside_startPending (ht : s.app.scanStore.threaded = true)
    (h : s.startPendingGenerationRebuild env = some s') : Beside s s' := by
  have hturns : LoopTurns .apart s s' := turns_startPending ht h
  exact beside_turns hturns id id

/-- A rebuild ends, cancelled or not. -/
theorem beside_completeRebuild {cancelled : Bool} {failure : Option OwnerFailure}
    (ht : s.app.scanStore.threaded = true)
    (h : s.completeGenerationRebuild env w cancelled failure = some s') : Beside s s' := by
  unfold completeGenerationRebuild at h
  obtain ⟨app, happ, hmore⟩ := Option.bind_eq_some_iff.mp h
  have hended : Keeps s.app.book app.book ∧ app.scanStore.threaded = true := by
    cases cancelled with
    | true =>
      rcases cancelRebuild_cases happ ht with ⟨-, store, notes, available, -, -, hq, hbook⟩ | ⟨-, hbook⟩
      · rw [hbook, (book_inj hbook).2]
        exact ⟨.of_queues hq rfl rfl, hq.threaded⟩
      · rw [hbook, (book_inj hbook).2]
        exact ⟨.refl _, ht⟩
    | false =>
      obtain ⟨target, -, hmoves, -⟩ := finishRebuild_cases happ ht
      have hover : Keeps s.app.book (s.app.map.ended s.app.map.finishedPublications, s.app.scanStore) :=
        .of_same rfl rfl rfl rfl
      exact ⟨hover.trans (keeps_of_moves (hmoves _)), Moves.threaded (hmoves .apart) ht⟩
  have hafter := beside_startPending hended.2 hmore
  exact ⟨hended.1.trans hafter.toKeeps, hafter.primary⟩

/-- Whether it was a rebuild's, of a scan that is over and asks for its publication. -/
def endedScans (s : OwnerLoop) : LoopStep → List Bool
  | .scanFinished false _ => if s.scanning then [s.rebuildActive] else []
  | _ => []

/-- The publication that ended of which the loop finishes its part. -/
def takenEnds (s : OwnerLoop) : LoopStep → List FinishedPublication
  | .finishedPublication _ => s.app.map.finishedPublications.take 1
  | _ => []

/-- What a step adds to the publications of scans and takes from them; the first scan ends once. -/
structure Accounts (s : OwnerLoop) (a : LoopStep) (s' : OwnerLoop) : Prop where
  scans : ∀ rebuild, s'.app.map.scanEnds rebuild +
      (s.takenEnds a).countP (fun f => f.ofRebuild == rebuild) =
    s.app.map.scanEnds rebuild + (s.endedScans a).count rebuild
  primary : s'.primaryScanActive.toNat + (s.endedScans a).count false ≤ s.primaryScanActive.toNat

theorem Beside.accounts {a : LoopStep} (h : Beside s s') (hasks : s.endedScans a = [])
    (htakes : s.takenEnds a = []) : Accounts s a s' := by
  refine ⟨fun rebuild => ?_, ?_⟩
  · rw [hasks, htakes]
    exact h.scans rebuild
  · rw [hasks, h.primary]
    exact le_refl _

/-- A publication that ended is taken. -/
theorem accounts_finished (ht : s.app.scanStore.threaded = true)
    (h : s.finishNextPublication env w = some s') : Accounts s (.finishedPublication w) s' := by
  unfold finishNextPublication App.takeFinishedPublication at h
  cases hfinished : s.app.map.finishedPublications with
  | nil =>
    rw [hfinished] at h
    cases h
    refine (Beside.refl s).accounts rfl ?_
    unfold takenEnds
    rw [hfinished]
    rfl
  | cons publication rest =>
    rw [hfinished] at h
    -- the rest of the step begins without the publication taken
    have hbeside : Beside { s with app := { s.app with
        map := { s.app.map with finishedPublications := rest } } } s' := by
      cases publication with
      | Primary =>
        change completePrimaryScan env w { s with app := { s.app with
          map := { s.app.map with finishedPublications := rest } } } = some s' at h
        unfold completePrimaryScan at h
        dsimp only at h
        split at h
        · unfold App.startUi at h
          have hmoves : Moves .apart ({ s.app.map with finishedPublications := rest, loaded := true },
              s.app.scanStore) _ := App.moves_startNextRemovalOverlay env w (a := { s.app with
                map := { s.app.map with finishedPublications := rest, loaded := true } }) ht
          have hafter := beside_startPending (s := { s with primaryReduction := false, app := _ })
            (Moves.threaded hmoves ht) h
          have hloaded : Keeps ({ s.app.map with finishedPublications := rest }, s.app.scanStore)
              ({ s.app.map with finishedPublications := rest, loaded := true }, s.app.scanStore) :=
            .of_same rfl rfl rfl rfl
          exact ⟨(hloaded.trans (keeps_of_moves hmoves)).trans hafter.toKeeps, hafter.primary⟩
        · cases h
      | Rebuild failure => exact beside_completeRebuild ht h
      | RebuildCancelled => exact beside_completeRebuild ht h
    refine ⟨fun rebuild => ?_, le_of_eq (congrArg Bool.toNat hbeside.primary)⟩
    rw [show s'.app.map.scanEnds rebuild = _ from hbeside.scans rebuild]
    unfold MapState.scanEnds takenEnds
    dsimp only
    rw [hfinished, List.countP_cons, List.take_succ_cons, List.take_zero, List.countP_singleton,
      Nat.add_assoc]
    rfl

/-- A scan that is over asks for its publication, unless it was cancelled. -/
theorem accounts_scanned {cancelled : Bool} (hs : s.Steady) (hscanning : s.scanning = true)
    (h : s.scanFinished env w cancelled = some s') : Accounts s (.scanFinished cancelled w) s' := by
  have ht := hs.threaded
  have hends : s.endedScans (.scanFinished false w) = [s.rebuildActive] := by
    unfold endedScans
    dsimp only
    rw [if_pos hscanning]
  -- what a scan asks for that was not cancelled
  have hasked {m : MapState} {rebuild : Bool} (hactive : s.rebuildActive = rebuild)
      (hasks : App.AsksEnd rebuild s.app.map m) (kind : Bool) : m.scanEnds kind =
        s.app.map.scanEnds kind + (s.endedScans (.scanFinished false w)).count kind := by
    rw [hasks kind, hends, hactive, List.count_singleton]
    simp only [beq_iff_eq]
  unfold scanFinished at h
  rw [if_pos hscanning] at h
  dsimp only at h
  cases hrebuild : s.rebuildActive with
  | true =>
    rw [if_pos hrebuild] at h
    unfold finishGenerationRebuild at h
    cases cancelled with
    | true =>
      have hbeside := beside_completeRebuild (s := { s with scanning := false }) ht h
      exact ⟨hbeside.scans, le_of_eq (congrArg Bool.toNat hbeside.primary)⟩
    | false =>
      cases h
      refine ⟨hasked hrebuild (App.asks_beginRebuild env ht), ?_⟩
      rw [hends, hrebuild]
      exact le_refl _
  | false =>
    rw [if_neg (Bool.eq_false_iff.mp hrebuild)] at h
    unfold finishPrimaryScan at h
    have hprimary : s.primaryScanActive = true := by
      refine (hs.scanned hscanning).resolve_right ?_
      rw [hrebuild]
      exact Bool.false_ne_true
    cases cancelled with
    | true =>
      obtain ⟨app, happ, hmore⟩ := Option.bind_eq_some_iff.mp h
      unfold App.cancelPrimaryScan at happ
      split at happ
      · cases happ
      · rename_i store hstore
        cases happ
        obtain ⟨-, notes, -, hq⟩ := StoreHandle.queues_cancelActive ht hstore
        have hcancelled : Keeps s.app.book ({ s.app.map with removals := .empty }, store) :=
          .of_queues hq rfl rfl
        have hafter := beside_startPending
          (s := { s with scanning := false, primaryScanActive := false, app := { s.app with
            scanStore := store, map := { s.app.map with removals := .empty } } }) hq.threaded hmore
        refine ⟨(hcancelled.trans hafter.toKeeps).scans, ?_⟩
        rw [hafter.primary]
        exact Nat.zero_le _
    | false =>
      cases h
      refine ⟨hasked hrebuild (App.asks_beginPrimary env w ht), ?_⟩
      rw [hends, hrebuild, hprimary]
      exact le_refl _

theorem accounts_scanFinished {cancelled : Bool} (hs : s.Steady)
    (h : s.scanFinished env w cancelled = some s') : Accounts s (.scanFinished cancelled w) s' := by
  cases hscanning : s.scanning with
  | true => exact accounts_scanned hs hscanning h
  | false =>
    unfold scanFinished at h
    rw [hscanning, if_neg Bool.false_ne_true] at h
    cases h
    refine (Beside.refl s).accounts ?_ rfl
    cases cancelled with
    | true => rfl
    | false =>
      unfold endedScans
      dsimp only
      rw [hscanning, if_neg Bool.false_ne_true]

/-- What every step taken does to the publications of scans. -/
theorem accounts_step {a : LoopStep} (hs : s.Steady) (h : s.step? env a = some s') :
    Accounts s a s' := by
  have ht := hs.threaded
  have hbeside (htakes : a.takes = false) (hfinishes : a.finishes = false) : Beside s s' :=
    beside_turns (turns_step hs h) (Bool.eq_false_iff.mp htakes) (Bool.eq_false_iff.mp hfinishes)
  cases a with
  | storeEvent w =>
    cases h
    exact ⟨(App.keeps_processNextEvent env w ht).scans, le_refl _⟩
  | finishedPublication w => exact accounts_finished ht h
  | scanFinished cancelled w => exact accounts_scanFinished hs h
  | threadStep io =>
    cases h
    rcases threadStep_cases ht io with heq | ⟨c, commands, -, -, heq⟩
    · rw [heq]
      exact (Beside.refl s).accounts rfl rfl
    · rw [heq]
      exact ⟨fun _ => rfl, le_refl _⟩
  | threadStop =>
    cases h
    rw [threadStop_eq ht]
    exact ⟨fun _ => rfl, le_refl _⟩
  | _ => exact (hbeside rfl rfl).accounts rfl rfl

/-- What is noted of a step, unless it ends the program. -/
def noted {β : Type} (env : OwnerEnv) (note : OwnerLoop → LoopStep → List β) (s : OwnerLoop)
    (a : LoopStep) : List β :=
  if (s.step? env a).isSome then note s a else []

theorem accounts_machine (env : OwnerEnv) (hs : s.Steady) (a : LoopStep) :
    (((machine env).step s a).1 = s ∧
      ∀ β (note : OwnerLoop → LoopStep → List β), noted env note s a = []) ∨
    (Accounts s a ((machine env).step s a).1 ∧
      ∀ β (note : OwnerLoop → LoopStep → List β), noted env note s a = note s a) := by
  rw [machine_step]
  unfold noted
  cases h : s.step? env a with
  | none => exact Or.inl ⟨rfl, fun _ _ => rfl⟩
  | some s' => exact Or.inr ⟨accounts_step hs h, fun _ _ => rfl⟩

/-- Of the publications of scans that ended, the loop has finished its part of some and is still to
finish that of the others; the first scan ends once. -/
theorem scans_counted (env : OwnerEnv) (hs : s.Steady) (steps : List LoopStep) :
    (∀ rebuild, ((machine env).run s steps).app.map.scanEnds rebuild +
        ((machine env).gather (noted env takenEnds) s steps).countP
          (fun f => f.ofRebuild == rebuild) =
      s.app.map.scanEnds rebuild +
        ((machine env).gather (noted env endedScans) s steps).count rebuild) ∧
    ((machine env).run s steps).primaryScanActive.toNat +
      ((machine env).gather (noted env endedScans) s steps).count false ≤
        s.primaryScanActive.toNat := by
  induction steps generalizing s with
  | nil => exact ⟨fun _ => rfl, le_refl _⟩
  | cons a steps ih =>
    obtain ⟨hscans, hprimary⟩ := ih (run_turns env hs trivial (fun _ _ _ _ _ _ => trivial) [a]).1
    rw [Machine.run_cons, Machine.run_nil] at hscans hprimary
    rw [Machine.gather_cons, Machine.gather_cons, Machine.run_cons]
    rcases accounts_machine env hs a with ⟨hsame, hnoted⟩ | ⟨haccounts, hnoted⟩
    · rw [hsame] at hscans hprimary ⊢
      rw [hnoted, hnoted, List.nil_append, List.nil_append]
      exact ⟨hscans, hprimary⟩
    · rw [hnoted, hnoted]
      refine ⟨fun rebuild => ?_, ?_⟩
      · have hkept := haccounts.scans rebuild
        have hafter := hscans rebuild
        rw [List.countP_append, List.count_append]
        omega
      · have hkept := haccounts.primary
        rw [List.count_append]
        omega

end OwnerLoop

end Excise
