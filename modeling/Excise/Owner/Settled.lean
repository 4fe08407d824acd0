import Excise.Owner.Endings
import Excise.Owner.Requests

/-!
# How publications are settled

A run notes the thread's answer to each request it applies, and each publication the owner settles
with what it settles it with. The two notes run in one order: of what was asked, the first were
settled, each with the answer to it; the rest are outstanding, or failed with the thread.
-/

namespace Excise
set_option autoImplicit false

/-- A publication the owner settled, and with what. -/
structure Settlement where
  pending : PendingPublication
  result : Except StoreFailure Publication

/-- The publication was asked for with the request, and settled with the thread's answer to it. -/
def Settlement.Of (settled : Settlement) (answered : StoreRequest × StoreResult) : Prop :=
  settled.pending.Asks answered.1 ∧ answered.1.AnsweredBy answered.2 ∧
    answered.2.answer?.map App.resultText = some settled.result

namespace App
variable (env : OwnerEnv) (w : CallWorld)

/-- What `settle_publication` is called with when the oldest publication ended. -/
def settlesNext (result : Except StoreFailure Publication) (a : App) : List Settlement :=
  match a.map.publications with
  | [] => []
  | pending :: _ => [⟨pending, result⟩]

def settlesAll (failure : StoreFailure) : Nat → App → List Settlement
  | 0, _ => []
  | count + 1, a => a.settlesNext (.error failure) ++
      settlesAll failure count (a.applyPublicationResult env w (.error failure))

/-- And when an event is processed. -/
def settlesOn (event : StoreEvent) (a : App) : List Settlement :=
  match event with
  | .AdmissionFailed _ | .ProvisionalPage _ _ => []
  | .Published result | .Overlaid result => a.settlesNext (resultText result)
  | .Failure failure =>
    (a.failScanStore env (.store failure)).settlesAll env w failure
      (a.failScanStore env (.store failure)).map.publications.length

def settles (a : App) : List Settlement :=
  let polled := a.scanStore.poll env.engine
  match polled.2 with
  | none => []
  | some event => { a with scanStore := polled.1 }.settlesOn env w event

/-- Every publication of a store that is lost is settled as failed. -/
theorem settlesAll_eq (failure : StoreFailure) (count : Nat) : ∀ a : App,
    a.map.scanStoreAvailable = false → a.map.publications.length = count →
    a.settlesAll env w failure count =
      a.map.publications.map fun pending => ⟨pending, .error failure⟩ := by
  induction count with
  | zero =>
    intro a _ hcount
    rw [List.eq_nil_of_length_eq_zero hcount]
    rfl
  | succ count ih =>
    intro a hlost hcount
    obtain ⟨pending, rest, hpubs⟩ := List.exists_cons_of_length_eq_add_one hcount
    obtain ⟨-, hrest, hloses⟩ := lost_applyPublicationResult env w failure hpubs hlost
    rw [hpubs] at hcount
    unfold settlesAll settlesNext
    rw [ih _ hloses.available (by rw [hrest]; exact Nat.succ.inj hcount), hpubs, hrest]
    rfl

theorem settlesOn_failure (a : App) (failure : StoreFailure) : a.settlesOn env w (.Failure failure) =
    a.map.publications.map fun pending => ⟨pending, .error failure⟩ := by
  have hsame : (a.failScanStore env (.store failure)).map.publications = a.map.publications := by
    unfold failScanStore
    split
    · unfold abandonScanStoreGenerationWithFailure abandonScanStoreGeneration discardActive
      dsimp only
      split <;> rfl
    · rfl
  unfold settlesOn
  dsimp only
  rw [settlesAll_eq env w failure _ _ (failed_failScanStore env) rfl, hsame]

end App

namespace OwnerLoop

/-- The publications a step settles. -/
def settles (env : OwnerEnv) (s : OwnerLoop) : LoopStep → List Settlement
  | .storeEvent w => s.app.settles env w
  | _ => []

/-- The requests a step of the thread applies, each with the answer the thread queues for it. -/
def answers (first : ScanGeneration) (s : OwnerLoop) : LoopStep → List (StoreRequest × StoreResult)
  | .threadStep io =>
    ((requests first (s.threadStep io).applied).drop (requests first s.applied).length).zip
      (((s.threadStep io).app.scanStore.told.drop s.app.scanStore.told.length).filter
        StoreResult.isAnswer)
  | _ => []

end OwnerLoop

/-! ## What the owner sends -/

/-- The queue of a thread that is gone grows by no request. -/
structure Appends (h h' : StoreHandle) : Prop where
  gone : h'.gone = h.gone
  queued : ∃ commands, h'.queued = h.queued ++ commands ∧
    (h.gone = true → ∀ c ∈ commands, c.isRequest = false)

section
variable {kind : StepKind} {x y : MapState × StoreHandle} {h h' h'' : StoreHandle}

theorem Appends.refl (h : StoreHandle) : Appends h h :=
  ⟨rfl, [], (List.append_nil _).symm, fun _ _ hc => absurd hc List.not_mem_nil⟩

theorem Appends.trans (hto : Appends h h') (hon : Appends h' h'') : Appends h h'' := by
  obtain ⟨cs, hcs, hquiet⟩ := hto.queued
  obtain ⟨ds, hds, hquiet'⟩ := hon.queued
  refine ⟨hon.gone.trans hto.gone, cs ++ ds, ?_, fun hgone c hc => ?_⟩
  · rw [hds, hcs, List.append_assoc]
  · rcases List.mem_append.mp hc with hc | hc
    · exact hquiet hgone c hc
    · exact hquiet' (hto.gone.trans hgone) c hc

theorem Appends.of_queues {commands : List StoreCommand} (hq : StoreHandle.Queues h h' commands)
    (hquiet : h.gone = true → ∀ c ∈ commands, c.isRequest = false) : Appends h h' :=
  ⟨hq.gone, commands, hq.queued, hquiet⟩

theorem Appends.of_open {commands : List StoreCommand} (hq : StoreHandle.Queues h h' commands)
    (hopen : h.gone = false) : Appends h h' :=
  .of_queues hq fun hgone => absurd (hopen.symm.trans hgone) Bool.false_ne_true

theorem Appends.of_takes {result : StoreResult} (htakes : StoreHandle.Takes h h' result) : Appends h h' :=
  ⟨htakes.gone, [], htakes.queued.trans (List.append_nil _).symm,
    fun _ _ hc => absurd hc List.not_mem_nil⟩

theorem Appends.requests {first : ScanGeneration} (happends : Appends h h') (hgone : h.gone = true) :
    requests first h'.queued = requests first h.queued := by
  obtain ⟨commands, hq, hquiet⟩ := happends.queued
  rw [hq, requests_append, requests_quiet (hquiet hgone), List.append_nil]

theorem Move.appends (hmove : Move kind x y) : Appends x.2 y.2 := by
  cases hmove with
  | owes same owes aside => exact .refl _
  | loses same loses aside => exact .refl _
  | invalidates same invalidates => exact .refl _
  | adds available installed held added => exact .refl _
  | sends queues quiet => exact .of_queues queues fun _ c hc => (isRequest_quiet (quiet c hc)).1
  | asksOverlay idle installed next base oldest open_ neutral queues noted asked =>
    subst noted
    have happends := Appends.of_open queues open_
    exact ⟨happends.gone, happends.queued⟩
  | takes polls takes notice => exact .of_takes takes
  | stray polls takes answer idle => exact .of_takes takes
  | ends polls takes answer oldest ends => exact .of_takes takes
  | installs polls takes answer oldest available same =>
    have happends := Appends.of_takes takes
    exact ⟨happends.gone, happends.queued⟩
  | fails polls takes idle none_ loses => exact .of_takes takes
  | @stops m m' h polls told gone none_ loses => exact ⟨rfl, (Appends.refl h).queued⟩

theorem Moves.appends (hmoves : Moves kind x y) : Appends x.2 y.2 := by
  induction hmoves with
  | refl => exact .refl x.2
  | tail _ hmove ih => exact ih.trans hmove.appends

/-- Nothing the thread told is taken. -/
structure Unheard (h h' : StoreHandle) : Prop extends Appends h h' where
  told : h'.told = h.told
  reported : h'.unavailableReported = h.unavailableReported

theorem Unheard.refl (h : StoreHandle) : Unheard h h := ⟨.refl h, rfl, rfl⟩

theorem Unheard.trans (hto : Unheard h h') (hon : Unheard h' h'') : Unheard h h'' :=
  ⟨hto.toAppends.trans hon.toAppends, hon.told.trans hto.told, hon.reported.trans hto.reported⟩

theorem Unheard.of_open {commands : List StoreCommand} (hq : StoreHandle.Queues h h' commands)
    (hopen : h.gone = false) : Unheard h h' := ⟨.of_open hq hopen, hq.told, hq.same.reported⟩

theorem Unheard.noted (hto : Unheard h h') (generation : ScanGeneration) :
    Unheard h (h'.noteGeneration generation) := ⟨⟨hto.gone, hto.queued⟩, hto.told, hto.reported⟩

theorem Move.unheard (hmove : Move kind x y) (htakes : ¬kind.takes) : Unheard x.2 y.2 := by
  have happends := hmove.appends
  cases hmove with
  | owes same owes aside => exact .refl _
  | loses same loses aside => exact .refl _
  | invalidates same invalidates => exact .refl _
  | adds available installed held added => exact .refl _
  | sends queues quiet => exact ⟨happends, queues.told, queues.same.reported⟩
  | asksOverlay idle installed next base oldest open_ neutral queues noted asked =>
    subst noted
    exact (Unheard.of_open queues open_).noted _
  | takes polls takes notice => exact absurd polls htakes
  | stray polls takes answer idle => exact absurd polls htakes
  | ends polls takes answer oldest ends => exact absurd polls htakes
  | installs polls takes answer oldest available same => exact absurd polls htakes
  | fails polls takes idle none_ loses => exact absurd polls htakes
  | stops polls told gone none_ loses => exact absurd polls htakes

theorem Moves.unheard (hmoves : Moves kind x y) (htakes : ¬kind.takes) : Unheard x.2 y.2 := by
  induction hmoves with
  | refl => exact .refl x.2
  | tail _ hmove ih => exact ih.trans (hmove.unheard htakes)

end

namespace OwnerLoop
variable {env : OwnerEnv} {session : ScanSessionId} {first : ScanGeneration} {kind : StepKind}
  {s s' : OwnerLoop}

theorem unheard_turn (h : LoopTurn kind s s') (htakes : ¬kind.takes) :
    Unheard s.app.scanStore s'.app.scanStore ∧ s'.applied = s.applied := by
  have hsends {m : MapState} {h : StoreHandle}
      (hbook : s'.app.book = (m, h)) (hu : Unheard s.app.scanStore h) :
      Unheard s.app.scanStore s'.app.scanStore := by
    rw [(book_inj hbook).2]
    exact hu
  cases h with
  | calls moves => exact ⟨Moves.unheard moves htakes, rfl⟩
  | removes moves => exact ⟨Moves.unheard moves.moves htakes, rfl⟩
  | begins primary rebuild required idle finished chain newest open_ neutral queues book =>
    exact ⟨hsends book ((Unheard.of_open queues open_).noted _), rfl⟩
  | scanned primary reduction asks active reducing => exact ⟨.refl _, rfl⟩
  | cancelsPrimary asks primary open_ neutral queues book =>
    exact ⟨hsends book (.of_open queues open_), rfl⟩
  | publishes asks primary asked open_ neutral queues book =>
    exact ⟨hsends book (.of_open queues open_), rfl⟩
  | ends asks rebuild still without book => exact ⟨hsends book (.refl _), rfl⟩
  | finishes asks known oldest moves lost => exact ⟨Moves.unheard moves htakes, rfl⟩
  | cancels asks active still later open_ neutral queues book =>
    exact ⟨hsends book (.of_open queues open_), rfl⟩
  | reduced asks => exact ⟨.refl _, rfl⟩
  | idles asks active => exact ⟨.refl _, rfl⟩
  | thread io runs => exact absurd runs htakes
  | threadEnds runs => exact absurd runs htakes

theorem unheard_turns (h : LoopTurns kind s s') (htakes : ¬kind.takes) :
    Unheard s.app.scanStore s'.app.scanStore ∧ s'.applied = s.applied := by
  induction h with
  | refl => exact ⟨.refl _, rfl⟩
  | tail _ hturn ih =>
    obtain ⟨hunheard, happlied⟩ := unheard_turn hturn htakes
    exact ⟨ih.1.trans hunheard, happlied.trans ih.2⟩

/-- What a run has noted agrees with where it stands: every request applied was answered, the answers
not taken are the last, and those taken settled the publications they were asked for. -/
structure Settling (first : ScanGeneration) (log : List (StoreRequest × StoreResult))
    (settled : List Settlement) (s : OwnerLoop) : Prop where
  logged : log.map Prod.fst = requests first s.applied
  there : s.app.scanStore.unavailableReported = false → ∃ taken waiting, log = taken ++ waiting ∧
    List.Forall₂ Settlement.Of settled taken ∧ waiting.map Prod.snd = s.app.scanStore.answers
  gone : s.app.scanStore.unavailableReported = true → ∃ answered lost, settled = answered ++ lost ∧
    List.Forall₂ Settlement.Of answered log ∧ (∀ x ∈ lost, x.result = .error .stopped) ∧
    List.Forall₂ PendingPublication.Asks (lost.map Settlement.pending)
      (requests (lastScanned first s.applied) s.app.scanStore.queued)

namespace Settling
variable {log : List (StoreRequest × StoreResult)} {settled : List Settlement}

theorem start {page : SnapshotTree} : Settling first [] [] (start session first page) where
  logged := rfl
  there := fun _ => ⟨[], [], rfl, .nil, rfl⟩
  gone := fun hno => (by cases hno)

theorem unheard (hl : Settling first log settled s)
    (ho : s.Owing first) (hu : Unheard s.app.scanStore s'.app.scanStore)
    (happlied : s'.applied = s.applied) : Settling first log settled s' := by
  refine ⟨by rw [happlied]; exact hl.logged, fun hreported => ?_, fun hreported => ?_⟩
  · rw [hu.reported] at hreported
    unfold StoreHandle.answers
    rw [hu.told]
    exact hl.there hreported
  · rw [hu.reported] at hreported
    rw [happlied, hu.toAppends.requests (ho.reported hreported).1]
    exact hl.gone hreported

variable {h : StoreHandle} {result : StoreResult}

theorem takesNotice (hl : Settling first log settled s) (ho : s.Owing first)
    (htakes : StoreHandle.Takes s.app.scanStore h result) (hnotice : result.isAnswer = false)
    (htold : s'.app.scanStore.told = h.told)
    (hreported : s'.app.scanStore.unavailableReported = h.unavailableReported)
    (happlied : s'.applied = s.applied) : Settling first log settled s' := by
  have hthere := ho.taking htakes
  refine ⟨by rw [happlied]; exact hl.logged, fun _ => ?_, fun hno => ?_⟩
  · have hanswers : s'.app.scanStore.answers = s.app.scanStore.answers := by
      unfold StoreHandle.answers
      rw [htold, htakes.told, List.filter_cons_of_neg (Bool.eq_false_iff.mp hnotice)]
    rw [hanswers]
    exact hl.there hthere
  · rw [hreported, htakes.reported, hthere] at hno
    cases hno

/-- The oldest answer settles the oldest publication, which was asked for with the request that the
thread answered so. -/
theorem takesAnswer (hl : Settling first log settled s) (ho : s.Owing first)
    (htakes : StoreHandle.Takes s.app.scanStore h result)
    {answer : Except ScanStoreError Publication} (hanswer : result.answer? = some answer)
    (htold : s'.app.scanStore.told = h.told)
    (hreported : s'.app.scanStore.unavailableReported = h.unavailableReported)
    (happlied : s'.applied = s.applied) :
    Settling first log (settled ++ s.app.settlesNext (App.resultText answer)) s' := by
  have hthere := ho.taking htakes
  have his : result.isAnswer = true := by
    unfold StoreResult.isAnswer
    rw [hanswer]
    rfl
  obtain ⟨pending, rest, answered, q, later, hpubs, hasks, hanswered, hrequests, hlater, -⟩ :=
    ho.oldest htakes his
  obtain ⟨taken, waiting, rfl, htaken, hwaiting⟩ := hl.there hthere
  have hhead : s.app.scanStore.answers = result :: h.answers := by
    unfold StoreHandle.answers
    rw [htakes.told, List.filter_cons_of_pos his]
  rw [hhead] at hwaiting
  obtain ⟨⟨q', r⟩, waiting', rfl, hr, hrest⟩ := List.map_eq_cons_iff.mp hwaiting
  obtain rfl : r = result := hr
  -- as many requests follow it in the log as answers follow its own
  have hsame : q' = q := by
    have hlog := hl.logged
    rw [hrequests, List.map_append, List.map_cons] at hlog
    have hlength : ((q', r).1 :: waiting'.map Prod.fst).length = (q :: later).length := by
      rw [List.length_cons, List.length_cons, List.length_map, hlater.length_eq, ← hrest,
        List.length_map]
    exact (List.cons.inj (List.append_inj_right' hlog hlength)).1
  subst hsame
  refine ⟨by rw [happlied]; exact hl.logged, fun _ => ?_, fun hno => ?_⟩
  · refine ⟨taken ++ [(q', r)], waiting', ?_, List.rel_append htaken ?_, ?_⟩
    · rw [List.append_assoc]
      rfl
    · unfold App.settlesNext
      rw [hpubs]
      refine .cons ⟨hasks, hanswered, ?_⟩ .nil
      rw [hanswer]
      rfl
    · unfold StoreHandle.answers at hrest ⊢
      rw [hrest, htold]
  · rw [hreported, htakes.reported, hthere] at hno
    cases hno

/-- The end of the thread is reported: what is outstanding is settled as failed. -/
theorem stops (hl : Settling first log settled s) (ho : s.Owing first)
    (htold : s.app.scanStore.told = []) (hgone : s.app.scanStore.gone = true)
    (happends : Appends s.app.scanStore s'.app.scanStore)
    (hreported : s'.app.scanStore.unavailableReported = true) (happlied : s'.applied = s.applied) :
    Settling first log
      (settled ++ s.app.map.publications.map fun pending => ⟨pending, .error .stopped⟩) s' := by
  refine ⟨by rw [happlied]; exact hl.logged, fun hno => ?_, fun _ => ?_⟩
  · rw [hreported] at hno
    cases hno
  · rw [happlied, happends.requests hgone]
    cases hbefore : s.app.scanStore.unavailableReported with
    | true =>
      rw [(ho.reported hbefore).2.2, List.map_nil, List.append_nil]
      exact hl.gone hbefore
    | false =>
      have hnone : s.app.scanStore.answers = [] := by
        unfold StoreHandle.answers
        rw [htold]
        rfl
      obtain ⟨taken, waiting, rfl, htaken, hwaiting⟩ := hl.there hbefore
      rw [hnone] at hwaiting
      rw [List.map_eq_nil_iff.mp hwaiting, List.append_nil]
      obtain ⟨answered, unanswered, -, hanswers, hasks⟩ := ho.matched hbefore
      rw [hnone] at hanswers
      rw [List.forall₂_nil_right_iff.mp hanswers, List.nil_append] at hasks
      refine ⟨settled, _, rfl, htaken, fun x hx => ?_, ?_⟩
      · obtain ⟨pending, -, rfl⟩ := List.mem_map.mp hx
        rfl
      · rw [List.map_map]
        exact (List.map_id s.app.map.publications).symm ▸ hasks

/-- What the owner makes of one poll. -/
theorem polls (w : CallWorld) (hl : Settling first log settled s) (hcalm : s.app.Calm)
    (hs : s.Steady) (ho : s.Owing first) :
    Settling first log (settled ++ s.app.settles env w)
      { s with app := s.app.processNextEvent env w } := by
  have hkeeps := App.keeps_processNextEvent env w hs.threaded
  have hmoves : Moves ⟨True, True, True, True⟩ s.app.book (s.app.processNextEvent env w).book :=
    App.moves_processNextEvent env w (fun _ => hcalm) trivial trivial hs.threaded
  have happends : Appends s.app.scanStore (s.app.processNextEvent env w).scanStore := hmoves.appends
  clear hmoves
  have hpolls := StoreHandle.polls_poll env.engine hs.threaded
  obtain ⟨htold, hreported, -⟩ := hkeeps
  unfold App.settles
  dsimp only
  generalize s.app.processNextEvent env w = app at *
  generalize s.app.scanStore.poll env.engine = polled at *
  cases hpolls with
  | idle =>
    rw [List.append_nil]
    exact hl.unheard ho ⟨happends, htold, hreported⟩ rfl
  | stopped hnone hgone =>
    dsimp only
    rw [App.settlesOn_failure]
    exact hl.stops ho hnone hgone happends hreported rfl
  | admissionFailed takes =>
    change Settling _ _ (settled ++ []) _
    rw [List.append_nil]
    exact hl.takesNotice ho takes rfl htold hreported rfl
  | page takes next =>
    obtain ⟨commands, hq, -⟩ := next
    change Settling _ _ (settled ++ []) _
    rw [List.append_nil]
    exact hl.takesNotice ho takes rfl (htold.trans hq.told) (hreported.trans hq.same.reported) rfl
  | published takes => exact hl.takesAnswer ho takes rfl htold hreported rfl
  | overlaid takes => exact hl.takesAnswer ho takes rfl htold hreported rfl
  | failure takes =>
    have hidle : s.app.map.publications = [] := hcalm _ (by rw [takes.told]; rfl)
    dsimp only
    rw [App.settlesOn_failure]
    change Settling _ _ (settled ++ s.app.map.publications.map _) _
    rw [hidle, List.map_nil, List.append_nil]
    exact hl.takesNotice ho takes rfl htold hreported rfl

/-- The thread answers the request it applies, if it is one. -/
theorem applies (hl : Settling first log settled s) (hs : s.Steady) (hn : s.Numbers session first)
    (ho : s.Owing first) (io : EngineIo) :
    Settling first (log ++ s.answers first (.threadStep io)) settled (s.threadStep io) := by
  unfold answers
  dsimp only
  rcases threadStep_cases hs.threaded io with heq | ⟨c, commands, hqueued, hgone, heq⟩
  · rw [heq, List.drop_length, List.zip_nil_left, List.append_nil]
    exact hl
  · obtain ⟨-, heffect, -⟩ := StoreEngine.apply_spec io s.engine c hn.ready
      fun g hg k hk => hn.begins_past hqueued hg k (hn.known k hk)
    have hanswered := effect_answers heffect hn.scanning
    have hasked : (requests first (s.threadStep io).applied).drop (requests first s.applied).length =
        requests (lastScanned first s.applied) [c] := by
      rw [heq, requests_append, List.drop_left]
    have htold : ((s.threadStep io).app.scanStore.told.drop s.app.scanStore.told.length).filter
        StoreResult.isAnswer = (s.engine.apply io c).2.toList.filter StoreResult.isAnswer := by
      rw [heq]
      change ((s.app.scanStore.told ++ _).drop _).filter _ = _
      rw [List.drop_left]
    have hanswers : (s.threadStep io).app.scanStore.answers = s.app.scanStore.answers ++
        (s.engine.apply io c).2.toList.filter StoreResult.isAnswer := by
      rw [heq]
      exact List.filter_append _ _
    have hthere := ho.unreported hgone
    have hreported : (s.threadStep io).app.scanStore.unavailableReported = false := by
      rw [heq]
      exact hthere
    rw [hasked, htold]
    refine ⟨?_, fun _ => ?_, fun hno => ?_⟩
    · rw [List.map_append, hl.logged, List.map_fst_zip (le_of_eq hanswered.length_eq), heq,
        requests_append]
    · obtain ⟨taken, waiting, rfl, htaken, hwaiting⟩ := hl.there hthere
      refine ⟨taken, _, List.append_assoc _ _ _, htaken, ?_⟩
      rw [List.map_append, hwaiting, List.map_snd_zip (le_of_eq hanswered.length_eq.symm), hanswers]
    · rw [hreported] at hno
      cases hno

theorem threadStops (hl : Settling first log settled s) (hs : s.Steady) :
    Settling first log settled s.threadStop := by
  rw [threadStop_eq hs.threaded]
  exact ⟨hl.logged, hl.there, hl.gone⟩

end Settling

/-! ## Runs -/

theorem settling_step {log : List (StoreRequest × StoreResult)} {settled : List Settlement}
    (a : LoopStep) (hcalm : s.app.Calm) (hs : s.Steady) (hn : s.Numbers session first)
    (ho : s.Owing first) (hl : Settling first log settled s) :
    Settling first (log ++ s.answers first a) (settled ++ s.settles env a)
      ((machine env).step s a).1 := by
  rw [machine_step]
  have hquiet (hanswers : s.answers first a = []) (hsettles : s.settles env a = [])
      (htakes : a.takes = false) : Settling first (log ++ s.answers first a)
        (settled ++ s.settles env a) ((s.step? env a).getD s) := by
    rw [hanswers, hsettles, List.append_nil, List.append_nil]
    cases h : s.step? env a with
    | none => exact hl
    | some s' =>
      obtain ⟨hunheard, happlied⟩ := unheard_turns (turns_step hs h) (Bool.eq_false_iff.mp htakes)
      exact hl.unheard ho hunheard happlied
  cases a with
  | storeEvent w =>
    change Settling first (log ++ []) _ _
    rw [List.append_nil]
    exact hl.polls w hcalm hs ho
  | threadStep io =>
    change Settling first _ (settled ++ []) _
    rw [List.append_nil]
    exact hl.applies hs hn ho io
  | threadStop =>
    change Settling first (log ++ []) (settled ++ []) _
    rw [List.append_nil, List.append_nil]
    exact hl.threadStops hs
  | _ => exact hquiet rfl rfl rfl

theorem settling_run {page : SnapshotTree} {steps : List LoopStep}
    (h : CalmRun env (start session first page) steps) :
    Settling first ((machine env).gather (answers first) (start session first page) steps)
      ((machine env).gather (settles env) (start session first page) steps)
      ((machine env).run (start session first page) steps) := by
  refine (machine env).calls_induction_along (P := fun steps => Settling first
    ((machine env).gather (answers first) (start session first page) steps)
    ((machine env).gather (settles env) (start session first page) steps)
    ((machine env).run (start session first page) steps)) .start ?_ h
  intro steps a hbefore hl hcalm
  obtain ⟨hs, hn, ho⟩ := owing_run hbefore
  rw [Machine.gather_append, Machine.gather_append, Machine.gather_singleton,
    Machine.gather_singleton, Machine.run_append, Machine.run_cons, Machine.run_nil]
  exact settling_step a hcalm hs hn ho hl

/-- Every request of the owner is settled once or outstanding, in the order of the requests: with the
thread's answer to that request, or as failed with the thread. -/
structure Settled (first : ScanGeneration) (log : List (StoreRequest × StoreResult))
    (settled : List Settlement) (s : OwnerLoop) : Prop where
  asked : log.map Prod.fst ++ requests (lastScanned first s.applied) s.app.scanStore.queued =
    requests first s.sent
  once : List.Forall₂ PendingPublication.Asks
    (settled.map Settlement.pending ++ s.app.map.publications) (requests first s.sent)
  own : ∃ answered lost, settled = answered ++ lost ∧
    List.Forall₂ Settlement.Of answered (log.take answered.length) ∧
    ∀ x ∈ lost, x.result = .error .stopped ∧ s.app.scanStore.gone = true ∧
      answered.length = log.length
  drained : s.app.scanStore.answers = [] →
    requests (lastScanned first s.applied) s.app.scanStore.queued = [] → s.app.map.publications = []
  ended : s.app.scanStore.unavailableReported = true → s.app.map.publications = []

theorem Settling.asks {log : List (StoreRequest × StoreResult)} {settled : List Settlement}
    (h : List.Forall₂ Settlement.Of settled log) :
    List.Forall₂ PendingPublication.Asks (settled.map Settlement.pending) (log.map Prod.fst) :=
  List.forall₂_map_left_iff.mpr (List.forall₂_map_right_iff.mpr (h.imp fun _ _ hof => hof.1))

theorem Settling.settled {log : List (StoreRequest × StoreResult)} {settled : List Settlement}
    (hl : Settling first log settled s) (ho : s.Owing first) : Settled first log settled s := by
  have hasked : log.map Prod.fst ++ requests (lastScanned first s.applied) s.app.scanStore.queued =
      requests first s.sent := by
    rw [hl.logged, sent, requests_append]
  cases hreported : s.app.scanStore.unavailableReported with
  | true =>
    obtain ⟨hgone, -, hnone⟩ := ho.reported hreported
    obtain ⟨answered, lost, rfl, hanswered, hstopped, hlost⟩ := hl.gone hreported
    have hall := hanswered.length_eq
    refine ⟨hasked, ?_, ⟨answered, lost, rfl, ?_, fun x hx => ⟨hstopped x hx, hgone, hall⟩⟩,
      fun _ _ => hnone, fun _ => hnone⟩
    · rw [hnone, List.append_nil, List.map_append, ← hasked]
      exact List.rel_append (Settling.asks hanswered) hlost
    · rw [hall, List.take_length]
      exact hanswered
  | false =>
    obtain ⟨taken, waiting, rfl, htaken, hwaiting⟩ := hl.there hreported
    obtain ⟨answered, unanswered, hrequests, hanswers, hasks⟩ := ho.matched hreported
    -- what waits in the log is what the thread answered and the owner has not taken
    have hsame : waiting.map Prod.fst = unanswered := by
      have hlog := hl.logged
      rw [hrequests, List.map_append] at hlog
      refine List.append_inj_right' hlog ?_
      rw [List.length_map, hanswers.length_eq, ← hwaiting, List.length_map]
    refine ⟨hasked, ?_, ⟨settled, [], (List.append_nil settled).symm, ?_, fun x hx => ?_⟩,
      fun hnone hidle => ?_, fun hno => ?_⟩
    · rw [← hasked, List.map_append, hsame, List.append_assoc]
      exact List.rel_append (Settling.asks htaken) hasks
    · rw [htaken.length_eq, List.take_left]
      exact htaken
    · exact absurd hx List.not_mem_nil
    · rw [hnone] at hanswers
      rw [hidle, List.forall₂_nil_right_iff.mp hanswers, List.append_nil] at hasks
      exact List.forall₂_nil_right_iff.mp hasks
    · rw [hreported] at hno
      cases hno

/-- In every run a first scan that is over and was not cancelled completes once, one that was cancelled
never, and the map installed is only replaced by a newer one; and where a failure reported of no publication never finds one
outstanding, every publication asked for is settled once, with the answer to it. -/
theorem publications_settled_once (env : OwnerEnv) (session : ScanSessionId) (first : ScanGeneration)
    (page : SnapshotTree) (steps more : List LoopStep) :
    (CalmRun env (start session first page) steps → Settled first
      ((machine env).gather (answers first) (start session first page) steps)
      ((machine env).gather (settles env) (start session first page) steps)
      ((machine env).run (start session first page) steps)) ∧
    ((machine env).run (start session first page) steps).app.map.scanEnds false +
        ((machine env).gather (noted env takenEnds) (start session first page) steps).countP
          (fun f => f.ofRebuild == false) =
      ((machine env).gather (noted env endedScans) (start session first page) steps).count false ∧
    ((machine env).run (start session first page) steps).primaryScanActive.toNat +
      ((machine env).gather (noted env endedScans) (start session first page) steps).count false ≤ 1 ∧
    (((machine env).run (start session first page) steps).primaryScanActive = false →
      ((machine env).gather (noted env endedScans) (start session first page) (steps ++ more)).count
          false =
        ((machine env).gather (noted env endedScans) (start session first page) steps).count false) ∧
    Newer ((machine env).run (start session first page) steps)
      ((machine env).run (start session first page) (steps ++ more)) := by
  have hstart := steady_start session first page
  obtain ⟨hscans, hprimary⟩ := scans_counted env hstart steps
  refine ⟨fun hcalm => ?_, (hscans false).trans (Nat.zero_add _), hprimary, fun hover => ?_,
    newer_run env session first page steps more⟩
  · exact (settling_run hcalm).settled (owing_run hcalm).2.2
  · have hs := (run_turns env hstart trivial (fun _ _ _ _ _ _ => trivial) steps).1
    have hlater := (scans_counted env hs more).2
    rw [hover, Bool.toNat_false] at hlater
    rw [Machine.gather_append, List.count_append]
    omega

/-- A deletion that removed a file or a folder whole. -/
def removalReport (removed : RelativePath) (linked : Bool) : DeletionReport where
  rootRelativePath := removed
  scanRoot := [47]
  entries := ⟨[], { deleted := 1, deletedWithOtherLinks := linked }, true, true, none⟩
  softCancelled := false
  precise := true
  estimatedBytes := 0

/-- An overlay takes the place of the first map, another is asked for, and the thread ends. -/
def overlayLost : List LoopStep :=
  firstMapShown ++ (folderOverlaid ++ [.storeEvent .quiet,
    .deletionFinished (removalReport ⟨[⟨[98], valid_b⟩]⟩ false) .quiet, .threadStop, .storeEvent .quiet])

/-- The first map and the overlay are settled as the thread answered, the overlay after it as failed;
the first scan completed once. -/
theorem publications_settled_once_overlayLost : ∃ map overlay lost,
    (machine .quiet).gather (settles .quiet) emptyStart overlayLost = [map, overlay, lost] ∧
    lost.result = .error .stopped ∧
    List.Forall₂ Settlement.Of [map, overlay]
      ((machine .quiet).gather (answers ⟨0⟩) emptyStart overlayLost) ∧
    ((machine .quiet).gather (noted .quiet takenEnds) emptyStart overlayLost).countP
      (fun f => f.ofRebuild == false) = 1 ∧
    Newer ((machine .quiet).run emptyStart firstMapShown)
      ((machine .quiet).run emptyStart overlayLost) := by
  have hcalm : CalmRun .quiet emptyStart overlayLost := by decide +kernel
  have hsettled : ((machine .quiet).gather (settles .quiet) emptyStart overlayLost).length = 3 := by
    decide +kernel
  have hlog : ((machine .quiet).gather (answers ⟨0⟩) emptyStart overlayLost).length = 2 := by
    decide +kernel
  have hended : ((machine .quiet).gather (noted .quiet endedScans) emptyStart overlayLost).count false
      = 1 := by decide +kernel
  have htaken : ((machine .quiet).run emptyStart overlayLost).app.map.scanEnds false = 0 := by
    decide +kernel
  obtain ⟨hattributed, hends, -⟩ :=
    publications_settled_once .quiet ⟨0⟩ ⟨0⟩ (SnapshotPageCache.emptyFolder .root) overlayLost []
  obtain ⟨-, -, -, -, hnewer⟩ := publications_settled_once .quiet ⟨0⟩ ⟨0⟩
    (SnapshotPageCache.emptyFolder .root) firstMapShown (folderOverlaid ++ [.storeEvent .quiet,
      .deletionFinished (removalReport ⟨[⟨[98], valid_b⟩]⟩ false) .quiet, .threadStop,
      .storeEvent .quiet])
  change _ + _ = ((machine .quiet).gather (noted .quiet endedScans) emptyStart overlayLost).count
    false at hends
  rw [hended] at hends
  change ((machine .quiet).run emptyStart overlayLost).app.map.scanEnds false + _ = 1 at hends
  rw [htaken, Nat.zero_add] at hends
  obtain ⟨answered, lost, hsplit, hof, hlost⟩ := (hattributed hcalm).own
  change (machine .quiet).gather (settles .quiet) emptyStart overlayLost = _ at hsplit
  change List.Forall₂ _ _ (((machine .quiet).gather (answers ⟨0⟩) emptyStart overlayLost).take _) at hof
  change ∀ x ∈ lost, _ ∧ _ ∧
    _ = ((machine .quiet).gather (answers ⟨0⟩) emptyStart overlayLost).length at hlost
  have hboth := (congrArg List.length hsplit).symm.trans hsettled
  rw [List.length_append] at hboth
  have hwithin := hof.length_eq
  rw [List.length_take, hlog] at hwithin
  cases lost with
  | nil =>
    rw [List.length_nil] at hboth
    omega
  | cons x rest =>
    obtain ⟨hstopped, -, htwo⟩ := hlost x List.mem_cons_self
    rw [hlog] at htwo
    rw [htwo, List.length_cons] at hboth
    obtain ⟨map, overlay, rfl⟩ := List.length_eq_two.mp htwo
    obtain rfl : rest = [] := List.eq_nil_of_length_eq_zero (by omega)
    rw [List.take_of_length_le (by rw [hlog]; exact le_refl 2)] at hof
    exact ⟨map, overlay, x, hsplit, hstopped, hof, hends, hnewer⟩

/-- The generation that a failed publication left is cancelled, which the store refuses, while an
overlay is asked for behind it. -/
def refusedCancel : List LoopStep :=
  .deletionFinished (removalReport ⟨[⟨[98], valid_b⟩]⟩ true) .quiet :: (firstMapShown ++
    [.scanFinished false .quiet, .cancelRebuild, .threadStep StoreHandle.idleEngine,
      .threadStep StoreHandle.idleEngine,
      .threadStep { StoreHandle.idleEngine with io := { Io.none with create := fun _ => some .Other } },
      .storeEvent .quiet, .finishedPublication .quiet,
      .deletionFinished (removalReport ⟨[⟨[97], valid_a⟩]⟩ false) .quiet,
      .threadStep StoreHandle.idleEngine, .threadStep StoreHandle.idleEngine, .storeEvent .quiet])

/-- A first scan that is cancelled never completes; and the overlay is settled as failed while the
thread, which goes on, built it: the failure is that of the command before it. -/
theorem refused_cancel_settles_overlay :
    (∀ more, ((machine .quiet).gather (noted .quiet takenEnds) emptyStart
      (.scanFinished true .quiet :: more)).countP (fun f => f.ofRebuild == false) = 0) ∧
    ((machine .quiet).gather (settles .quiet) emptyStart refusedCancel)[2]?.map
      (fun x => (x.pending, x.result.isOk)) = some (.Overlay ⟨[⟨[97], valid_a⟩]⟩, false) ∧
    ((machine .quiet).gather (answers ⟨0⟩) emptyStart refusedCancel)[2]?.map
      (fun e => e.2.answer?.map Except.isOk) = some (some true) ∧
    ((machine .quiet).run emptyStart refusedCancel).app.scanStore.gone = false ∧
    ¬Settled ⟨0⟩ ((machine .quiet).gather (answers ⟨0⟩) emptyStart refusedCancel)
      ((machine .quiet).gather (settles .quiet) emptyStart refusedCancel)
      ((machine .quiet).run emptyStart refusedCancel) := by
  have hsettled : ((machine .quiet).gather (settles .quiet) emptyStart refusedCancel)[2]?.map
      (fun x => (x.pending, x.result.isOk)) = some (.Overlay ⟨[⟨[97], valid_a⟩]⟩, false) := by
    decide +kernel
  have hanswered : ((machine .quiet).gather (answers ⟨0⟩) emptyStart refusedCancel)[2]?.map
      (fun e => e.2.answer?.map Except.isOk) = some (some true) := by decide +kernel
  have hthere : ((machine .quiet).run emptyStart refusedCancel).app.scanStore.gone = false := by
    decide +kernel
  refine ⟨fun more => ?_, hsettled, hanswered, hthere, fun hno => ?_⟩
  · have hfirst : ((machine .quiet).step emptyStart (.scanFinished true .quiet)).1.primaryScanActive =
        false ∧ ((machine .quiet).step emptyStart
          (.scanFinished true .quiet)).1.app.map.scanEnds false = 0 := by decide +kernel
    obtain ⟨hs, -⟩ := run_turns .quiet (I := fun _ => True)
      (steady_start ⟨0⟩ ⟨0⟩ (SnapshotPageCache.emptyFolder .root)) trivial (fun _ _ _ _ _ _ => trivial)
      [.scanFinished true .quiet]
    obtain ⟨hscans, hprimary⟩ := scans_counted .quiet hs more
    have hends := hscans false
    change _ + ((machine .quiet).gather (noted .quiet takenEnds)
      ((machine .quiet).step emptyStart (.scanFinished true .quiet)).1 more).countP _ =
        ((machine .quiet).step emptyStart (.scanFinished true .quiet)).1.app.map.scanEnds false +
          _ at hends
    change _ + _ ≤ ((machine .quiet).step emptyStart
      (.scanFinished true .quiet)).1.primaryScanActive.toNat at hprimary
    rw [hfirst.1] at hprimary
    rw [hfirst.2] at hends
    have hnone : noted .quiet takenEnds emptyStart (.scanFinished true .quiet) = [] := by
      unfold noted
      split <;> rfl
    rw [Machine.gather_cons, hnone, List.nil_append]
    rw [Bool.toNat_false] at hprimary
    omega
  · obtain ⟨answered, lost, hsplit, hof, hlost⟩ := hno.own
    cases lost with
    | cons x rest =>
      have hgone := (hlost x List.mem_cons_self).2.1
      rw [hthere] at hgone
      cases hgone
    | nil =>
      rw [List.append_nil] at hsplit
      rw [hsplit] at hsettled
      obtain ⟨x, hx, hfailed⟩ := Option.map_eq_some_iff.mp hsettled
      obtain ⟨e, he, hok⟩ := Option.map_eq_some_iff.mp hanswered
      obtain ⟨hxlt, rfl⟩ := List.getElem?_eq_some_iff.mp hx
      obtain ⟨helt, rfl⟩ := List.getElem?_eq_some_iff.mp he
      have hthird := hof.get hxlt (hof.length_eq ▸ hxlt)
      rw [List.get_eq_getElem, List.get_eq_getElem, List.getElem_take] at hthird
      obtain ⟨answer, hanswer, hisOk⟩ := Option.map_eq_some_iff.mp hok
      have hresult := hthird.2.2
      dsimp only at hresult
      rw [hanswer] at hresult
      cases answer with
      | error error => cases hisOk
      | ok publication =>
        rw [← Option.some.inj hresult] at hfailed
        cases congrArg Prod.snd hfailed

end OwnerLoop

end Excise
