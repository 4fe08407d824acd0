import Excise.Owner.Handed

/-!
# Publications and their answers

The owner keeps what it owes of publications apart from the commands it sent for them; the thread
answers in the order of the commands. A request is what a command asks the thread to publish.
-/

namespace Excise
set_option autoImplicit false

/-- What the thread is asked to publish: the scan begun last, or an overlay. -/
inductive StoreRequest where
  | Publish (generation : ScanGeneration)
  | Overlay (request : OverlayRequest)

namespace StoreRequest

def generation : StoreRequest → ScanGeneration
  | .Publish generation => generation
  | .Overlay request => request.generation

/-- A result that answers the request; what it hands over is of the generation asked for. -/
def AnsweredBy : StoreRequest → StoreResult → Prop
  | .Publish generation, .Published answer =>
    ∀ publication, answer = .ok publication → publication.generation = generation
  | .Overlay request, .Overlaid answer =>
    ∀ publication, answer = .ok publication → publication.generation = request.generation
  | _, _ => False

end StoreRequest

/-- The publication outstanding that the owner keeps for a request. -/
def PendingPublication.Asks : PendingPublication → StoreRequest → Prop
  | .Primary, .Publish _ | .Rebuild, .Publish _ => True
  | .Overlay removed, .Overlay request => request.replacedPrefix = removed
  | _, _ => False

def StoreCommand.isRequest : StoreCommand → Bool
  | .Publish | .Overlay _ => true
  | _ => false

def StoreResult.isAnswer (result : StoreResult) : Bool := result.answer?.isSome

/-- The requests of a list of commands, after a scan that began as `first`. -/
def requests (first : ScanGeneration) : List StoreCommand → List StoreRequest
  | [] => []
  | .Publish :: commands => .Publish first :: requests first commands
  | .Overlay request :: commands => .Overlay request :: requests first commands
  | .BeginGeneration generation :: commands => requests generation commands
  | _ :: commands => requests first commands

/-- The answers the owner has not taken. -/
def StoreHandle.answers (h : StoreHandle) : List StoreResult := h.told.filter StoreResult.isAnswer

/-- A command that begins a generation finds every request before it answered and taken. -/
def Orderly : Bool → List StoreCommand → Prop
  | _, [] => True
  | asked, c :: commands =>
    (c.begins.isSome = true → asked = false) ∧ Orderly (asked || c.isRequest) commands

/-! ## Lists of commands -/

theorem requests_append (first : ScanGeneration) (cs ds : List StoreCommand) :
    requests first (cs ++ ds) = requests first cs ++ requests (lastScanned first cs) ds := by
  induction cs generalizing first with
  | nil => rfl
  | cons c cs ih =>
    cases c with
    | Publish => exact congrArg _ (ih first)
    | Overlay request => exact congrArg _ (ih first)
    | BeginGeneration generation => exact ih generation
    | _ => exact ih first

theorem requests_quiet {first : ScanGeneration} {cs : List StoreCommand}
    (h : ∀ c ∈ cs, c.isRequest = false) : requests first cs = [] := by
  induction cs generalizing first with
  | nil => rfl
  | cons c cs ih =>
    have hrest (g : ScanGeneration) : requests g cs = [] :=
      ih fun d hd => h d (List.mem_cons_of_mem c hd)
    have hc := h c List.mem_cons_self
    cases c with
    | Publish => cases hc
    | Overlay request => cases hc
    | BeginGeneration generation => exact hrest generation
    | _ => exact hrest first

theorem isRequest_of_requests {first : ScanGeneration} {cs : List StoreCommand}
    (h : requests first cs = []) : cs.any StoreCommand.isRequest = false := by
  induction cs generalizing first with
  | nil => rfl
  | cons c cs ih =>
    cases c with
    | Publish => cases h
    | Overlay request => cases h
    | BeginGeneration generation => exact ih h
    | _ => exact ih h

theorem isRequest_neutral {c : StoreCommand} (h : c.isNeutral = true) : c.isRequest = false := by
  cases c with
  | Publish => cases h
  | Overlay request => cases h
  | _ => rfl

theorem requests_neutral {first : ScanGeneration} {notes : List StoreCommand}
    (h : ∀ c ∈ notes, c.isNeutral = true) : requests first notes = [] :=
  requests_quiet fun c hc => isRequest_neutral (h c hc)

theorem orderly_append {asked : Bool} {cs ds : List StoreCommand} :
    Orderly asked (cs ++ ds) ↔
      Orderly asked cs ∧ Orderly (asked || cs.any StoreCommand.isRequest) ds := by
  induction cs generalizing asked with
  | nil =>
    rw [List.nil_append, List.any_nil, Bool.or_false]
    exact ⟨fun h => ⟨trivial, h⟩, fun h => h.2⟩
  | cons c cs ih =>
    rw [List.cons_append, List.any_cons, ← Bool.or_assoc]
    constructor
    · rintro ⟨hc, hrest⟩
      obtain ⟨hcs, hds⟩ := ih.mp hrest
      exact ⟨⟨hc, hcs⟩, hds⟩
    · rintro ⟨⟨hc, hcs⟩, hds⟩
      exact ⟨hc, ih.mpr ⟨hcs, hds⟩⟩

theorem orderly_quiet {asked : Bool} {cs : List StoreCommand} (h : begun cs = []) :
    Orderly asked cs := by
  induction cs generalizing asked with
  | nil => exact trivial
  | cons c cs ih =>
    have hc : c.begins = none := (List.filterMap_eq_nil_iff.mp h) c List.mem_cons_self
    refine ⟨fun hsome => ?_, ih ?_⟩
    · rw [hc] at hsome
      cases hsome
    · exact List.filterMap_eq_nil_iff.mpr fun d hd =>
        List.filterMap_eq_nil_iff.mp h d (List.mem_cons_of_mem c hd)

/-- A queue behind an untaken answer begins nothing. -/
theorem begun_of_orderly {cs : List StoreCommand} (h : Orderly true cs) : begun cs = [] := by
  induction cs with
  | nil => rfl
  | cons c cs ih =>
    have hc : c.begins = none := by
      cases hbegins : c.begins with
      | none => rfl
      | some g => cases h.1 (by rw [hbegins]; rfl)
    unfold begun
    rw [List.filterMap_cons, hc]
    exact ih h.2

/-! ## What a command answers -/

section
variable {c : StoreCommand} {x x' : Option ScanGeneration} {result : Option StoreResult}

theorem notice_isAnswer (h : result.all StoreResult.isNotice = true) :
    result.toList.filter StoreResult.isAnswer = [] := by
  cases result with
  | none => rfl
  | some r =>
    cases r with
    | AdmissionFailed error => rfl
    | ProvisionalPage folder page => rfl
    | Published answer => cases h
    | Overlaid answer => cases h
    | Failure error => cases h

/-- A request is answered at once, and nothing else is. -/
theorem effect_answers {last : ScanGeneration} (h : c.Effect x x' result)
    (hlast : ∀ g, x = some g → g = last) : List.Forall₂ StoreRequest.AnsweredBy (requests last [c])
      (result.toList.filter StoreResult.isAnswer) := by
  cases c with
  | Notes notes =>
    rw [notice_isAnswer h.2]
    exact .nil
  | Admit lease batch =>
    rw [notice_isAnswer h.2]
    exact .nil
  | ProvisionalPage request =>
    rw [notice_isAnswer h.2]
    exact .nil
  | Publish =>
    obtain ⟨answer, rfl, -, hok⟩ := h
    refine .cons (fun publication hp => ?_) .nil
    exact hlast _ (hok publication hp).1
  | BeginGeneration generation =>
    rw [h.1]
    exact .nil
  | Overlay request =>
    obtain ⟨answer, rfl, -, hok⟩ := h
    exact .cons (fun publication hp => (hok publication hp).1) .nil
  | DiscardActive =>
    rw [h.1]
    exact .nil
  | CancelActive =>
    obtain ⟨-, -, hno⟩ := h
    cases result with
    | none => exact .nil
    | some r =>
      cases r with
      | AdmissionFailed error => exact .nil
      | ProvisionalPage folder page => exact .nil
      | Published answer => exact absurd rfl (hno answer).1
      | Overlaid answer => exact absurd rfl (hno answer).2
      | Failure error => exact .nil

theorem any_isAnswer {first : ScanGeneration} {results : List StoreResult}
    (h : List.Forall₂ StoreRequest.AnsweredBy (requests first [c])
      (results.filter StoreResult.isAnswer)) : results.any StoreResult.isAnswer = c.isRequest := by
  have hempty (h : results.filter StoreResult.isAnswer = []) :
      results.any StoreResult.isAnswer = false := by
    refine List.any_eq_false.mpr fun r hr hanswer => ?_
    exact (List.filter_eq_nil_iff.mp h) r hr hanswer
  have hsome (h : results.filter StoreResult.isAnswer ≠ []) :
      results.any StoreResult.isAnswer = true := by
    obtain ⟨r, hr⟩ := List.exists_mem_of_ne_nil _ h
    obtain ⟨hr, hanswer⟩ := List.mem_filter.mp hr
    exact List.any_eq_true.mpr ⟨r, hr, hanswer⟩
  have hlength := h.length_eq
  cases c with
  | Publish => exact hsome fun hno => by rw [hno] at hlength; cases hlength
  | Overlay request => exact hsome fun hno => by rw [hno] at hlength; cases hlength
  | _ => exact hempty (List.eq_nil_of_length_eq_zero hlength.symm)

end

/-! ## What is outstanding -/

/-- The publications outstanding are the requests unanswered or not yet taken, in their order. -/
structure Outstanding (first : ScanGeneration) (publications : List PendingPublication)
    (h : StoreHandle) (engine : StoreEngine) (applied : List StoreCommand) : Prop where
  reported : h.unavailableReported = true → h.gone = true ∧ h.told = [] ∧ publications = []
  matched : h.unavailableReported = false → ∃ answered waiting,
    requests first applied = answered ++ waiting ∧
    List.Forall₂ StoreRequest.AnsweredBy waiting h.answers ∧
    List.Forall₂ PendingPublication.Asks publications
      (waiting ++ requests (lastScanned first applied) h.queued)
  orderly : Orderly (h.told.any StoreResult.isAnswer) h.queued
  single : h.handed.length ≤ 1
  closed : h.handed ≠ [] → engine.store.scanning = none

namespace Outstanding
variable {first : ScanGeneration} {publications : List PendingPublication} {h h' h₁ : StoreHandle}
  {engine : StoreEngine} {applied : List StoreCommand}

theorem start {engine : StoreEngine} : Outstanding first [] (.started first) engine [] where
  reported := fun hno => (by cases hno)
  matched := fun _ => ⟨[], [], rfl, .nil, .nil⟩
  orderly := trivial
  single := Nat.zero_le 1
  closed := fun hno => absurd rfl hno

theorem unreported (ho : Outstanding first publications h engine applied) (hgone : h.gone = false) :
    h.unavailableReported = false := by
  cases hreported : h.unavailableReported with
  | false => rfl
  | true =>
    rw [(ho.reported hreported).1] at hgone
    cases hgone

theorem taking (ho : Outstanding first publications h engine applied) {result : StoreResult}
    (htakes : StoreHandle.Takes h h' result) : h.unavailableReported = false := by
  cases hreported : h.unavailableReported with
  | false => rfl
  | true =>
    have htold := htakes.told
    rw [(ho.reported hreported).2.1] at htold
    cases htold

theorem idle (ho : Outstanding first [] h engine applied) (hreported : h.unavailableReported = false) :
    h.answers = [] ∧ requests (lastScanned first applied) h.queued = [] := by
  obtain ⟨answered, waiting, -, hanswers, hasks⟩ := ho.matched hreported
  obtain ⟨rfl, hqueued⟩ := List.append_eq_nil_iff.mp (List.forall₂_nil_left_iff.mp hasks)
  exact ⟨List.forall₂_nil_left_iff.mp hanswers, hqueued⟩

theorem any_answers {h : StoreHandle} (hno : h.answers = []) :
    h.told.any StoreResult.isAnswer = false :=
  List.any_eq_false.mpr fun r hr hanswer => List.filter_eq_nil_iff.mp hno r hr hanswer

/-- The oldest answer is to the oldest publication. -/
theorem oldest (ho : Outstanding first publications h engine applied) {result : StoreResult}
    (htakes : StoreHandle.Takes h h' result) (hanswer : result.isAnswer = true) :
    ∃ pending rest answered q waiting, publications = pending :: rest ∧ pending.Asks q ∧
      q.AnsweredBy result ∧ requests first applied = answered ++ q :: waiting ∧
      List.Forall₂ StoreRequest.AnsweredBy waiting h'.answers ∧
      List.Forall₂ PendingPublication.Asks rest
        (waiting ++ requests (lastScanned first applied) h.queued) := by
  obtain ⟨answered, waiting, hrequests, hanswers, hasks⟩ := ho.matched (ho.taking htakes)
  have hhead : h.answers = result :: h'.answers := by
    unfold StoreHandle.answers
    rw [htakes.told, List.filter_cons_of_pos hanswer]
  rw [hhead] at hanswers
  obtain ⟨q, waiting', hq, hrest, rfl⟩ := List.forall₂_cons_right_iff.mp hanswers
  obtain ⟨pending, rest, hpending, hlater, rfl⟩ := List.forall₂_cons_right_iff.mp hasks
  exact ⟨pending, rest, answered, q, waiting', rfl, hpending, hq, hrequests, hrest, hlater⟩

/-! ## What the owner sends -/

/-- A command behind the queue; the publication it asks for, if it is a request. -/
theorem sent (ho : Outstanding first publications h engine applied) {cs : List StoreCommand}
    {more : List PendingPublication} (hq : StoreHandle.Queues h h' cs)
    (hmore : List.Forall₂ PendingPublication.Asks more
      (requests (lastScanned (lastScanned first applied) h.queued) cs))
    (hgone : more = [] ∨ h.gone = false)
    (horderly : Orderly (h.told.any StoreResult.isAnswer || h.queued.any StoreCommand.isRequest) cs) :
    Outstanding first (publications ++ more) h' engine applied := by
  have hhanded : h'.handed = h.handed := by
    unfold StoreHandle.handed
    rw [hq.told]
  have hanswers : h'.answers = h.answers := by
    unfold StoreHandle.answers
    rw [hq.told]
  refine ⟨fun hreported => ?_, fun hreported => ?_, ?_, ?_, fun hsome => ?_⟩
  · rw [hq.same.reported] at hreported
    obtain ⟨hg, htold, hno⟩ := ho.reported hreported
    refine ⟨hq.gone.trans hg, hq.told.trans htold, ?_⟩
    rcases hgone with rfl | hgone
    · rw [hno]
      rfl
    · rw [hgone] at hg
      cases hg
  · rw [hq.same.reported] at hreported
    obtain ⟨answered, waiting, hrequests, hanswered, hasks⟩ := ho.matched hreported
    refine ⟨answered, waiting, hrequests, by rw [hanswers]; exact hanswered, ?_⟩
    rw [hq.queued, requests_append, ← List.append_assoc]
    exact List.rel_append hasks hmore
  · rw [hq.told, hq.queued]
    exact orderly_append.mpr ⟨ho.orderly, horderly⟩
  · rw [hhanded]
    exact ho.single
  · rw [hhanded] at hsome
    exact ho.closed hsome

theorem sends (ho : Outstanding first publications h engine applied) {cs : List StoreCommand}
    (hq : StoreHandle.Queues h h' cs) (hquiet : ∀ c ∈ cs, c.isRequest = false ∧ c.begins = none) :
    Outstanding first publications h' engine applied := by
  rw [← List.append_nil publications]
  refine ho.sent hq ?_ (Or.inl rfl) (orderly_quiet (begun_quiet fun c hc => (hquiet c hc).2))
  rw [requests_quiet fun c hc => (hquiet c hc).1]
  exact .nil

theorem begins (ho : Outstanding first [] h engine applied) {notes : List StoreCommand}
    {c : StoreCommand} {more : List PendingPublication} (hgone : h.gone = false)
    (hneutral : ∀ c ∈ notes, c.isNeutral = true) (hq : StoreHandle.Queues h h' (notes ++ [c]))
    (hmore : ∀ g, List.Forall₂ PendingPublication.Asks more (requests g [c])) :
    Outstanding first more h' engine applied := by
  obtain ⟨hanswers, hqueued⟩ := ho.idle (ho.unreported hgone)
  rw [← List.nil_append more]
  refine ho.sent hq ?_ (Or.inr hgone) ?_
  · rw [requests_append, requests_neutral hneutral, List.nil_append]
    exact hmore _
  · rw [any_answers hanswers, isRequest_of_requests hqueued, Bool.or_self]
    refine orderly_append.mpr ⟨orderly_quiet (begun_neutral hneutral), ?_⟩
    rw [isRequest_of_requests (requests_neutral hneutral : requests first notes = []), Bool.or_self]
    exact ⟨fun _ => rfl, trivial⟩

theorem publishes (ho : Outstanding first publications h engine applied) {notes : List StoreCommand}
    {pending : PendingPublication} (hscan : ∀ removed, pending ≠ .Overlay removed)
    (hgone : h.gone = false) (hneutral : ∀ c ∈ notes, c.isNeutral = true)
    (hq : StoreHandle.Queues h h' (notes ++ [.Publish])) :
    Outstanding first (publications ++ [pending]) h' engine applied := by
  refine ho.sent hq ?_ (Or.inr hgone) (orderly_quiet ?_)
  · rw [requests_append, requests_neutral hneutral, List.nil_append]
    refine .cons ?_ .nil
    cases pending with
    | Primary => exact trivial
    | Rebuild => exact trivial
    | Overlay removed => exact absurd rfl (hscan removed)
  · rw [begun_append, begun_neutral hneutral]
    rfl

/-! ## What the owner takes -/

theorem handed_answers {result : StoreResult} (hnotice : result.isAnswer = false) :
    result.handed? = none := by
  cases result with
  | Published answer => cases hnotice
  | Overlaid answer => cases hnotice
  | _ => rfl

/-- What is handed over once the oldest result is taken is less. -/
theorem shorter (ho : Outstanding first publications h engine applied) {result : StoreResult}
    (htakes : StoreHandle.Takes h h' result) : h'.handed.length ≤ 1 ∧
      (h'.handed ≠ [] → engine.store.scanning = none) ∧
      Orderly (h'.told.any StoreResult.isAnswer) h'.queued := by
  have hhanded := MapsNumbered.handed_takes htakes
  have hsingle := ho.single
  rw [hhanded, List.length_append] at hsingle
  refine ⟨le_trans (Nat.le_add_left _ _) hsingle, fun hsome => ho.closed ?_, ?_⟩
  · rw [hhanded]
    exact List.append_ne_nil_of_right_ne_nil _ hsome
  · have horderly := ho.orderly
    rw [htakes.told, List.any_cons] at horderly
    rw [htakes.queued]
    cases hanswer : result.isAnswer with
    | false =>
      rw [hanswer, Bool.false_or] at horderly
      exact horderly
    | true =>
      rw [hanswer, Bool.true_or] at horderly
      exact orderly_quiet (begun_of_orderly horderly)

theorem notices (ho : Outstanding first publications h engine applied) {result : StoreResult}
    (htakes : StoreHandle.Takes h h' result) (hnotice : result.isAnswer = false) :
    Outstanding first publications h' engine applied := by
  obtain ⟨hsingle, hclosed, horderly⟩ := ho.shorter htakes
  refine ⟨fun hreported => ?_, fun hreported => ?_, horderly, hsingle, hclosed⟩
  · rw [htakes.reported, ho.taking htakes] at hreported
    cases hreported
  · rw [htakes.reported] at hreported
    have hanswers : h'.answers = h.answers := by
      unfold StoreHandle.answers
      rw [htakes.told, List.filter_cons_of_neg (Bool.eq_false_iff.mp hnotice)]
    rw [hanswers, htakes.queued]
    exact ho.matched hreported

/-- The answer to the oldest publication; a map installed with it changes nothing here. -/
theorem answers {pending : PendingPublication} {rest : List PendingPublication}
    (ho : Outstanding first (pending :: rest) h engine applied) {result : StoreResult}
    (htakes : StoreHandle.Takes h h' result) (hanswer : result.isAnswer = true) :
    Outstanding first rest h' engine applied := by
  obtain ⟨hsingle, hclosed, horderly⟩ := ho.shorter htakes
  refine ⟨fun hreported => ?_, fun _ => ?_, horderly, hsingle, hclosed⟩
  · rw [htakes.reported, ho.taking htakes] at hreported
    cases hreported
  · obtain ⟨p, ps, answered, q, waiting, heq, -, -, hrequests, hanswers, hasks⟩ :=
      ho.oldest htakes hanswer
    obtain ⟨-, rfl⟩ := List.cons.inj heq
    refine ⟨answered ++ [q], waiting, ?_, hanswers, ?_⟩
    · rw [hrequests, List.append_assoc]
      rfl
    · rw [htakes.queued]
      exact hasks

theorem installed (ho : Outstanding first publications h engine applied) (p : PublishedGeneration) :
    Outstanding first publications (h.install (.Published p)) engine applied :=
  ⟨ho.reported, ho.matched, ho.orderly, ho.single, ho.closed⟩

theorem noted (ho : Outstanding first publications h engine applied) (g : ScanGeneration) :
    Outstanding first publications (h.noteGeneration g) engine applied :=
  ⟨ho.reported, ho.matched, ho.orderly, ho.single, ho.closed⟩

theorem stops (ho : Outstanding first publications h engine applied) (htold : h.told = [])
    (hgone : h.gone = true) :
    Outstanding first [] { h with unavailableReported := true } engine applied :=
  ⟨fun _ => ⟨hgone, htold, rfl⟩, fun hno => (by cases hno), ho.orderly, ho.single, ho.closed⟩

/-! ## What the thread does -/

theorem asked_of_handed {h : StoreHandle} (hsome : h.handed ≠ []) :
    h.told.any StoreResult.isAnswer = true := by
  obtain ⟨publication, hp⟩ := List.exists_mem_of_ne_nil _ hsome
  obtain ⟨r, hr, hrp⟩ := List.mem_filterMap.mp hp
  refine List.any_eq_true.mpr ⟨r, hr, ?_⟩
  cases hanswer : r.isAnswer with
  | true => rfl
  | false =>
    rw [handed_answers hanswer] at hrp
    cases hrp

theorem applies {session : ScanSessionId} (ho : Outstanding first publications h engine applied)
    (hn : MapsNumbered session first h engine applied) (io : EngineIo) {c : StoreCommand}
    {commands : List StoreCommand} (hqueued : h.queued = c :: commands) (hgone : h.gone = false)
    (hq' : h'.queued = commands) (htold : h'.told = h.told ++ (engine.apply io c).2.toList)
    (hreported : h'.unavailableReported = h.unavailableReported) :
    Outstanding first publications h' (engine.apply io c).1 (applied ++ [c]) := by
  have horderly := ho.orderly
  rw [hqueued] at horderly
  have hclosed := ho.closed
  obtain ⟨-, heffect, -⟩ := StoreEngine.apply_spec io engine c hn.ready
    fun g hg k hk => hn.begins_past hqueued hg k (hn.known k hk)
  have hanswered := effect_answers heffect hn.scanning
  have hany := any_isAnswer hanswered
  have hhanded := MapsNumbered.handed_applies htold
  -- an answer not yet taken leaves nothing to hand over
  have hnone (hsome : h.handed ≠ []) : (engine.apply io c).2.bind StoreResult.handed? = none := by
    cases hp : (engine.apply io c).2.bind StoreResult.handed? with
    | none => rfl
    | some publication =>
      obtain ⟨-, hx | hbegins⟩ := effect_handed heffect hp
      · rw [hclosed hsome] at hx
        cases hx
      · have hasked := horderly.1 (by rw [hbegins]; rfl)
        rw [asked_of_handed hsome] at hasked
        cases hasked
  refine ⟨fun hrep => ?_, fun hrep => ?_, ?_, ?_, fun hsome => ?_⟩
  · rw [hreported, ho.unreported hgone] at hrep
    cases hrep
  · rw [hreported] at hrep
    obtain ⟨answered, waiting, hrequests, hanswers, hasks⟩ := ho.matched hrep
    have hnow : h'.answers = h.answers ++ (engine.apply io c).2.toList.filter StoreResult.isAnswer := by
      unfold StoreHandle.answers
      rw [htold, List.filter_append]
    refine ⟨answered, waiting ++ requests (lastScanned first applied) [c], ?_, ?_, ?_⟩
    · rw [requests_append, hrequests, List.append_assoc]
    · rw [hnow]
      exact List.rel_append hanswers hanswered
    · rw [hqueued, ← List.singleton_append, requests_append] at hasks
      rw [hq', lastScanned_append, List.append_assoc]
      exact hasks
  · rw [hq', htold, List.any_append, hany]
    exact horderly.2
  · rw [hhanded, List.length_append]
    by_cases hsome : h.handed = []
    · rw [hsome]
      cases (engine.apply io c).2.bind StoreResult.handed? with
      | none => exact Nat.zero_le 1
      | some publication => exact le_refl 1
    · rw [hnone hsome]
      exact ho.single
  · cases hp : (engine.apply io c).2.bind StoreResult.handed? with
    | some publication => exact (effect_handed heffect hp).1
    | none =>
      rw [hhanded, hp] at hsome
      have hold : h.handed ≠ [] := fun hno => hsome (by rw [hno]; rfl)
      cases hx' : (engine.apply io c).1.store.scanning with
      | none => rfl
      | some g =>
        rcases effect_scanning heffect hx' with rfl | ⟨hx, -⟩
        · have hasked := horderly.1 rfl
          rw [asked_of_handed hold] at hasked
          cases hasked
        · rw [hclosed hold] at hx
          cases hx

end Outstanding

/-! ## Runs -/

section
variable {kind : StepKind} {first : ScanGeneration} {engine : StoreEngine} {applied : List StoreCommand}

theorem isRequest_quiet {c : StoreCommand} (h : c.isNeutral = true ∨ c = .DiscardActive) :
    c.isRequest = false ∧ c.begins = none := by
  rcases h with h | rfl
  · exact ⟨isRequest_neutral h, begins_neutral h⟩
  · exact ⟨rfl, rfl⟩

theorem Outstanding.move {x y : MapState × StoreHandle} (hcalm : kind.calm) (h : Move kind x y)
    (ho : Outstanding first x.1.publications x.2 engine applied) :
    Outstanding first y.1.publications y.2 engine applied := by
  cases h with
  | owes same owes aside => rw [same]; exact ho
  | loses same loses aside => rw [same]; exact ho
  | invalidates same invalidates => rw [same]; exact ho
  | adds available installed held added =>
    subst added
    exact ho
  | sends queues quiet => exact ho.sends queues fun c hc => isRequest_quiet (quiet c hc)
  | @asksOverlay m m' h h₁ h' p request notes later idle installed next base oldest open_ neutral queues
      noted asked =>
    rw [idle] at ho
    have hnext : Outstanding first [.Overlay request.replacedPrefix] h₁ engine applied :=
      ho.begins open_ neutral queues fun _ => .cons rfl .nil
    rw [noted, asked]
    exact hnext.noted _
  | takes polls takes notice => exact ho.notices takes (by unfold StoreResult.isAnswer; rw [notice]; rfl)
  | stray polls takes answer idle =>
    obtain ⟨pending, rest, -, -, -, hno, -⟩ := ho.oldest takes answer
    rw [show _ = _ from idle] at hno
    cases hno
  | ends polls takes answer oldest ends =>
    rw [show _ = _ from oldest] at ho
    exact ho.answers takes answer
  | installs polls takes answer oldest available same =>
    rw [show _ = _ from oldest] at ho
    exact (ho.answers takes (by unfold StoreResult.isAnswer; rw [answer]; rfl)).installed _
  | fails polls takes idle none_ loses =>
    rw [none_]
    rw [show _ = _ from idle hcalm] at ho
    exact ho.notices takes rfl
  | stops polls told gone none_ loses =>
    rw [none_]
    exact ho.stops told gone

theorem Outstanding.moves {x y : MapState × StoreHandle} (hcalm : kind.calm) (h : Moves kind x y)
    (ho : Outstanding first x.1.publications x.2 engine applied) :
    Outstanding first y.1.publications y.2 engine applied := by
  induction h with
  | refl => exact ho
  | tail _ hmove ih => exact ih.move hcalm hmove

end

namespace OwnerLoop
variable {env : OwnerEnv} {session : ScanSessionId} {first : ScanGeneration} {kind : StepKind}
  {s s' : OwnerLoop}

def Owing (first : ScanGeneration) (s : OwnerLoop) : Prop :=
  Outstanding first s.app.map.publications s.app.scanStore s.engine s.applied

theorem owing_turn (h : LoopTurn kind s s') (hcalm : kind.calm) (hs : s.Steady)
    (hn : s.Numbers session first) (ho : s.Owing first) : s'.Owing first := by
  have hcancel {h : StoreHandle} {notes : List StoreCommand}
      (hq : StoreHandle.Queues s.app.scanStore h (notes ++ [.CancelActive]))
      (hneutral : ∀ c ∈ notes, c.isNeutral = true) :
      Outstanding first s.app.map.publications h s.engine s.applied := by
    refine Outstanding.sends ho hq fun c hc => ?_
    rcases List.mem_append.mp hc with hc | hc
    · exact isRequest_quiet (Or.inl (hneutral c hc))
    · rw [List.mem_singleton.mp hc]
      exact ⟨rfl, rfl⟩
  unfold Owing at ho ⊢
  cases h with
  | calls moves => exact Outstanding.moves hcalm moves ho
  | removes moves => exact Outstanding.moves hcalm moves.moves ho
  | begins primary rebuild required idle finished chain newest open_ neutral queues book =>
    obtain ⟨hmap, hstore⟩ := book_inj book
    rw [idle] at ho
    rw [hmap, hstore]
    change Outstanding first s.app.map.publications _ _ _
    rw [idle]
    exact (ho.begins open_ neutral queues fun _ => .nil).noted _
  | scanned primary reduction asks active reducing => exact ho
  | reduced asks => exact ho
  | cancelsPrimary asks primary open_ neutral queues book =>
    obtain ⟨hmap, hstore⟩ := book_inj book
    rw [hmap, hstore]
    exact hcancel queues neutral
  | publishes asks primary asked open_ neutral queues book =>
    obtain ⟨hmap, hstore⟩ := book_inj book
    rw [hmap, hstore]
    refine ho.publishes (fun removed hno => ?_) open_ neutral queues
    rcases asked with ⟨rfl, -⟩ | ⟨rfl, -⟩ <;> cases hno
  | ends asks rebuild still without book =>
    obtain ⟨hmap, hstore⟩ := book_inj book
    rw [hmap, hstore]
    exact ho
  | finishes asks known oldest moves lost => exact Outstanding.moves hcalm moves ho
  | cancels asks active still later open_ neutral queues book =>
    obtain ⟨hmap, hstore⟩ := book_inj book
    rw [hmap, hstore]
    exact hcancel queues neutral
  | idles asks active => exact ho
  | thread io runs =>
    rcases threadStep_cases hs.threaded io with heq | ⟨c, commands, hqueued, hgone, heq⟩
    · rw [heq]
      exact ho
    · rw [heq]
      exact ho.applies hn io hqueued hgone rfl rfl rfl
  | threadEnds runs =>
    rw [threadStop_eq hs.threaded]
    exact ⟨fun hreported => ⟨rfl, (ho.reported hreported).2⟩, ho.matched, ho.orderly, ho.single,
      ho.closed⟩

theorem owing_run {page : SnapshotTree} {steps : List LoopStep}
    (h : CalmRun env (start session first page) steps) :
    ((machine env).run (start session first page) steps).Steady ∧
      ((machine env).run (start session first page) steps).Numbers session first ∧
      ((machine env).run (start session first page) steps).Owing first :=
  calm_run_turns (I := fun s => s.Numbers session first ∧ s.Owing first)
    (steady_start session first page) ⟨MapsNumbered.start, Outstanding.start⟩
    (fun _ _ _ hcalm hs hI h => ⟨(numbers_turn h hs hI.1).1, owing_turn h hcalm hs hI.1 hI.2⟩) h

/-- Of all that was asked of the thread, the last are the publications outstanding, one for one, and
the results not yet taken answer the first of these; what one hands over is the generation asked
for. -/
theorem publications_attributed {page : SnapshotTree} {steps : List LoopStep}
    (h : CalmRun env (start session first page) steps)
    (hthere : ((machine env).run (start session first page) steps).app.scanStore.unavailableReported =
      false) :
    ∃ answered waiting asked,
      requests first (((machine env).run (start session first page) steps).applied ++
        ((machine env).run (start session first page) steps).app.scanStore.queued) =
          answered ++ (waiting ++ asked) ∧
      List.Forall₂ PendingPublication.Asks
        ((machine env).run (start session first page) steps).app.map.publications
        (waiting ++ asked) ∧
      List.Forall₂ StoreRequest.AnsweredBy waiting
        ((machine env).run (start session first page) steps).app.scanStore.answers := by
  obtain ⟨-, -, ho⟩ := owing_run h
  obtain ⟨answered, waiting, hrequests, hanswers, hasks⟩ := ho.matched hthere
  refine ⟨answered, waiting, _, ?_, hasks, hanswers⟩
  rw [requests_append, hrequests, List.append_assoc]

/-- The answer to the first publication was taken, that to the overlay after it was not. -/
theorem publications_attributed_overlay : ∃ answered waiting asked,
    requests ⟨0⟩ (((machine .quiet).run emptyStart (firstMapShown ++ folderOverlaid)).applied ++
      ((machine .quiet).run emptyStart (firstMapShown ++ folderOverlaid)).app.scanStore.queued) =
          answered ++ (waiting ++ asked) ∧
      answered.length = 1 ∧ waiting.length = 1 ∧
      List.Forall₂ PendingPublication.Asks [.Overlay ⟨[⟨[97], valid_a⟩]⟩] (waiting ++ asked) ∧
      List.Forall₂ StoreRequest.AnsweredBy waiting ((machine .quiet).run emptyStart
        (firstMapShown ++ folderOverlaid)).app.scanStore.answers := by
  have hcalm : CalmRun .quiet emptyStart (firstMapShown ++ folderOverlaid) := by decide +kernel
  have hpublications : ((machine .quiet).run emptyStart
      (firstMapShown ++ folderOverlaid)).app.map.publications =
        [.Overlay ⟨[⟨[97], valid_a⟩]⟩] := by decide +kernel
  have hrequested : (requests ⟨0⟩ (((machine .quiet).run emptyStart
      (firstMapShown ++ folderOverlaid)).applied ++ ((machine .quiet).run emptyStart
        (firstMapShown ++ folderOverlaid)).app.scanStore.queued)).length = 2 := by decide +kernel
  have hanswered : ((machine .quiet).run emptyStart
      (firstMapShown ++ folderOverlaid)).app.scanStore.answers.length = 1 := by decide +kernel
  obtain ⟨answered, waiting, asked, hrequests, hasks, hanswers⟩ := publications_attributed hcalm
    (by decide +kernel)
  change List.Forall₂ _ ((machine .quiet).run emptyStart
    (firstMapShown ++ folderOverlaid)).app.map.publications _ at hasks
  rw [hpublications] at hasks
  have hwaiting : waiting.length = 1 := hanswers.length_eq.trans hanswered
  refine ⟨answered, waiting, asked, hrequests, ?_, hwaiting, hasks, hanswers⟩
  have hone : (waiting ++ asked).length = 1 := hasks.length_eq.symm
  have htotal := (congrArg List.length hrequests).symm.trans hrequested
  rw [List.length_append, hone] at htotal
  exact Nat.succ.inj htotal

end OwnerLoop

end Excise
