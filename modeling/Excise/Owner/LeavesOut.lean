import Excise.Owner.Requests

/-!
# Maps that leave a removal out

What a deletion removed is owed to the map until one is installed that leaves it out: the map is
scanned again, or an overlay is built over what was removed. What the moves of a call make of one
removal.
-/

namespace Excise
set_option autoImplicit false

/-- The map of a generation leaves a removal out: it was scanned after it, it is an overlay over the
target, or an overlay over a map that leaves it out. -/
inductive LeavesOut (session : ScanSessionId) (first : ScanGeneration) (commands : List StoreCommand)
    (removal : EndedRemoval) : ScanGeneration → Prop where
  | scanned {g : ScanGeneration} (begun : .BeginGeneration g ∈ commands)
      (later : ∀ l, removal.since = some l → l < g) : LeavesOut session first commands removal g
  | overlaid {request : OverlayRequest} (asked : .Overlay request ∈ commands)
      (target : removal.target = some request.replacedPrefix)
      (later : ∀ l, removal.since = some l → l < request.generation) :
      LeavesOut session first commands removal request.generation
  | carried {request : OverlayRequest} {p : PublishedGeneration} (asked : .Overlay request ∈ commands)
      (base : request.base = p.overlayBase) (built : StoreEngine.Built session first p)
      (newer : p.manifest.generation < request.generation)
      (leaves : LeavesOut session first commands removal p.manifest.generation) :
      LeavesOut session first commands removal request.generation

/-- The requests outstanding, the last `n` of a list of commands, are all of a kind. -/
def Recent (first : ScanGeneration) (commands : List StoreCommand) (n : Nat)
    (kind : StoreRequest → Prop) : Prop :=
  ∀ answered late, requests first commands = answered ++ late → late.length ≤ n →
    ∀ q ∈ late, kind q

/-- Commands that leave the requests and the scan begun last as they are. -/
structure Grown (first : ScanGeneration) (cs ds : List StoreCommand) : Prop where
  subset : cs ⊆ ds
  requests : requests first ds = requests first cs
  scanned : lastScanned first ds = lastScanned first cs

/-! ## Lists of commands -/

section
variable {session : ScanSessionId} {first : ScanGeneration} {cs ds : List StoreCommand}
  {removal : EndedRemoval} {n k : Nat} {kind kind' : StoreRequest → Prop}

theorem LeavesOut.later {g : ScanGeneration} (h : LeavesOut session first cs removal g)
    {l : ScanGeneration} (hl : removal.since = some l) : l < g := by
  induction h with
  | scanned begun later => exact later l hl
  | overlaid asked target later => exact later l hl
  | carried asked base built newer leaves ih => exact lt_trans ih newer

theorem LeavesOut.mono {g : ScanGeneration} (h : LeavesOut session first cs removal g) (hsub : cs ⊆ ds) :
    LeavesOut session first ds removal g := by
  induction h with
  | scanned begun later => exact .scanned (hsub begun) later
  | overlaid asked target later => exact .overlaid (hsub asked) target later
  | carried asked base built newer leaves ih => exact .carried (hsub asked) base built newer ih

theorem Recent.nil : Recent first cs 0 kind := by
  intro answered late _ hlength q hq
  rw [List.length_eq_zero_iff.mp (Nat.le_zero.mp hlength)] at hq
  exact absurd hq List.not_mem_nil

theorem Recent.weaken (h : Recent first cs n kind) (hk : k ≤ n)
    (hrequests : requests first ds = requests first cs) (hkind : ∀ q, kind q → kind' q) :
    Recent first ds k kind' :=
  fun answered late heq hlength q hq =>
    hkind q (h answered late (hrequests ▸ heq) (le_trans hlength hk) q hq)

theorem Recent.asked (h : Recent first cs n kind) {q : StoreRequest}
    (hrequests : requests first ds = requests first cs ++ [q]) (hq : kind q) :
    Recent first ds (n + 1) kind := by
  intro answered late heq hlength x hx
  rw [hrequests] at heq
  rcases List.eq_nil_or_concat' late with rfl | ⟨before, y, rfl⟩
  · exact absurd hx List.not_mem_nil
  · rw [← List.append_assoc] at heq
    obtain ⟨hbefore, hlast⟩ := List.append_inj' heq rfl
    rw [List.length_append, List.length_singleton] at hlength
    rcases List.mem_append.mp hx with hx | hx
    · exact h answered before hbefore (Nat.le_of_succ_le_succ hlength) x hx
    · rw [List.mem_singleton.mp hx, ← List.singleton_injective hlast]
      exact hq

theorem Grown.refl : Grown first cs cs := ⟨fun _ h => h, rfl, rfl⟩

theorem Grown.quiet (h : ∀ c ∈ ds, c.isRequest = false ∧ c.begins = none) :
    Grown first cs (cs ++ ds) where
  subset := List.subset_append_left _ _
  requests := by
    rw [requests_append, requests_quiet fun c hc => (h c hc).1, List.append_nil]
  scanned := by
    rw [lastScanned_append, lastScanned_quiet fun c hc => (h c hc).2]

/-- A publication is asked of a scan begun before. -/
theorem begun_of_publish {g : ScanGeneration} (h : .Publish g ∈ requests first cs) :
    g = first ∨ .BeginGeneration g ∈ cs := by
  induction cs generalizing first with
  | nil => exact absurd h List.not_mem_nil
  | cons c cs ih =>
    have hrest {f : ScanGeneration} (h : .Publish g ∈ requests f cs) :
        g = f ∨ .BeginGeneration g ∈ c :: cs := (ih h).imp id (List.mem_cons_of_mem c)
    cases c with
    | Publish =>
      rcases List.mem_cons.mp h with h | h
      · cases h
        exact Or.inl rfl
      · exact hrest h
    | Overlay request =>
      rcases List.mem_cons.mp h with h | h
      · cases h
      · exact hrest h
    | BeginGeneration generation =>
      rcases hrest h with rfl | h
      · exact Or.inr List.mem_cons_self
      · exact Or.inr h
    | _ => exact hrest h

theorem mem_of_overlay {request : OverlayRequest} (h : .Overlay request ∈ requests first cs) :
    .Overlay request ∈ cs := by
  induction cs generalizing first with
  | nil => exact absurd h List.not_mem_nil
  | cons c cs ih =>
    cases c with
    | Publish =>
      rcases List.mem_cons.mp h with h | h
      · cases h
      · exact List.mem_cons_of_mem _ (ih h)
    | Overlay other =>
      rcases List.mem_cons.mp h with h | h
      · cases h
        exact List.mem_cons_self
      · exact List.mem_cons_of_mem _ (ih h)
    | BeginGeneration generation => exact List.mem_cons_of_mem _ (ih h)
    | _ => exact List.mem_cons_of_mem _ (ih h)

/-- An overlay asked for is one of the publications outstanding. -/
theorem asks_mem {publications : List PendingPublication} {qs : List StoreRequest}
    (h : List.Forall₂ PendingPublication.Asks publications qs) {request : OverlayRequest}
    (hq : .Overlay request ∈ qs) : .Overlay request.replacedPrefix ∈ publications := by
  induction h with
  | nil => exact absurd hq List.not_mem_nil
  | @cons pending q _ _ hasks _ ih =>
    rcases List.mem_cons.mp hq with rfl | hq
    · cases pending with
      | Overlay removed =>
        rw [show request.replacedPrefix = removed from hasks]
        exact List.mem_cons_self
      | _ => exact hasks.elim
    · exact List.mem_cons_of_mem _ (ih hq)

/-- What an answer hands over is of the generation asked for. -/
theorem StoreRequest.AnsweredBy.generation {q : StoreRequest} {result : StoreResult}
    {publication : Publication} (h : q.AnsweredBy result)
    (hanswer : result.answer? = some (.ok publication)) : publication.generation = q.generation := by
  cases q with
  | Publish g =>
    cases result with
    | Published answer => cases hanswer; exact h publication rfl
    | _ => exact h.elim
  | Overlay request =>
    cases result with
    | Overlaid answer => cases hanswer; exact h publication rfl
    | _ => exact h.elim

end

/-! ## A removal between two turns -/

section
variable (session : ScanSessionId) (first : ScanGeneration) (cs : List StoreCommand)
  (removal : EndedRemoval) (busy : Bool) (m : MapState) (h : StoreHandle)

/-- The map installed leaves the removal out, or an overlay outstanding does; `busy` says that the
first map is still to be published. -/
structure Coming : Prop where
  overlays : Recent first cs m.publications.length fun q => ∀ request, q = .Overlay request →
    LeavesOut session first cs removal request.generation
  map : (∃ removed rest, m.publications = .Overlay removed :: rest) ∨
    ∀ p, h.published = some p → LeavesOut session first cs removal p.manifest.generation
  unmapped : h.published = none → m.publications = [] ∧ busy = false ∧ m.rebuildActive = false

/-- A rebuild begun after the removal goes on. -/
structure Rescans : Prop where
  active : m.rebuildActive = true
  later : LeavesOut session first cs removal (lastScanned first cs)
  publishes : Recent first cs m.publications.length fun q => ∀ g, q = .Publish g →
    LeavesOut session first cs removal g
  replaced : m.replaced = true → Coming session first cs removal busy m h

def RemovalHeld : Prop :=
  m.Owed removal.target ∨ Rescans session first cs removal busy m h ∨
    Coming session first cs removal busy m h

/-- The removal ended before the generations begun next. -/
def EndedRemoval.Known : Prop :=
  ∀ l, removal.since = some l → ∃ l', h.latestGeneration = some l' ∧ l ≤ l'

/-- An overlay is asked for while nothing else is outstanding. -/
def MapState.OverlayFirst : Prop :=
  ∀ pending rest, m.publications = pending :: rest → ∀ removed, .Overlay removed ∉ rest

end

variable {session : ScanSessionId} {first : ScanGeneration} {cs ds : List StoreCommand}
  {removal : EndedRemoval} {busy busy' : Bool} {m m' : MapState} {h h' : StoreHandle}

theorem Coming.kept (hc : Coming session first cs removal busy m h) (hgrown : Grown first cs ds)
    (hpubs : m'.publications = m.publications) (hpublished : h'.published = h.published)
    (hbusy : busy = false → busy' = false)
    (hactive : m.rebuildActive = false → m'.rebuildActive = false) :
    Coming session first ds removal busy' m' h' := by
  refine ⟨?_, ?_, fun hno => ?_⟩
  · rw [hpubs]
    exact hc.overlays.weaken (le_refl _) hgrown.requests fun q hq request heq =>
      (hq request heq).mono hgrown.subset
  · rw [hpubs]
    refine hc.map.imp id fun hmap p hp => ?_
    exact (hmap p (hpublished ▸ hp)).mono hgrown.subset
  · obtain ⟨hidle, hnot, hoff⟩ := hc.unmapped (hpublished ▸ hno)
    exact ⟨hpubs.trans hidle, hbusy hnot, hactive hoff⟩

theorem Rescans.kept (hr : Rescans session first cs removal busy m h) (hgrown : Grown first cs ds)
    (hpubs : m'.publications = m.publications) (hactive : m'.rebuildActive = m.rebuildActive)
    (hreplaced : m'.replaced = true → Coming session first ds removal busy' m' h') :
    Rescans session first ds removal busy' m' h' where
  active := hactive.trans hr.active
  later := by
    rw [hgrown.scanned]
    exact hr.later.mono hgrown.subset
  publishes := by
    rw [hpubs]
    exact hr.publishes.weaken (le_refl _) hgrown.requests fun q hq g heq =>
      (hq g heq).mono hgrown.subset
  replaced := hreplaced

theorem Rescans.fewer (h' : StoreHandle) (hr : Rescans session first cs removal busy m h)
    (hactive : m'.rebuildActive = m.rebuildActive)
    (hfewer : m'.publications.length ≤ m.publications.length) (hcs : ds = cs)
    (hreplaced : m'.replaced = true → Coming session first ds removal busy m' h') :
    Rescans session first ds removal busy m' h' where
  active := hactive.trans hr.active
  later := by
    rw [hcs]
    exact hr.later
  publishes := by
    rw [hcs]
    exact hr.publishes.weaken hfewer rfl fun q hq => hq
  replaced := hreplaced

/-! ## What moves keep -/

theorem Owes.owed {target : Option RelativePath} (ho : Owes m m') (h : m.Owed target) :
    m'.Owed target := by
  rcases h with hlost | hrequired | hrebuild | ⟨removed, hmem, htarget⟩
  · exact Or.inl (ho.available.trans hlost)
  · exact Or.inr (Or.inl (ho.required.trans hrequired))
  · exact Or.inr (Or.inr (Or.inl (ho.rebuild hrebuild)))
  · exact Or.inr (Or.inr (Or.inr ⟨removed, ho.prefixes hmem, htarget⟩))

theorem EndsWithout.owed {pending : PendingPublication} {target : Option RelativePath}
    (he : EndsWithout pending m m') (h : m.Owed target) : m'.Owed target := by
  cases he with
  | scanOver notOverlay owes => exact owes.owed h
  | unavailable lost owes => exact owes.owed h
  | loses loses => exact Or.inl loses.available
  | invalidates invalidates => exact Or.inr (Or.inl invalidates.required)

theorem EndsWithout.overlay {removed : RelativePath} (he : EndsWithout (.Overlay removed) m m')
    (target : Option RelativePath) : m'.Owed target := by
  cases he with
  | scanOver notOverlay owes => exact absurd rfl (notOverlay removed)
  | unavailable lost owes => exact Or.inl (owes.available.trans lost)
  | loses loses => exact Or.inl loses.available
  | invalidates invalidates => exact Or.inr (Or.inl invalidates.required)

theorem EndedRemoval.Known.queues (hk : removal.Known h) {commands : List StoreCommand}
    (hq : StoreHandle.Queues h h' commands) : removal.Known h' := by
  intro l hl
  rw [hq.same.latest]
  exact hk l hl

theorem EndedRemoval.Known.noted (hk : removal.Known h) (g : ScanGeneration) :
    removal.Known (h.noteGeneration g) := by
  intro l hl
  obtain ⟨l', hl', hle⟩ := hk l hl
  exact ⟨_, StoreHandle.latest_noteGeneration g hl', le_trans hle (le_max_left _ _)⟩

theorem EndedRemoval.Known.takes (hk : removal.Known h) {result : StoreResult}
    (ht : StoreHandle.Takes h h' result) : removal.Known h' := by
  intro l hl
  obtain ⟨l', hl', hle⟩ := hk l hl
  obtain ⟨l'', hl'', hle'⟩ := ht.latest l' hl'
  exact ⟨l'', hl'', le_trans hle hle'⟩

theorem Move.latest {kind : StepKind} {x y : MapState × StoreHandle} (hmove : Move kind x y)
    (hk : removal.Known x.2) : removal.Known y.2 := by
  cases hmove with
  | owes same owes aside => exact hk
  | loses same loses aside => exact hk
  | invalidates same invalidates => exact hk
  | adds available installed held added => exact hk
  | sends queues quiet => exact hk.queues queues
  | asksOverlay idle installed next base oldest open_ neutral queues noted asked =>
    rw [noted]
    exact (hk.queues queues).noted _
  | takes polls takes notice => exact hk.takes takes
  | stray polls takes answer idle => exact hk.takes takes
  | ends polls takes answer oldest ends => exact hk.takes takes
  | installs polls takes answer oldest available same =>
    have hnext := hk.takes takes
    exact hnext
  | fails polls takes idle none_ loses => exact hk.takes takes
  | stops polls told gone none_ loses => exact hk

theorem Move.overlayFirst {kind : StepKind} {x y : MapState × StoreHandle} (hmove : Move kind x y)
    (hv : x.1.OverlayFirst) : y.1.OverlayFirst := by
  have hrest {m m' : MapState} {pending : PendingPublication}
      (hv : m.OverlayFirst) (holdest : m.publications = pending :: m'.publications) :
      m'.OverlayFirst := by
    intro next rest heq removed hmem
    refine hv _ _ holdest removed ?_
    rw [heq]
    exact List.mem_cons_of_mem _ hmem
  have hnone {m : MapState} (hnone : m.publications = []) : m.OverlayFirst := by
    intro next rest heq
    rw [hnone] at heq
    cases heq
  cases hmove with
  | owes same owes aside => exact fun pending rest heq => hv pending rest (same.symm.trans heq)
  | loses same loses aside => exact fun pending rest heq => hv pending rest (same.symm.trans heq)
  | invalidates same invalidates =>
    exact fun pending rest heq => hv pending rest (same.symm.trans heq)
  | adds available installed held added =>
    subst added
    exact hv
  | sends queues quiet => exact hv
  | asksOverlay idle installed next base oldest open_ neutral queues noted asked =>
    rw [asked]
    intro pending rest heq removed hmem
    cases heq
    exact absurd hmem List.not_mem_nil
  | takes polls takes notice => exact hv
  | stray polls takes answer idle => exact hv
  | ends polls takes answer oldest ends => exact hrest hv oldest
  | installs polls takes answer oldest available same => exact hrest hv oldest
  | fails polls takes idle none_ loses => exact hnone none_
  | stops polls told gone none_ loses => exact hnone none_

theorem MapState.OverlayFirst.publishes (hv : m.OverlayFirst) {pending : PendingPublication}
    (hscan : ∀ removed, pending ≠ .Overlay removed) :
    ({ m with publications := m.publications ++ [pending] } : MapState).OverlayFirst := by
  intro oldest rest heq removed hmem
  have hall : m.publications ++ [pending] = oldest :: rest := heq
  cases hpubs : m.publications with
  | nil =>
    rw [hpubs] at hall
    obtain ⟨-, rfl⟩ := List.cons.inj hall
    exact List.not_mem_nil hmem
  | cons first later =>
    rw [hpubs] at hall
    obtain ⟨-, rfl⟩ := List.cons.inj hall
    rcases List.mem_append.mp hmem with hmem | hmem
    · exact hv _ _ hpubs removed hmem
    · exact hscan removed (List.mem_singleton.mp hmem).symm

/-- What the moves of a call need to know, and keep. -/
structure Between (session : ScanSessionId) (first : ScanGeneration) (engine : StoreEngine)
    (applied : List StoreCommand) (x : MapState × StoreHandle) : Prop where
  numbers : MapsNumbered session first x.2 engine applied
  outstanding : Outstanding first x.1.publications x.2 engine applied
  overlayFirst : x.1.OverlayFirst

section
variable {kind : StepKind} {engine : StoreEngine} {applied : List StoreCommand}
  {x y : MapState × StoreHandle} {result : StoreResult} {pending : PendingPublication}
  {p : PublishedGeneration} {request : OverlayRequest} {notes : List StoreCommand}

theorem Between.move (hb : Between session first engine applied x) (hcalm : kind.calm)
    (hmove : Move kind x y) : Between session first engine applied y :=
  ⟨(hb.numbers.move hmove).1, hb.outstanding.move hcalm hmove, hmove.overlayFirst hb.overlayFirst⟩

/-- An overlay is the only request outstanding once it is asked for. -/
theorem Recent.overlay {h₁ : StoreHandle} {kind : StoreRequest → Prop}
    (hq : StoreHandle.Queues h h₁ (notes ++ [.Overlay request])) (hkind : kind (.Overlay request)) :
    Recent first (applied ++ h₁.queued) 1 kind := by
  have hnone : Recent first (applied ++ h.queued ++ notes) 0 kind := .nil
  refine hnone.asked (q := .Overlay request) ?_ hkind
  rw [hq.queued, ← List.append_assoc, ← List.append_assoc,
    requests_append _ (applied ++ h.queued ++ notes)]
  rfl

/-- An overlay is asked for whose map will leave the removal out. -/
theorem Coming.asked {h₁ : StoreHandle}
    (hq : StoreHandle.Queues h h₁ (notes ++ [.Overlay request]))
    (hpubs : m'.publications = [.Overlay request.replacedPrefix]) (hinstalled : h.published = some p)
    (hleaves : LeavesOut session first (applied ++ h₁.queued) removal request.generation) :
    Coming session first (applied ++ (h₁.noteGeneration request.generation).queued) removal busy m'
      (h₁.noteGeneration request.generation) := by
  refine ⟨?_, Or.inl ⟨_, _, hpubs⟩, fun hno => ?_⟩
  · rw [hpubs]
    change Recent first (applied ++ h₁.queued) 1 _
    refine Recent.overlay hq fun r hr => ?_
    cases hr
    exact hleaves
  · have hsame : (h₁.noteGeneration request.generation).published = h.published := hq.same.published
    rw [hsame, hinstalled] at hno
    cases hno

/-- The oldest publication, its request and those behind it. -/
theorem Between.oldest (hb : Between session first engine applied (m, h))
    (htakes : StoreHandle.Takes h h' result) (hanswer : result.isAnswer = true)
    {rest : List PendingPublication} (holdest : m.publications = pending :: rest) :
    ∃ answered q late, requests first (applied ++ h.queued) = answered ++ q :: late ∧
      late.length = rest.length ∧ pending.Asks q ∧ q.AnsweredBy result ∧
      List.Forall₂ PendingPublication.Asks rest late := by
  obtain ⟨pending', rest', answered, q, waiting, heq, hasks, hq, hrequests, -, hrest⟩ :=
    hb.outstanding.oldest htakes hanswer
  obtain ⟨rfl, rfl⟩ := List.cons.inj (holdest.symm.trans heq)
  refine ⟨answered, q, _, ?_, hrest.length_eq.symm, hasks, hq, hrest⟩
  rw [requests_append, hrequests, List.append_assoc]
  rfl

/-- The map installed, where the removal was on its way out. -/
theorem Coming.installs (hc : Coming session first (applied ++ h.queued) removal busy m h)
    (hb : Between session first engine applied (m, h)) (htakes : StoreHandle.Takes h h' result)
    (hanswer : result.answer? = some (.ok (.Published p)))
    (holdest : m.publications = pending :: m'.publications) :
    Coming session first (applied ++ h'.queued) removal busy m' (h'.install (.Published p)) := by
  obtain ⟨answered, q, late, hrequests, hlength, hasks, hq, -⟩ :=
    hb.oldest htakes (by unfold StoreResult.isAnswer; rw [hanswer]; rfl) holdest
  have hmem : q ∈ requests first (applied ++ h.queued) := by
    rw [hrequests]
    exact List.mem_append_right _ List.mem_cons_self
  have hgeneration : p.manifest.generation = q.generation := hq.generation hanswer
  rw [htakes.queued]
  refine ⟨?_, Or.inr fun p' hp' => ?_, fun hno => (by cases hno)⟩
  · refine hc.overlays.weaken ?_ rfl fun q hq => hq
    rw [holdest]
    exact Nat.le_succ _
  · cases hp'
    rw [hgeneration]
    cases q with
    | Overlay request =>
      refine hc.overlays answered _ hrequests ?_ _ List.mem_cons_self request rfl
      rw [holdest, List.length_cons, List.length_cons, hlength]
    | Publish g =>
      -- a later scan: what it replaces left the removal out, and was older
      have hmap : ∀ p, h.published = some p →
          LeavesOut session first (applied ++ h.queued) removal p.manifest.generation := by
        rcases hc.map with ⟨removed, rest, heq⟩ | hmap
        · rw [heq] at holdest
          obtain ⟨rfl, -⟩ := List.cons.inj holdest
          exact hasks.elim
        · exact hmap
      cases hpublished : h.published with
      | none =>
        have hidle := (hc.unmapped hpublished).1
        rw [hidle] at holdest
        cases holdest
      | some old =>
        have hold := hmap old hpublished
        have hnewer : old.manifest.generation < g :=
          lt_of_lt_of_eq ((hb.numbers.installs htakes hanswer).2.2 old hpublished) hgeneration
        have hlater : ∀ l, removal.since = some l → l < g :=
          fun l hl => lt_trans (hold.later hl) hnewer
        rcases begun_of_publish hmem with rfl | hbegun
        · have hfirst := hb.numbers.first_le hpublished
          exact absurd hnewer (not_lt_of_ge hfirst)
        · exact .scanned hbegun hlater

/-- What an overlay request may count on when it is asked for. -/
theorem Between.past (hb : Between session first engine applied (m, h)) {h₁ : StoreHandle}
    (hinstalled : h.published = some p) {next : ScanGeneration} (hnext : h.nextGeneration = some next)
    (hq : StoreHandle.Queues h h₁ (notes ++ [.Overlay request])) :
    p.manifest.generation < next ∧ applied ++ h.queued ⊆ applied ++ h₁.queued ∧
      .Overlay request ∈ applied ++ h₁.queued := by
  refine ⟨?_, ?_, ?_⟩
  · refine hb.numbers.past_latest hnext _ ?_
    refine known_append _ (hb.numbers.past _ (List.mem_append_left _ ?_))
    rw [hinstalled]
    exact List.mem_singleton_self _
  · rw [hq.queued, ← List.append_assoc]
    exact List.subset_append_left _ _
  · rw [hq.queued]
    exact List.mem_append_right _ (List.mem_append_right _
      (List.mem_append_right _ (List.mem_singleton_self _)))

theorem EndedRemoval.Known.lt (hk : removal.Known h) {next : ScanGeneration}
    (hnext : h.nextGeneration = some next) : ∀ l, removal.since = some l → l < next := by
  intro l hl
  obtain ⟨l', hl', hle⟩ := hk l hl
  exact lt_of_le_of_lt hle (StoreHandle.latest_lt hl' hnext)

/-- A removal owed stays so, or an overlay is asked for it. -/
theorem MapState.Owed.move (hb : Between session first engine applied x) (hk : removal.Known x.2)
    (ho : x.1.Owed removal.target) (hmove : Move kind x y) :
    y.1.Owed removal.target ∨
      Coming session first (applied ++ y.2.queued) removal busy y.1 y.2 := by
  cases hmove with
  | owes same owes aside => exact Or.inl (owes.owed ho)
  | loses same loses aside => exact Or.inl (Or.inl loses.available)
  | invalidates same invalidates => exact Or.inl (Or.inr (Or.inl invalidates.required))
  | adds available installed held added =>
    subst added
    rcases ho with hlost | hrequired | hrebuild | ⟨removed, hmem, htarget⟩
    · exact Or.inl (Or.inl hlost)
    · exact Or.inl (Or.inr (Or.inl hrequired))
    · exact Or.inl (Or.inr (Or.inr (Or.inl hrebuild)))
    · exact Or.inl (Or.inr (Or.inr (Or.inr ⟨removed, List.mem_append_left _ hmem, htarget⟩)))
  | sends queues quiet => exact Or.inl ho
  | @asksOverlay m m' h h₁ h' p request notes later idle installed next base oldest open_ neutral queues
      noted asked =>
    rw [noted]
    rcases ho with hlost | hrequired | hrebuild | ⟨removed, hmem, htarget⟩
    · exact Or.inl (Or.inl (by rw [asked]; exact hlost))
    · exact Or.inl (Or.inr (Or.inl (by rw [asked]; exact hrequired)))
    · exact Or.inl (Or.inr (Or.inr (Or.inl (by rw [asked]; exact hrebuild))))
    · rw [show _ = _ from oldest] at hmem
      rcases List.mem_cons.mp hmem with rfl | hmem
      · refine Or.inr (Coming.asked queues (by rw [asked]) installed ?_)
        exact .overlaid (hb.past installed next queues).2.2 htarget (hk.lt next)
      · refine Or.inl (Or.inr (Or.inr (Or.inr ⟨removed, ?_, htarget⟩)))
        rw [asked]
        exact hmem
  | takes polls takes notice => exact Or.inl ho
  | stray polls takes answer idle => exact Or.inl ho
  | ends polls takes answer oldest ends => exact Or.inl (ends.owed ho)
  | installs polls takes answer oldest available same =>
    rcases same with same | ⟨-, same⟩
    · rw [same]
      exact Or.inl ho
    · rw [same]
      exact Or.inl ho
  | fails polls takes idle none_ loses => exact Or.inl (Or.inl loses.available)
  | stops polls told gone none_ loses => exact Or.inl (Or.inl loses.available)

/-- What is on its way out stays so, or is owed again. -/
theorem Coming.move (hb : Between session first engine applied x)
    (hc : Coming session first (applied ++ x.2.queued) removal busy x.1 x.2)
    (hmove : Move kind x y) : y.1.Owed removal.target ∨
      Coming session first (applied ++ y.2.queued) removal busy y.1 y.2 := by
  have hsame {m m' : MapState} {h : StoreHandle}
      (hc : Coming session first (applied ++ h.queued) removal busy m h)
      (hpubs : m'.publications = m.publications) (hrebuild : SameRebuild m m') :
      Coming session first (applied ++ h.queued) removal busy m' h :=
    hc.kept .refl hpubs rfl id fun hoff => hrebuild.active.trans hoff
  have htakes {m : MapState} {h h' : StoreHandle} {result : StoreResult}
      (hc : Coming session first (applied ++ h.queued) removal busy m h)
      (ht : StoreHandle.Takes h h' result) :
      Coming session first (applied ++ h'.queued) removal busy m h' := by
    rw [ht.queued]
    exact hc.kept .refl rfl ht.published id id
  cases hmove with
  | owes same owes aside => exact Or.inr (hsame hc same owes.toSameRebuild)
  | loses same loses aside => exact Or.inr (hsame hc same loses.toSameRebuild)
  | invalidates same invalidates => exact Or.inr (hsame hc same invalidates.toSameRebuild)
  | adds available installed held added =>
    subst added
    exact Or.inr (hc.kept .refl rfl rfl id id)
  | @sends m h h' commands queues quiet =>
    refine Or.inr ?_
    change Coming session first (applied ++ h'.queued) removal busy m h'
    rw [queues.queued, ← List.append_assoc]
    exact hc.kept (.quiet fun c hc => isRequest_quiet (quiet c hc)) rfl queues.same.published id id
  | @asksOverlay m m' h h₁ h' p request notes later idle installed next base oldest open_ neutral queues
      noted asked =>
    rw [noted]
    refine Or.inr (Coming.asked queues (by rw [asked]) installed ?_)
    obtain ⟨hnewer, hsub, hmem⟩ := hb.past installed next queues
    rcases hc.map with ⟨removed, rest, heq⟩ | hmap
    · rw [show _ = _ from idle] at heq
      cases heq
    · exact .carried hmem base (hb.numbers.installed p installed) hnewer
        ((hmap p installed).mono hsub)
  | takes polls takes notice => exact Or.inr (htakes hc takes)
  | stray polls takes answer idle => exact Or.inr (htakes hc takes)
  | @ends m m' h h' result pending polls takes answer oldest ends =>
    cases pending with
    | Overlay removed => exact Or.inl (ends.overlay _)
    | _ =>
      refine Or.inr ⟨?_, ?_, fun hno => ?_⟩
      · rw [takes.queued]
        refine hc.overlays.weaken ?_ rfl fun q hq => hq
        rw [show m.publications = _ from oldest]
        exact Nat.le_succ _
      · rcases hc.map with ⟨removed, rest, heq⟩ | hmap
        · rw [show m.publications = _ from oldest] at heq
          cases heq
        · rw [takes.queued]
          exact Or.inr fun p hp => hmap p (takes.published ▸ hp)
      · have hidle := (hc.unmapped (takes.published ▸ hno)).1
        rw [show m.publications = _ from oldest] at hidle
        cases hidle
  | installs polls takes answer oldest available same =>
    have hnext := Coming.installs hc hb takes answer oldest
    exact Or.inr hnext
  | fails polls takes idle none_ loses => exact Or.inl (Or.inl loses.available)
  | stops polls told gone none_ loses => exact Or.inl (Or.inl loses.available)

/-- Behind a rebuild's publication no overlay is outstanding. -/
theorem Between.replaced (hb : Between session first engine applied (m, h))
    (htakes : StoreHandle.Takes h h' result)
    (hanswer : result.answer? = some (.ok (.Published p)))
    (holdest : m.publications = .Rebuild :: m'.publications)
    (hr : Rescans session first (applied ++ h.queued) removal busy m h) :
    Coming session first (applied ++ h'.queued) removal busy m' (h'.install (.Published p)) := by
  obtain ⟨answered, q, late, hrequests, hlength, hasks, hq, hrest⟩ :=
    hb.oldest htakes (by unfold StoreResult.isAnswer; rw [hanswer]; rfl) holdest
  have hgeneration : p.manifest.generation = q.generation := hq.generation hanswer
  rw [htakes.queued]
  refine ⟨fun answered' late' heq hle q' hq' request hrequest => ?_, Or.inr fun p' hp' => ?_,
    fun hno => (by cases hno)⟩
  · -- the requests behind it are those of the publications behind it
    have hsuffix : late' <:+ late := by
      have hall : answered' ++ late' = (answered ++ [q]) ++ late := by
        rw [← heq, hrequests, List.append_assoc]
        rfl
      refine List.suffix_of_suffix_length_le ⟨answered', hall⟩ (List.suffix_append _ _) ?_
      rw [hlength]
      exact hle
    rw [hrequest] at hq'
    exact absurd (asks_mem hrest (hsuffix.subset hq')) (hb.overlayFirst _ _ holdest _)
  · cases hp'
    rw [hgeneration]
    cases q with
    | Overlay request => exact hasks.elim
    | Publish g =>
      refine hr.publishes answered _ hrequests ?_ _ List.mem_cons_self g rfl
      rw [holdest, List.length_cons, List.length_cons, hlength]

/-- A rebuild goes on, is owed again, or installed its map. -/
theorem Rescans.move (hb : Between session first engine applied x)
    (hr : Rescans session first (applied ++ x.2.queued) removal busy x.1 x.2)
    (hmove : Move kind x y) : y.1.Owed removal.target ∨
      Rescans session first (applied ++ y.2.queued) removal busy y.1 y.2 := by
  -- a replacement installed before is what the map installed is judged by
  have hstep (hreplaced : x.1.replaced = true) := Coming.move hb (hr.replaced hreplaced) hmove
  have hkept {m' : MapState} {h' : StoreHandle} {cs : List StoreCommand}
      (hgrown : Grown first (applied ++ x.2.queued) cs) (hpubs : m'.publications = x.1.publications)
      (hactive : m'.rebuildActive = x.1.rebuildActive)
      (hreplaced : m'.replaced = true → x.1.replaced = true)
      (hnext : x.1.replaced = true → m'.Owed removal.target ∨
        Coming session first cs removal busy m' h') :
      m'.Owed removal.target ∨ Rescans session first cs removal busy m' h' := by
    cases hrep : m'.replaced with
    | false =>
      exact Or.inr (hr.kept hgrown hpubs hactive fun hno => by rw [hrep] at hno; cases hno)
    | true => exact (hnext (hreplaced hrep)).imp id fun hc => hr.kept hgrown hpubs hactive fun _ => hc
  cases hmove with
  | owes same owes aside =>
    exact hkept .refl same owes.active owes.toSameRebuild.replaced hstep
  | loses same loses aside => exact Or.inl (Or.inl loses.available)
  | invalidates same invalidates => exact Or.inl (Or.inr (Or.inl invalidates.required))
  | adds available installed held added =>
    subst added
    exact hkept .refl rfl rfl id hstep
  | @sends m h h' commands queues quiet =>
    refine hkept ?_ rfl rfl id hstep
    change Grown first (applied ++ h.queued) (applied ++ h'.queued)
    rw [queues.queued, ← List.append_assoc]
    exact .quiet fun c hc => isRequest_quiet (quiet c hc)
  | @asksOverlay m m' h h₁ h' p request notes later idle installed next base oldest open_ neutral queues
      noted asked =>
    have hsub := (hb.past installed next queues).2.1
    rw [noted] at hstep ⊢
    have hscanned : lastScanned first (applied ++ (h₁.noteGeneration request.generation).queued) =
        lastScanned first (applied ++ h.queued) := by
      rw [show (h₁.noteGeneration request.generation).queued = h₁.queued from rfl, queues.queued,
        ← List.append_assoc, ← List.append_assoc, lastScanned_append]
      exact (Grown.quiet fun c hc => isRequest_quiet (Or.inl (neutral c hc))).scanned
    have hnext (hc : m'.replaced = true → Coming session first
        (applied ++ (h₁.noteGeneration request.generation).queued) removal busy m'
        (h₁.noteGeneration request.generation)) :
        Rescans session first (applied ++ (h₁.noteGeneration request.generation).queued) removal
          busy m' (h₁.noteGeneration request.generation) := by
      refine ⟨by rw [asked]; exact hr.active, ?_, ?_, hc⟩
      · rw [hscanned]
        exact hr.later.mono hsub
      · rw [asked]
        change Recent first (applied ++ h₁.queued) 1 _
        refine Recent.overlay queues fun g hg => ?_
        cases hg
    have hreplaced : m'.replaced = m.replaced := by rw [asked]; rfl
    cases hrep : m.replaced with
    | false => exact Or.inr (hnext fun hno => by rw [hreplaced, hrep] at hno; cases hno)
    | true => exact (hstep hrep).imp id fun hc => hnext fun _ => hc
  | @takes m h h' result polls takes notice =>
    refine hkept ?_ rfl rfl id hstep
    change Grown first (applied ++ h.queued) (applied ++ h'.queued)
    rw [takes.queued]
    exact .refl
  | @stray m h h' result polls takes answer idle =>
    refine hkept ?_ rfl rfl id hstep
    change Grown first (applied ++ h.queued) (applied ++ h'.queued)
    rw [takes.queued]
    exact .refl
  | @ends m m' h h' result pending polls takes answer oldest ends =>
    have hfewer : m'.publications.length ≤ m.publications.length := by
      rw [oldest]
      exact Nat.le_succ _
    have hqueued : applied ++ h'.queued = applied ++ h.queued := by rw [takes.queued]
    have hnext := hr.fewer h' ends.same.active hfewer hqueued
    cases hrep : m'.replaced with
    | false => exact Or.inr (hnext fun hno => by rw [hrep] at hno; cases hno)
    | true => exact (hstep (ends.same.replaced hrep)).imp id fun hc => hnext fun _ => hc
  | @installs m m' h h₁ result pending p polls takes answer oldest available same =>
    have hfewer : m'.publications.length ≤ m.publications.length := by
      rw [oldest]
      exact Nat.le_succ _
    have hqueued : applied ++ h₁.queued = applied ++ h.queued := by rw [takes.queued]
    rcases same with same | ⟨rfl, same⟩
    · have hactive : m'.rebuildActive = m.rebuildActive := by rw [same]
      have hreplaced : m'.replaced = m.replaced := by rw [same]; rfl
      have hnext := hr.fewer (h₁.install (.Published p)) hactive hfewer hqueued
      cases hrep : m.replaced with
      | false => exact Or.inr (hnext fun hno => by rw [hreplaced, hrep] at hno; cases hno)
      | true => exact (hstep hrep).imp id fun hc => hnext fun _ => hc
    · have hactive : m'.rebuildActive = m.rebuildActive := by rw [same]
      have hcoming := hb.replaced takes answer oldest hr
      exact Or.inr (hr.fewer _ hactive hfewer hqueued fun _ => hcoming)
  | fails polls takes idle none_ loses => exact Or.inl (Or.inl loses.available)
  | stops polls told gone none_ loses => exact Or.inl (Or.inl loses.available)

theorem RemovalHeld.move (hb : Between session first engine applied x) (hk : removal.Known x.2)
    (hs : RemovalHeld session first (applied ++ x.2.queued) removal busy x.1 x.2) (hmove : Move kind x y) :
    RemovalHeld session first (applied ++ y.2.queued) removal busy y.1 y.2 := by
  rcases hs with ho | hr | hc
  · exact (ho.move hb hk hmove).imp id Or.inr
  · exact (hr.move hb hmove).imp id Or.inl
  · exact (hc.move hb hmove).imp id Or.inr

theorem Between.moves (hb : Between session first engine applied x) (hcalm : kind.calm)
    (hmoves : Moves kind x y) : Between session first engine applied y := by
  induction hmoves with
  | refl => exact hb
  | tail _ hmove ih => exact ih.move hcalm hmove

theorem RemovalHeld.moves (hb : Between session first engine applied x) (hcalm : kind.calm)
    (hk : removal.Known x.2)
    (hs : RemovalHeld session first (applied ++ x.2.queued) removal busy x.1 x.2)
    (hmoves : Moves kind x y) :
    removal.Known y.2 ∧ RemovalHeld session first (applied ++ y.2.queued) removal busy y.1 y.2 := by
  induction hmoves with
  | refl => exact ⟨hk, hs⟩
  | tail hbefore hmove ih =>
    exact ⟨hmove.latest ih.1, ih.2.move (hb.moves hcalm hbefore) ih.1 hmove⟩

theorem known_moves (hk : removal.Known x.2) (hmoves : Moves kind x y) : removal.Known y.2 := by
  induction hmoves with
  | refl => exact hk
  | tail _ hmove ih => exact hmove.latest ih

end

end Excise
