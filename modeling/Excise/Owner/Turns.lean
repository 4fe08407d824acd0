import Excise.Owner.Loop
import Excise.Owner.Moves

/-!
# Turns of the owner loop

Every step of the machine is a chain of the turns below: moves of the app, a rebuild begun or over,
a scan over, a publication asked for, or what the thread does.
-/

namespace Excise
set_option autoImplicit false

/-- A finished publication that was a rebuild's. -/
def FinishedPublication.ofRebuild : FinishedPublication → Bool
  | .Primary => false
  | _ => true

namespace MapState

/-- A rebuild has begun. -/
def begun (m : MapState) : MapState :=
  { m with
    scanStoreAvailable := true
    scanStoreFailure := none
    rebuildActive := true
    rebuildInvalidated := false
    rebuildTarget := some .root
    rebuildRequired := false }

/-- A rebuild is over, as it ended. -/
def ended (m : MapState) (rest : List FinishedPublication) : MapState :=
  { m with
    finishedPublications := rest
    rebuildTarget := none
    rebuildInvalidated := false
    rebuildActive := false
    rebuildRequired := m.rebuildInvalidated }

/-- A rebuild was cancelled. -/
def cancelled (m : MapState) (available : Bool) (rest : List FinishedPublication) : MapState :=
  { m with
    finishedPublications := rest
    rebuildActive := false
    rebuildInvalidated := false
    rebuildTarget := none
    rebuildRequired := true
    scanStoreAvailable := available }

end MapState

def StoreResult.isFailure : StoreResult → Bool
  | .Failure _ => true
  | _ => false

inductive LoopTurn (kind : StepKind) (s : OwnerLoop) : OwnerLoop → Prop where
  | calls {a : App} (moves : Moves kind s.app.book a.book) : LoopTurn kind s { s with app := a }
  | removes {a : App} {target : Option RelativePath}
      (moves : MovesOwing kind target s.app.book a.book) :
      LoopTurn kind s { s with
        app := a, removals := s.removals ++ [⟨target, s.app.scanStore.latestGeneration⟩] }
  | begins {a : App} {next : ScanGeneration} {h : StoreHandle} {notes : List StoreCommand}
      (primary : s.primaryScanActive = false) (rebuild : s.rebuildActive = false)
      (required : s.app.map.rebuildRequired = true) (idle : s.app.map.publications = [])
      (finished : s.app.map.finishedPublications = []) (chain : s.app.removalChainPending = false)
      (newest : s.app.scanStore.nextGeneration = some next) (open_ : s.app.scanStore.gone = false)
      (neutral : ∀ c ∈ notes, c.isNeutral = true)
      (queues : StoreHandle.Queues s.app.scanStore h (notes ++ [.BeginGeneration next]))
      (book : a.book = (s.app.map.begun, h.noteGeneration next)) :
      LoopTurn kind s { s with app := a, rebuildActive := true, scanning := true }
  | scanned (primary reduction : Bool) (asks : kind.finishes) (active : primary = true → s.primaryScanActive = true)
      (reducing : reduction = true →
        s.primaryReduction = true ∨ (s.primaryScanActive = true ∧ primary = false)) :
      LoopTurn kind s { s with
        scanning := false, primaryScanActive := primary, primaryReduction := reduction }
  | cancelsPrimary {a : App} {h : StoreHandle} {notes : List StoreCommand} (asks : kind.finishes)
      (primary : s.primaryScanActive = true) (open_ : s.app.scanStore.gone = false)
      (neutral : ∀ c ∈ notes, c.isNeutral = true)
      (queues : StoreHandle.Queues s.app.scanStore h (notes ++ [.CancelActive]))
      (book : a.book = ({ s.app.map with removals := .empty }, h)) :
      LoopTurn kind s { s with app := a, scanning := false, primaryScanActive := false }
  | publishes {a : App} {pending : PendingPublication} {h : StoreHandle} {notes : List StoreCommand}
      (asks : kind.finishes) (primary : s.primaryScanActive = false)
      (asked : (pending = .Primary ∧ s.primaryReduction = true) ∨ (pending = .Rebuild ∧ s.rebuildActive = true ∧
        s.scanning = false ∧ s.app.map.rebuildInvalidated = false))
      (open_ : s.app.scanStore.gone = false) (neutral : ∀ c ∈ notes, c.isNeutral = true)
      (queues : StoreHandle.Queues s.app.scanStore h (notes ++ [.Publish]))
      (book : a.book =
        ({ s.app.map with publications := s.app.map.publications ++ [pending] }, h)) :
      LoopTurn kind s { s with app := a }
  | ends {a : App} {publication : FinishedPublication} (asks : kind.finishes) (rebuild : s.rebuildActive = true)
      (still : s.scanning = false)
      (without : publication.isReplacement = true → s.app.map.rebuildInvalidated = true)
      (book : a.book = ({ s.app.map with
        finishedPublications := s.app.map.finishedPublications ++ [publication] },
        s.app.scanStore)) : LoopTurn kind s { s with app := a }
  | finishes {a : App} {failure : Option OwnerFailure} {rest : List FinishedPublication}
      {target : RelativePath} (asks : kind.finishes) (known : s.app.map.rebuildTarget = some target)
      (oldest : s.app.map.finishedPublications = .Rebuild failure :: rest)
      (moves : Moves kind (s.app.map.ended rest, s.app.scanStore) a.book)
      (lost : s.app.map.rebuildInvalidated = false → failure.isSome = true →
        a.map.scanStoreAvailable = false) : LoopTurn kind s { s with app := a, rebuildActive := false }
  | cancels {a : App} {h : StoreHandle} {available : Bool} {rest : List FinishedPublication}
      {notes : List StoreCommand} (asks : kind.finishes) (active : s.app.map.rebuildActive = true)
      (still : s.scanning = false ∨ .RebuildCancelled ∈ s.app.map.finishedPublications)
      (later : rest ⊆ s.app.map.finishedPublications) (open_ : s.app.scanStore.gone = false)
      (neutral : ∀ c ∈ notes, c.isNeutral = true)
      (queues : StoreHandle.Queues s.app.scanStore h (notes ++ [.CancelActive]))
      (book : a.book = (s.app.map.cancelled available rest, h)) :
      LoopTurn kind s { s with app := a, rebuildActive := false }
  | reduced (asks : kind.finishes) : LoopTurn kind s { s with primaryReduction := false }
  | idles (asks : kind.finishes) (active : s.app.map.rebuildActive = false) :
      LoopTurn kind s { s with rebuildActive := false }
  | thread (io : EngineIo) (runs : kind.takes) : LoopTurn kind s (s.threadStep io)
  | threadEnds (runs : kind.takes) : LoopTurn kind s s.threadStop

abbrev LoopTurns (kind : StepKind) : OwnerLoop → OwnerLoop → Prop := Relation.ReflTransGen (LoopTurn kind)

/-! ## What moves keep -/

def MapState.RebuildEnding (m : MapState) : Prop :=
  .Rebuild ∈ m.publications ∨ ∃ f ∈ m.finishedPublications, f.ofRebuild = true

/-- What the moves of a call leave of a rebuild, and of a store that was never asked. -/
structure Frame (x y : MapState × StoreHandle) : Prop where
  active : y.1.rebuildActive = x.1.rebuildActive
  target : y.1.rebuildTarget = x.1.rebuildTarget
  ending : y.1.RebuildEnding → x.1.RebuildEnding
  marks : (y.1.rebuildRequired = x.1.rebuildRequired ∧
      y.1.rebuildInvalidated = x.1.rebuildInvalidated) ∨
    (y.1.rebuildRequired = true ∧
      y.1.rebuildInvalidated = (x.1.rebuildInvalidated || x.1.rebuildActive))
  unasked : x.1.publications = [] → x.2.published = none →
    y.1.publications = [] ∧ y.2.published = none

section
variable {kind : StepKind} {m m' : MapState} {h h' : StoreHandle}

theorem SameRebuild.ending (hs : SameRebuild m m') (hpubs : m'.publications ⊆ m.publications)
    (he : m'.RebuildEnding) : m.RebuildEnding := by
  rcases he with he | ⟨f, hf, hrebuild⟩
  · exact Or.inl (hpubs he)
  · rcases hs.ended f hf with hf | rfl | ⟨hf, -⟩
    · exact Or.inr ⟨f, hf, hrebuild⟩
    · cases hrebuild
    · exact Or.inl hf

theorem EndsWithout.same {pending : PendingPublication} (h : EndsWithout pending m m') :
    SameRebuild m m' := by
  cases h with
  | scanOver notOverlay owes => exact owes.toSameRebuild
  | unavailable lost owes => exact owes.toSameRebuild
  | loses loses => exact loses.toSameRebuild
  | invalidates invalidates => exact invalidates.toSameRebuild

theorem EndsWithout.marks {pending : PendingPublication} (h : EndsWithout pending m m') :
    (m'.rebuildRequired = m.rebuildRequired ∧ m'.rebuildInvalidated = m.rebuildInvalidated) ∨
      (m'.rebuildRequired = true ∧
        m'.rebuildInvalidated = (m.rebuildInvalidated || m.rebuildActive)) := by
  cases h with
  | scanOver notOverlay owes => exact Or.inl ⟨owes.required, owes.invalidated⟩
  | unavailable lost owes => exact Or.inl ⟨owes.required, owes.invalidated⟩
  | loses loses => exact Or.inl ⟨loses.required, loses.invalidated⟩
  | invalidates invalidates => exact Or.inr ⟨invalidates.required, invalidates.invalidated⟩

theorem SameRebuild.frame (hs : SameRebuild m m') (hpubs : m'.publications ⊆ m.publications)
    (hmarks : (m'.rebuildRequired = m.rebuildRequired ∧
        m'.rebuildInvalidated = m.rebuildInvalidated) ∨
      (m'.rebuildRequired = true ∧
        m'.rebuildInvalidated = (m.rebuildInvalidated || m.rebuildActive)))
    (hpublished : h'.published = h.published) : Frame (m, h) (m', h') :=
  ⟨hs.active, hs.target, hs.ending hpubs, hmarks, fun hidle hno =>
    ⟨List.subset_nil.mp fun x hx => by rw [← hidle]; exact hpubs hx, hpublished.trans hno⟩⟩

theorem Frame.refl (x : MapState × StoreHandle) : Frame x x :=
  ⟨rfl, rfl, fun h => h, Or.inl ⟨rfl, rfl⟩, fun hidle hno => ⟨hidle, hno⟩⟩

theorem Frame.trans {x y z : MapState × StoreHandle} (hxy : Frame x y) (hyz : Frame y z) :
    Frame x z := by
  refine ⟨hyz.active.trans hxy.active, hyz.target.trans hxy.target,
    fun he => hxy.ending (hyz.ending he), ?_, fun hidle hno => ?_⟩
  · rcases hyz.marks with ⟨hrequired, hinvalidated⟩ | ⟨hrequired, hinvalidated⟩
    · rw [hrequired, hinvalidated]
      exact hxy.marks
    · refine Or.inr ⟨hrequired, ?_⟩
      rw [hinvalidated, hxy.active]
      rcases hxy.marks with ⟨-, hsame⟩ | ⟨-, hsame⟩
      · rw [hsame]
      · rw [hsame, Bool.or_assoc, Bool.or_self]
  · obtain ⟨hidle', hno'⟩ := hxy.unasked hidle hno
    exact hyz.unasked hidle' hno'

theorem Move.frame {x y : MapState × StoreHandle} (h : Move kind x y) : Frame x y := by
  cases h with
  | owes same owes aside =>
    exact owes.toSameRebuild.frame (by rw [same]; exact fun _ h => h)
      (Or.inl ⟨owes.required, owes.invalidated⟩) rfl
  | loses same loses aside =>
    exact loses.toSameRebuild.frame (by rw [same]; exact fun _ h => h)
      (Or.inl ⟨loses.required, loses.invalidated⟩) rfl
  | invalidates same invalidates =>
    exact invalidates.toSameRebuild.frame (by rw [same]; exact fun _ h => h)
      (Or.inr ⟨invalidates.required, invalidates.invalidated⟩) rfl
  | adds available installed held added =>
    subst added
    exact ⟨rfl, rfl, fun he => he, Or.inl ⟨rfl, rfl⟩, fun hidle hno => ⟨hidle, hno⟩⟩
  | sends queues quiet =>
    exact (SameRebuild.refl _).frame (fun _ h => h) (Or.inl ⟨rfl, rfl⟩) queues.same.published
  | asksOverlay idle installed next base oldest open_ neutral queues noted asked =>
    subst asked
    refine ⟨rfl, rfl, fun he => ?_, Or.inl ⟨rfl, rfl⟩, fun _ hno => ?_⟩
    · exact he.imp (fun hr => by rw [List.mem_singleton] at hr; cases hr) id
    · rw [installed] at hno
      cases hno
  | takes polls takes notice =>
    exact (SameRebuild.refl _).frame (fun _ h => h) (Or.inl ⟨rfl, rfl⟩) takes.published
  | stray polls takes answer idle =>
    exact (SameRebuild.refl _).frame (fun _ h => h) (Or.inl ⟨rfl, rfl⟩) takes.published
  | ends polls takes answer oldest ends =>
    refine ends.same.frame ?_ ends.marks takes.published
    rw [oldest]
    exact List.subset_cons_self _ _
  | installs polls takes answer oldest available same =>
    have hfirst {p : PendingPublication} {ps qs : List PendingPublication} (h : ps = p :: qs) :
        ps ≠ [] := by
      rw [h]
      exact List.cons_ne_nil p qs
    refine ⟨?_, ?_, fun he => ?_, ?_, fun hidle _ => absurd hidle (hfirst oldest)⟩
    · rcases same with same | ⟨-, same⟩ <;> rw [same]
    · rcases same with same | ⟨-, same⟩ <;> rw [same]
    · rcases he with he | ⟨f, hf, hrebuild⟩
      · refine Or.inl ?_
        rw [oldest]
        exact List.mem_cons_of_mem _ he
      · rcases same with same | ⟨rfl, same⟩
        · rw [same] at hf
          exact Or.inr ⟨f, hf, hrebuild⟩
        · refine Or.inl ?_
          rw [oldest]
          exact List.mem_cons_self
    · rcases same with same | ⟨-, same⟩ <;> rw [same] <;> exact Or.inl ⟨rfl, rfl⟩
  | fails polls takes idle none_ loses =>
    exact loses.toSameRebuild.frame (by rw [none_]; exact List.nil_subset _)
      (Or.inl ⟨loses.required, loses.invalidated⟩) takes.published
  | stops polls told gone none_ loses =>
    exact loses.toSameRebuild.frame (by rw [none_]; exact List.nil_subset _)
      (Or.inl ⟨loses.required, loses.invalidated⟩) rfl

theorem Moves.frame {x y : MapState × StoreHandle} (h : Moves kind x y) : Frame x y := by
  induction h with
  | refl => exact .refl x
  | tail _ hmove ih => exact ih.trans hmove.frame

end

/-! ## What every turn keeps -/

/-- What holds of a rebuild and a scan between two turns: of the loop's flags, the map it owes and
its end of the queues. -/
structure SteadyAt (scanning primary rebuild : Bool) (m : MapState) (h : StoreHandle) : Prop where
  threaded : h.threaded = true
  scanned : scanning = true → primary = true ∨ rebuild = true
  ending : m.RebuildEnding → scanning = false
  active : rebuild = m.rebuildActive
  target : m.rebuildTarget.isSome = m.rebuildActive
  marked : m.rebuildActive = true → m.rebuildRequired = m.rebuildInvalidated
  unmarked : m.rebuildActive = false → m.rebuildInvalidated = false
  primary : primary = true → rebuild = false ∧ m.publications = [] ∧ h.published = none

namespace SteadyAt
variable {scanning primary rebuild : Bool} {m m' : MapState} {h h' : StoreHandle}

theorem framed (hs : SteadyAt scanning primary rebuild m h) (hframe : Frame (m, h) (m', h'))
    (ht : h'.threaded = true) : SteadyAt scanning primary rebuild m' h' where
  threaded := ht
  scanned := hs.scanned
  ending := fun he => hs.ending (hframe.ending he)
  active := hs.active.trans hframe.active.symm
  target := by rw [show m'.rebuildTarget = m.rebuildTarget from hframe.target,
    show m'.rebuildActive = m.rebuildActive from hframe.active, hs.target]
  marked := by
    intro hactive
    have hactive' : m.rebuildActive = true := hframe.active.symm.trans hactive
    rcases hframe.marks with ⟨hrequired, hinvalidated⟩ | ⟨hrequired, hinvalidated⟩
    · exact hrequired.trans ((hs.marked hactive').trans hinvalidated.symm)
    · refine hrequired.trans (hinvalidated.trans ?_).symm
      rw [hactive', Bool.or_true]
  unmarked := by
    intro hactive
    have hactive' : m.rebuildActive = false := hframe.active.symm.trans hactive
    rcases hframe.marks with ⟨-, hinvalidated⟩ | ⟨-, hinvalidated⟩
    · exact hinvalidated.trans (hs.unmarked hactive')
    · refine hinvalidated.trans ?_
      rw [hactive', hs.unmarked hactive', Bool.or_self]
  primary := by
    intro hprimary
    obtain ⟨hno, hidle, hnone⟩ := hs.primary hprimary
    exact ⟨hno, hframe.unasked hidle hnone⟩

theorem resent (hs : SteadyAt scanning primary rebuild m h) (ht : h'.threaded = true)
    (hpublished : h'.published = h.published) : SteadyAt scanning primary rebuild m h' :=
  hs.framed ⟨rfl, rfl, fun he => he, Or.inl ⟨rfl, rfl⟩, fun hidle hno =>
    ⟨hidle, hpublished.trans hno⟩⟩ ht

theorem stilled (hs : SteadyAt scanning primary rebuild m h) {primary' : Bool}
    (hprimary : primary' = true → primary = true) : SteadyAt false primary' rebuild m h :=
  ⟨hs.threaded, fun hno => (by cases hno), fun _ => rfl, hs.active, hs.target, hs.marked, hs.unmarked,
    fun h => hs.primary (hprimary h)⟩

theorem still (hs : SteadyAt scanning primary rebuild m h) (hactive : m.rebuildActive = true) :
    primary = false := by
  cases hprimary : primary with
  | false => rfl
  | true =>
    obtain ⟨hno, -⟩ := hs.primary hprimary
    rw [hs.active.symm.trans hno] at hactive
    cases hactive

end SteadyAt

/-- The steps of the thread, and the one that takes its results. -/
def LoopStep.takes : LoopStep → Bool
  | .storeEvent _ | .threadStep _ | .threadStop => true
  | _ => false

/-- The steps that ask for a publication, end one, or take one that ended. -/
def LoopStep.finishes : LoopStep → Bool
  | .storeEvent _ | .finishedPublication _ | .scanFinished _ _ => true
  | _ => false

namespace OwnerLoop

def Steady (s : OwnerLoop) : Prop :=
  SteadyAt s.scanning s.primaryScanActive s.rebuildActive s.app.map s.app.scanStore

variable {kind : StepKind} {s s' : OwnerLoop}

theorem steady_start (session : ScanSessionId) (first : ScanGeneration) (page : SnapshotTree) :
    (start session first page).Steady := by
  refine ⟨rfl, fun _ => Or.inl rfl, ?_, rfl, rfl, fun _ => rfl, fun _ => rfl,
    fun _ => ⟨rfl, rfl, rfl⟩⟩
  rintro (hno | ⟨f, hno, -⟩)
  · exact absurd hno List.not_mem_nil
  · exact absurd hno List.not_mem_nil

theorem book_inj {a : App} {m : MapState} {h : StoreHandle} (hbook : a.book = (m, h)) :
    a.map = m ∧ a.scanStore = h := Prod.mk.inj hbook

theorem LoopTurn.steady (h : LoopTurn kind s s') (hs : s.Steady) : s'.Steady := by
  cases h with
  | calls moves => exact SteadyAt.framed hs moves.frame (moves.threaded hs.threaded)
  | removes moves => exact SteadyAt.framed hs moves.moves.frame (moves.moves.threaded hs.threaded)
  | begins primary rebuild required idle finished chain newest open_ neutral queues book =>
    obtain ⟨hmap, hstore⟩ := book_inj book
    change SteadyAt true s.primaryScanActive true _ _
    rw [hmap, hstore, primary]
    refine ⟨queues.threaded, fun _ => Or.inr rfl, ?_, rfl, rfl, fun _ => rfl,
      fun _ => rfl, fun hno => (by cases hno)⟩
    rintro (hno | ⟨f, hf, -⟩)
    · rw [show s.app.map.begun.publications = [] from idle] at hno
      exact absurd hno List.not_mem_nil
    · rw [show s.app.map.begun.finishedPublications = [] from finished] at hf
      exact absurd hf List.not_mem_nil
  | scanned primary reduction asks active reducing => exact SteadyAt.stilled hs active
  | reduced asks => exact hs
  | cancelsPrimary asks primary open_ neutral queues book =>
    obtain ⟨hmap, hstore⟩ := book_inj book
    change SteadyAt false false s.rebuildActive _ _
    rw [hmap, hstore]
    have hstilled : SteadyAt false false s.rebuildActive s.app.map s.app.scanStore :=
      SteadyAt.stilled hs fun hno => (by cases hno)
    have hkept := hstilled.resent queues.threaded queues.same.published
    exact ⟨hkept.threaded, hkept.scanned, hkept.ending, hkept.active, hkept.target, hkept.marked,
      hkept.unmarked, hkept.primary⟩
  | publishes asks primary asked open_ neutral queues book =>
    obtain ⟨hmap, hstore⟩ := book_inj book
    change SteadyAt s.scanning s.primaryScanActive s.rebuildActive _ _
    rw [hmap, hstore, primary]
    refine ⟨queues.threaded, by rw [← primary]; exact hs.scanned, ?_, hs.active, hs.target, hs.marked,
      hs.unmarked, fun hno => (by cases hno)⟩
    rintro (hrebuild | hfinished)
    · rcases List.mem_append.mp hrebuild with hrebuild | hrebuild
      · exact hs.ending (Or.inl hrebuild)
      · rcases asked with ⟨rfl, -⟩ | ⟨-, -, hstill, -⟩
        · cases List.mem_singleton.mp hrebuild
        · exact hstill
    · exact hs.ending (Or.inr hfinished)
  | ends asks rebuild still without book =>
    obtain ⟨hmap, hstore⟩ := book_inj book
    change SteadyAt s.scanning s.primaryScanActive s.rebuildActive _ _
    rw [hmap, hstore]
    exact ⟨hs.threaded, hs.scanned, fun _ => still, hs.active, hs.target, hs.marked, hs.unmarked,
      hs.primary⟩
  | @finishes a failure rest target asks known oldest moves lost =>
    have hstill : s.scanning = false := by
      refine hs.ending (Or.inr ⟨.Rebuild failure, ?_, rfl⟩)
      rw [oldest]
      exact List.mem_cons_self
    have hactive : s.app.map.rebuildActive = true := by
      rw [← hs.target, known]
      rfl
    refine SteadyAt.framed (m := s.app.map.ended _) ?_ moves.frame (moves.threaded hs.threaded)
    change SteadyAt s.scanning s.primaryScanActive false _ _
    rw [SteadyAt.still hs hactive, hstill]
    exact ⟨hs.threaded, fun hno => (by cases hno), fun _ => rfl, rfl, rfl, fun hno => (by cases hno),
      fun _ => rfl, fun hno => (by cases hno)⟩
  | cancels asks active still later open_ neutral queues book =>
    obtain ⟨hmap, hstore⟩ := book_inj book
    have hstill : s.scanning = false := by
      rcases still with still | hcancelled
      · exact still
      · exact hs.ending (Or.inr ⟨_, hcancelled, rfl⟩)
    change SteadyAt s.scanning s.primaryScanActive false _ _
    rw [hmap, hstore, SteadyAt.still hs active, hstill]
    exact ⟨queues.threaded, fun hno => (by cases hno), fun _ => rfl, rfl, rfl, fun hno => (by cases hno),
      fun _ => rfl, fun hno => (by cases hno)⟩
  | idles asks active =>
    have hoff : s.rebuildActive = false := hs.active.trans active
    change SteadyAt s.scanning s.primaryScanActive false _ _
    rw [← hoff]
    exact hs
  | thread io runs =>
    unfold threadStep
    split
    · split
      · exact hs
      · exact SteadyAt.resent hs rfl rfl
    · exact hs
  | threadEnds runs =>
    unfold threadStop
    split
    · exact SteadyAt.resent hs rfl rfl
    · exact hs

/-! ## Steps are turns -/

variable {env : OwnerEnv} {w : CallWorld}

theorem LoopTurns.calls {a : App} (moves : Moves kind s.app.book a.book) :
    LoopTurns kind s { s with app := a } := .single (.calls moves)

/-- A rebuild begins when nothing else goes on, or the app stays as it is. -/
theorem begins_generationRebuild {a : App} {begun : App × Bool} (ht : a.scanStore.threaded = true)
    (h : a.beginGenerationRebuild env = some begun) : begun = (a, false) ∨ (begun.2 = true ∧
      a.map.rebuildRequired = true ∧ a.map.publications = [] ∧ a.map.finishedPublications = [] ∧
      a.removalChainPending = false ∧ ∃ next h notes, a.scanStore.nextGeneration = some next ∧ a.scanStore.gone = false ∧
        (∀ c ∈ notes, c.isNeutral = true) ∧
        StoreHandle.Queues a.scanStore h (notes ++ [.BeginGeneration next]) ∧
        begun.1.book = (a.map.begun, h.noteGeneration next)) := by
  unfold App.beginGenerationRebuild at h
  split at h
  · exact Or.inl (Option.some.inj h).symm
  · rename_i hready
    split at h
    · cases h
    · rename_i next hnext
      split at h
      · cases h
      · rename_i store hbegin
        split at h
        · cases h
        · cases h
          obtain ⟨hgone, h₁, notes, rfl, hneutral, hq⟩ := StoreHandle.queues_beginGeneration ht hbegin
          simp only [App.scanStoreBusy, Bool.or_eq_true, Bool.not_eq_true', not_or,
            Bool.not_eq_true, Bool.not_eq_false, List.isEmpty_iff] at hready
          obtain ⟨⟨⟨hrequired, -⟩, -⟩, ⟨hpubs, hfinished⟩, hchain⟩ := hready
          exact Or.inr ⟨rfl, hrequired, hpubs, hfinished, hchain, next, h₁, notes, hnext, hgone, hneutral, hq,
            rfl⟩

theorem turns_startPending (ht : s.app.scanStore.threaded = true)
    (h : s.startPendingGenerationRebuild env = some s') : LoopTurns kind s s' := by
  unfold startPendingGenerationRebuild at h
  split at h
  · cases h
    exact .refl
  · rename_i hidle
    obtain ⟨begun, hbegun, rfl⟩ := Option.map_eq_some_iff.mp h
    rw [Bool.or_eq_true, not_or, Bool.not_eq_true, Bool.not_eq_true] at hidle
    rcases begins_generationRebuild ht hbegun with rfl | ⟨htrue, hrequired, hpubs, hfinished, hchain,
      next, h₁, notes, hnext, hgone, hneutral, hq, hbook⟩
    · exact .refl
    · rw [if_pos htrue]
      exact .single (.begins hidle.1 hidle.2 hrequired hpubs hfinished hchain hnext hgone hneutral hq hbook)

/-- A publication is asked for, or the map is given up. -/
theorem beginPublication_cases (env : OwnerEnv) (kind : StepKind) {a : App} (pending : PendingPublication)
    (ht : a.scanStore.threaded = true) :
    (∃ h notes, a.scanStore.gone = false ∧ (∀ c ∈ notes, c.isNeutral = true) ∧
      StoreHandle.Queues a.scanStore h (notes ++ [.Publish]) ∧
      a.beginPublication env pending = ({ a with
        scanStore := h
        map := { a.map with publications := a.map.publications ++ [pending] } }, true)) ∨
    ((a.beginPublication env pending).2 = false ∧
      Moves kind a.book (a.beginPublication env pending).1.book ∧
      (a.beginPublication env pending).1.map.scanStoreAvailable = false) := by
  unfold App.beginPublication
  split
  · rename_i hno
    exact Or.inr ⟨rfl, .refl, (Bool.not_eq_true' _).mp hno⟩
  · split
    · rename_i error store hs
      obtain ⟨commands, hq, hneutral⟩ := (StoreHandle.queues_beginPublication ht).2 hs
      refine Or.inr ⟨rfl, ?_, ?_⟩
      · exact (App.Moves.of_neutral ⟨commands, hq, hneutral⟩).trans (App.moves_abandonWithFailure env
          (a := { a with scanStore := store }) hq.threaded _)
      · rfl
    · rename_i store hs
      obtain ⟨hgone, notes, hneutral, hq⟩ :=
        (StoreHandle.queues_beginPublication (e := ⟨""⟩) ht).1 hs
      exact Or.inl ⟨store, notes, hgone, hneutral, hq, rfl⟩

/-- The first publication is asked for, or over without a map. -/
theorem turns_beginPrimary (hf : kind.finishes) (ht : s.app.scanStore.threaded = true) (hprimary : s.primaryScanActive = false)
    (hreduction : s.primaryReduction = true) :
    LoopTurns kind s { s with app := s.app.beginPrimaryPublication env w } := by
  unfold App.beginPrimaryPublication
  rcases beginPublication_cases env kind .Primary ht with
    ⟨h, notes, hgone, hneutral, hq, heq⟩ | ⟨hno, hmoves, hlost⟩
  · rw [heq]
    exact .single (.publishes hf hprimary (Or.inl ⟨rfl, hreduction⟩) hgone hneutral hq rfl)
  · dsimp only
    rw [hno, if_neg Bool.false_ne_true]
    have hts := Moves.threaded hmoves ht
    refine LoopTurns.calls ((hmoves.trans (App.moves_settleRemovals env w hts fun hyes => ?_)).trans
      (App.moves_finishedPrimary hf
        (a := (App.settleRemovalsBeforeFirstMap env w _).showScanResultsUnavailable)))
    rw [hlost] at hyes
    cases hyes

theorem turns_finishPrimaryScan {cancelled : Bool} (hf : kind.finishes) (ht : s.app.scanStore.threaded = true)
    (hprimary : s.primaryScanActive = true)
    (h : { s with scanning := false }.finishPrimaryScan env w cancelled = some s') :
    LoopTurns kind s s' := by
  unfold finishPrimaryScan at h
  dsimp only at h
  split at h
  · obtain ⟨app, happ, hrest⟩ := Option.bind_eq_some_iff.mp h
    unfold App.cancelPrimaryScan at happ
    split at happ
    · cases happ
    · rename_i store hs
      cases happ
      obtain ⟨hgone, notes, hneutral, hq⟩ := StoreHandle.queues_cancelActive ht hs
      refine .head (.cancelsPrimary (a := { s.app with
        scanStore := store, map := { s.app.map with removals := .empty } }) hf hprimary hgone hneutral hq
        rfl) (turns_startPending ?_ hrest)
      exact hq.threaded
  · cases h
    refine .head (.scanned false true hf (fun hno => (by cases hno)) fun _ => Or.inr ⟨hprimary, rfl⟩) ?_
    exact turns_beginPrimary hf (s := { s with
      scanning := false, primaryScanActive := false, primaryReduction := true }) ht rfl rfl

theorem turns_beginRebuild (hf : kind.finishes) (ht : s.app.scanStore.threaded = true) (hprimary : s.primaryScanActive = false)
    (hrebuild : s.rebuildActive = true) (hstill : s.scanning = false) :
    LoopTurns kind s { s with app := s.app.beginRebuildPublication env } := by
  unfold App.beginRebuildPublication
  split
  · rename_i hinvalidated
    exact .single (.ends hf hrebuild hstill (fun _ => hinvalidated) rfl)
  · rename_i hvalid
    split
    · exact .single (.ends hf hrebuild hstill (fun hno => (by cases hno)) rfl)
    · rcases beginPublication_cases env kind .Rebuild ht with
        ⟨h, notes, hgone, hneutral, hq, heq⟩ | ⟨hno, hmoves, hlost⟩
      · rw [heq]
        exact .single (.publishes hf hprimary
          (Or.inr ⟨rfl, hrebuild, hstill, Bool.eq_false_iff.mpr hvalid⟩) hgone hneutral hq rfl)
      · dsimp only
        rw [hno, if_neg Bool.false_ne_true]
        exact .head (.calls hmoves) (.single (.ends (s := { s with app := _ }) hf hrebuild hstill
          (fun hno => (by cases hno)) rfl))

/-- The replacement is shown, or no map is. -/
theorem moves_showReplacement {a : App} (hvalid : a.map.rebuildRequired = false)
    (current target : RelativePath) :
    Moves kind a.book (a.showReplacement env w current target).book := by
  have hload := App.loadEither_book env w { a with
    map := { a.map with rebuildRestartSuppressed := false }
    view := { a.view with
      pageCache := none, pageIsProvisional := false, pageHistory := []
      filter := none } } current target
  have howes : Move kind a.book ({ a.map with rebuildRestartSuppressed := false }, a.scanStore) :=
    .owes rfl ⟨⟨rfl, rfl, fun _ h => Or.inl h⟩, rfl, rfl, rfl, fun _ h => h, fun h => h, fun _ _ h => h⟩
      fun _ => rfl
  obtain ⟨hmap, hstore⟩ := book_inj hload
  unfold App.showReplacement
  dsimp only
  split
  · change Moves kind a.book ({ (App.map _) with scanStoreAvailable := false, scanStoreFailure := _ },
      (App.scanStore _))
    rw [hmap, hstore]
    exact .tail (.single howes) (.loses rfl ⟨⟨rfl, rfl, fun _ h => Or.inl h⟩, rfl, rfl, rfl,
      fun _ h => h, fun _ hyes => absurd (hvalid.symm.trans hyes) Bool.false_ne_true⟩ fun _ => rfl)
  · rw [App.resumePendingNavigation_book]
    exact (Relation.ReflTransGen.single howes).trans (App.moves_of_book hload)

/-- A rebuild ends before the next one begins. -/
def EndsFirst (env : OwnerEnv) (kind : StepKind) (s s' : OwnerLoop) : Prop :=
  ∃ s₁, LoopTurns kind s s₁ ∧ s₁.app.map.rebuildActive = false ∧
    s₁.app.scanStore.threaded = true ∧ s₁.startPendingGenerationRebuild env = some s'

theorem EndsFirst.turns (h : EndsFirst env kind s s') : LoopTurns kind s s' := by
  obtain ⟨s₁, hturns, -, ht, hmore⟩ := h
  exact hturns.trans (turns_startPending ht hmore)

/-- A rebuild that ends begins again, is given up, or shows its replacement. -/
theorem finishRebuild_cases {a b : App} {failure : Option OwnerFailure}
    (h : a.finishGenerationRebuild env w failure = some b) (ht : a.scanStore.threaded = true) :
    ∃ target, a.map.rebuildTarget = some target ∧
      (∀ kind, Moves kind (a.map.ended a.map.finishedPublications, a.scanStore) b.book) ∧
      (a.map.rebuildInvalidated = false → failure.isSome = true → b.map.scanStoreAvailable = false) := by
  unfold App.finishGenerationRebuild at h
  dsimp only at h
  split at h
  · cases h
  · rename_i target htarget
    refine ⟨target, htarget, ?_⟩
    split at h
    · rename_i hinvalidated
      cases h
      refine ⟨fun _ => .refl, fun hno => ?_⟩
      rw [hno] at hinvalidated
      cases hinvalidated
    · rename_i hvalid
      split at h
      · rename_i failure'
        cases h
        exact ⟨fun _ => App.moves_abandonWithFailure env (a := { a with
          map := a.map.ended a.map.finishedPublications
          view := { a.view with pendingNavigation := none } }) ht failure', fun _ _ => rfl⟩
      · cases h
        exact ⟨fun _ => moves_showReplacement
          (a := { a with map := a.map.ended a.map.finishedPublications })
          (Bool.eq_false_iff.mpr hvalid) _ target, fun _ hno => (by cases hno)⟩

/-- A rebuild that is cancelled gives up its generation. -/
theorem cancelRebuild_cases {a b : App} (h : a.cancelGenerationRebuild env w = some b)
    (ht : a.scanStore.threaded = true) :
    (a.map.rebuildActive = true ∧ ∃ store notes available, a.scanStore.gone = false ∧
      (∀ c ∈ notes, c.isNeutral = true) ∧
      StoreHandle.Queues a.scanStore store (notes ++ [.CancelActive]) ∧
      b.book = (a.map.cancelled available a.map.finishedPublications, store)) ∨
    (a.map.rebuildActive = false ∧ b.book = a.book) := by
  have hshown (c : App) :
      (if c.map.scanStoreAvailable then c else c.showScanResultsUnavailable).book = c.book := by
    split <;> rfl
  unfold App.cancelGenerationRebuild at h
  dsimp only at h
  split at h
  · rename_i hactive
    split at h
    · cases h
    · rename_i store hs
      cases h
      obtain ⟨hgone, notes, hneutral, hq⟩ := StoreHandle.queues_cancelActive ht hs
      refine Or.inl ⟨hactive, store, notes, ?available, hgone, hneutral, hq, (hshown _).trans ?book⟩
      case book => split <;> rfl
  · rename_i hno
    cases h
    exact Or.inr ⟨Bool.eq_false_iff.mpr hno, hshown a⟩

theorem ends_finishRebuild {failure : Option OwnerFailure} {rest : List FinishedPublication}
    (hf : kind.finishes) (ht : s.app.scanStore.threaded = true)
    (hold : s.app.map.finishedPublications = .Rebuild failure :: rest)
    (h : { s with app := { s.app with
      map := { s.app.map with finishedPublications := rest } } }.completeGenerationRebuild env w false
        failure = some s') : EndsFirst env kind s s' := by
  unfold completeGenerationRebuild at h
  rw [if_neg Bool.false_ne_true] at h
  obtain ⟨app, happ, hmore⟩ := Option.bind_eq_some_iff.mp h
  obtain ⟨target, htarget, hmoves, hlost⟩ := finishRebuild_cases happ ht
  exact ⟨_, .single (.finishes hf htarget hold (hmoves kind) hlost), (hmoves kind).frame.active,
    Moves.threaded (hmoves kind) ht, hmore⟩

theorem ends_cancelRebuild {rest : List FinishedPublication} (hf : kind.finishes)
    (ht : s.app.scanStore.threaded = true)
    (hstill : s.scanning = false ∨ .RebuildCancelled ∈ s.app.map.finishedPublications)
    (hrest : rest ⊆ s.app.map.finishedPublications)
    (h : { s with app := { s.app with
      map := { s.app.map with finishedPublications := rest } } }.completeGenerationRebuild env w true
        none = some s') : EndsFirst env kind s s' := by
  unfold completeGenerationRebuild at h
  rw [if_pos rfl] at h
  obtain ⟨app, happ, hmore⟩ := Option.bind_eq_some_iff.mp h
  rcases cancelRebuild_cases happ ht with
    ⟨hactive, store, notes, available, hgone, hneutral, hq, hbook⟩ | ⟨hidle, hbook⟩
  · obtain ⟨hmap, hstore⟩ := book_inj hbook
    refine ⟨_, .single (.cancels hf hactive hstill hrest hgone hneutral hq hbook), ?_, ?_, hmore⟩
    · change app.map.rebuildActive = false
      rw [hmap]
      rfl
    · change app.scanStore.threaded = true
      rw [hstore]
      exact hq.threaded
  · have hpop : Moves kind s.app.book ({ s.app.map with finishedPublications := rest },
        s.app.scanStore) := .single (.owes rfl
      ⟨⟨rfl, rfl, fun _ h => Or.inl (hrest h)⟩, rfl, rfl, rfl, fun _ h => h, fun h => h, fun _ _ h => h⟩
      fun hno => absurd hf hno)
    obtain ⟨hmap, hstore⟩ := book_inj hbook
    have hoff : app.map.rebuildActive = false := by
      rw [hmap]
      exact hidle
    refine ⟨_, .head (.calls (a := app) (by rw [hbook]; exact hpop)) (.single (.idles hf hoff)), hoff,
      ?_, hmore⟩
    change app.scanStore.threaded = true
    rw [hstore]
    exact ht

/-- A finished publication of a rebuild ends it. -/
theorem ends_finishNextPublication {publication : FinishedPublication} {rest : List FinishedPublication}
    (hf : kind.finishes) (ht : s.app.scanStore.threaded = true)
    (hfinished : s.app.map.finishedPublications = publication :: rest)
    (hrebuild : publication.ofRebuild = true) (h : s.finishNextPublication env w = some s') :
    EndsFirst env kind s s' := by
  unfold finishNextPublication App.takeFinishedPublication at h
  rw [hfinished] at h
  cases publication with
  | Primary => cases hrebuild
  | Rebuild failure => exact ends_finishRebuild hf ht hfinished h
  | RebuildCancelled =>
    refine ends_cancelRebuild hf ht (Or.inr ?_) ?_ h
    · rw [hfinished]
      exact List.mem_cons_self
    · rw [hfinished]
      exact List.subset_cons_self _ _

theorem turns_finishNextPublication (hf : kind.finishes) (ht : s.app.scanStore.threaded = true)
    (h : s.finishNextPublication env w = some s') : LoopTurns kind s s' := by
  cases hfinished : s.app.map.finishedPublications with
  | nil =>
    unfold finishNextPublication App.takeFinishedPublication at h
    rw [hfinished] at h
    cases h
    exact .refl
  | cons publication rest =>
    cases publication with
    | Rebuild failure => exact (ends_finishNextPublication hf ht hfinished rfl h).turns
    | RebuildCancelled => exact (ends_finishNextPublication hf ht hfinished rfl h).turns
    | Primary =>
      have hrest : rest ⊆ s.app.map.finishedPublications := by
        rw [hfinished]
        exact List.subset_cons_self _ rest
      unfold finishNextPublication App.takeFinishedPublication at h
      rw [hfinished] at h
      change completePrimaryScan env w { s with app := { s.app with
        map := { s.app.map with finishedPublications := rest } } } = some s' at h
      unfold completePrimaryScan at h
      dsimp only at h
      split at h
      · have hpop : Moves kind s.app.book ({ s.app.map with finishedPublications := rest },
            s.app.scanStore) := .single (.owes rfl
          ⟨⟨rfl, rfl, fun _ h => Or.inl (hrest h)⟩, rfl, rfl, rfl, fun _ h => h, fun h => h, fun _ _ h => h⟩
      fun hno => absurd hf hno)
        have hui := hpop.trans (App.moves_startUi env w hf (a := { s.app with
          map := { s.app.map with finishedPublications := rest } }) ht)
        exact .head (.reduced hf) (.head (.calls hui) (turns_startPending (Moves.threaded hui ht) h))
      · cases h

/-- So does the scan of a rebuild that ends as cancelled. -/
theorem ends_scanFinished (hf : kind.finishes) (ht : s.app.scanStore.threaded = true) (hscanning : s.scanning = true)
    (hrebuild : s.rebuildActive = true) (h : s.scanFinished env w true = some s') :
    EndsFirst env kind s s' := by
  unfold scanFinished finishGenerationRebuild at h
  rw [if_pos hscanning] at h
  dsimp only at h
  rw [if_pos hrebuild, if_pos rfl] at h
  have hcancels : EndsFirst env kind { s with scanning := false } s' :=
    ends_cancelRebuild hf ht (Or.inl rfl) (fun _ hmem => hmem) h
  obtain ⟨s₁, hturns, hends⟩ := hcancels
  exact ⟨s₁, .head (.scanned s.primaryScanActive s.primaryReduction hf (fun h => h) Or.inl) hturns, hends⟩

theorem turns_scanFinished {cancelled : Bool} (hf : kind.finishes) (hs : s.Steady)
    (h : s.scanFinished env w cancelled = some s') : LoopTurns kind s s' := by
  cases hscanning : s.scanning with
  | false =>
    unfold scanFinished at h
    rw [hscanning, if_neg Bool.false_ne_true] at h
    cases h
    exact .refl
  | true =>
    cases hrebuild : s.rebuildActive with
    | false =>
      unfold scanFinished at h
      rw [if_pos hscanning] at h
      dsimp only at h
      rw [if_neg (Bool.eq_false_iff.mp hrebuild)] at h
      refine turns_finishPrimaryScan hf hs.threaded ((hs.scanned hscanning).resolve_right ?_) h
      exact Bool.eq_false_iff.mp hrebuild
    | true =>
      cases cancelled with
      | true => exact (ends_scanFinished hf hs.threaded hscanning hrebuild h).turns
      | false =>
        have hactive : s.app.map.rebuildActive = true := hs.active.symm.trans hrebuild
        unfold scanFinished finishGenerationRebuild at h
        rw [if_pos hscanning] at h
        dsimp only at h
        rw [if_pos hrebuild, if_neg Bool.false_ne_true] at h
        cases h
        exact .head (.scanned s.primaryScanActive s.primaryReduction hf (fun h => h) Or.inl)
          (turns_beginRebuild hf (s := { s with scanning := false }) hs.threaded
            (SteadyAt.still hs hactive) hrebuild rfl)

/-! ## What the scanner and the deletions report -/

theorem moves_handleFailedScanWork (env : OwnerEnv) (kind : StepKind)
    (ht : s.app.scanStore.threaded = true) (problem : ScanProblem) :
    ∃ a, s.handleFailedScanWork env problem = { s with app := a } ∧ Moves kind s.app.book a.book := by
  unfold handleFailedScanWork
  split
  · rename_i message _
    exact ⟨_, rfl, App.moves_noteScanStoreCapacityFailure env ht message⟩
  · have hpath : Moves kind s.app.book s.app.recordScanStoreUnrecordedPath.book :=
      App.moves_recordScanStoreUnrecordedPath ht
    exact ⟨_, rfl, hpath.trans (App.moves_recordUnreadableDirectory (Moves.threaded hpath ht) _)⟩

theorem moves_admitCoverageRuns (env : OwnerEnv) (kind : StepKind)
    (ht : s.app.scanStore.threaded = true) (lease : WorkLease)
    (runs : List FactRun) : ∃ a, s.admitCoverageRuns env lease runs = { s with app := a } ∧
      Moves kind s.app.book a.book := by
  unfold admitCoverageRuns
  split
  · exact ⟨_, rfl, App.moves_recordScanStoreUnrecordedPath ht⟩
  · exact ⟨_, rfl, App.moves_admitScanInputRuns env ht lease runs⟩

theorem turns_handleScanPathGone (ht : s.app.scanStore.threaded = true) (problem : ScanProblem)
    (executing : Option RelativePath) :
    LoopTurns kind s (s.handleScanPathGone env problem executing) := by
  have hgone : Moves kind s.app.book
      (s.app.pathRemovedByADeletion problem.relative executing).1.book :=
    App.moves_pathRemovedByADeletion _ _
  unfold handleScanPathGone
  dsimp only
  split
  · exact LoopTurns.calls hgone
  · obtain ⟨a, heq, hmoves⟩ := moves_handleFailedScanWork env kind
      (s := { s with app := (s.app.pathRemovedByADeletion problem.relative executing).1 })
      (Moves.threaded hgone ht) problem
    rw [heq]
    exact LoopTurns.calls (hgone.trans hmoves)

theorem turns_handlePrimaryUnscanned (ht : s.app.scanStore.threaded = true) (lease : WorkLease)
    (runs : List FactRun) (relative : Option RelativePath) (replaced : Bool)
    (executing : Option RelativePath) :
    LoopTurns kind s (s.handlePrimaryUnscanned env lease runs relative replaced executing) := by
  have hgone : Moves kind s.app.book (s.app.pathRemovedByADeletion relative executing).1.book :=
    App.moves_pathRemovedByADeletion _ _
  unfold handlePrimaryUnscanned
  dsimp only
  split
  · split
    · obtain ⟨a, heq, hmoves⟩ := moves_admitCoverageRuns env kind
        (s := { s with app := (s.app.pathRemovedByADeletion relative executing).1 })
        (Moves.threaded hgone ht) lease runs
      rw [heq]
      exact LoopTurns.calls (hgone.trans hmoves)
    · exact LoopTurns.calls hgone
  · obtain ⟨a, heq, hmoves⟩ := moves_admitCoverageRuns env kind ht lease runs
    rw [heq]
    exact LoopTurns.calls hmoves

theorem turns_reconcileDeletionReport {report : DeletionReport} (ht : s.app.scanStore.threaded = true)
    (hspared : kind.spared → s.app.map.rebuildActive = true → s.app.takesOutOfMap report = false)
    (h : s.reconcileDeletionReport env w report = some s') : LoopTurns kind s s' := by
  obtain ⟨hmoves, howing⟩ := App.moves_completeDeletion env w ht report hspared
  have hts := Moves.threaded hmoves ht
  unfold reconcileDeletionReport at h
  dsimp only at h
  split at h
  · rw [List.append_nil] at h
    exact .head (.calls hmoves) (turns_startPending hts h)
  · rename_i hdeleted
    exact .head (.removes (howing hdeleted)) (turns_startPending hts h)

/-- No removal is to leave the map installed while a rebuild scans behind it. -/
def sparesRebuild (s : OwnerLoop) : LoopStep → Bool
  | .deletionFinished report _ => !(s.app.map.rebuildActive && s.app.takesOutOfMap report)
  | _ => true

/-- What is known of a step. -/
def stepKind (s : OwnerLoop) (a : LoopStep) : StepKind where
  calm := s.app.Calm
  spared := s.sparesRebuild a = true
  takes := a.takes = true
  finishes := a.finishes = true

/-- Every step of the machine that is taken. -/
theorem turns_step {a : LoopStep} (hs : s.Steady) (h : s.step? env a = some s') :
    LoopTurns (s.stepKind a) s s' := by
  have ht := hs.threaded
  cases a with
  | storeEvent w =>
    cases h
    exact LoopTurns.calls (App.moves_processNextEvent env w (fun h => h) rfl rfl ht)
  | waitingPage w =>
    cases h
    exact LoopTurns.calls (App.moves_applyWaitingProvisionalPage env w ht)
  | finishedPublication w => exact turns_finishNextPublication rfl ht h
  | pendingRebuild => exact turns_startPending ht h
  | landedRefresh =>
    cases h
    exact LoopTurns.calls App.moves_takeLandedRefresh
  | scanBatch lease runs =>
    cases h
    exact LoopTurns.calls (App.moves_admitScanInputRuns env ht lease runs)
  | scanUnscanned lease runs relative replaced executing =>
    cases h
    exact turns_handlePrimaryUnscanned ht lease runs relative replaced executing
  | scanFailed problem =>
    cases h
    obtain ⟨a, heq, hmoves⟩ := moves_handleFailedScanWork env (s.stepKind (.scanFailed problem)) ht problem
    rw [heq]
    exact LoopTurns.calls hmoves
  | scanPathGone problem executing =>
    cases h
    exact turns_handleScanPathGone ht problem executing
  | scanFinished cancelled w => exact turns_scanFinished rfl hs h
  | deletionFinished report w =>
    refine turns_reconcileDeletionReport ht (fun hspared hactive => ?_) h
    change s.sparesRebuild (.deletionFinished report w) = true at hspared
    simpa [sparesRebuild, hactive] using hspared
  | executionEnded w =>
    cases h
    exact LoopTurns.calls (App.moves_excusedExecutionEnded env w ht false)
  | cancelRebuild =>
    cases h
    unfold cancelRebuildOnRequest
    split
    · exact LoopTurns.calls App.moves_suppressGenerationRebuildRestart
    · exact .refl
  | refreshBoard w =>
    cases h
    exact LoopTurns.calls (App.moves_refreshBoardFromScan env w ht)
  | navigate folder w =>
    cases h
    exact LoopTurns.calls (App.moves_navigate env w ht folder)
  | nextPage w =>
    cases h
    exact LoopTurns.calls (App.moves_of_book (App.nextSnapshotPage_book env w s.app))
  | previousPage w =>
    cases h
    exact LoopTurns.calls (App.moves_of_book (App.previousSnapshotPage_book env s.app (w.page 0)))
  | applyFilter pattern w =>
    cases h
    exact LoopTurns.calls (App.moves_of_book (App.applyFilter_book env w s.app pattern))
  | threadStep io =>
    cases h
    exact .single (.thread io rfl)
  | threadStop =>
    cases h
    exact .single (.threadEnds rfl)

theorem machine_step (s : OwnerLoop) (a : LoopStep) :
    ((machine env).step s a).1 = (s.step? env a).getD s := by
  unfold machine
  dsimp only
  cases s.step? env a with
  | none => rfl
  | some s' => rfl

/-- What a steady turn keeps, a step keeps. -/
theorem step_induction {I : OwnerLoop → Prop} {a : LoopStep} (hs : s.Steady) (hI : I s)
    (turn : ∀ s₁ s₂, s₁.Steady → I s₁ → LoopTurn (s.stepKind a) s₁ s₂ → I s₂) :
    ((machine env).step s a).1.Steady ∧ I ((machine env).step s a).1 := by
  rw [machine_step]
  cases h : s.step? env a with
  | none => exact ⟨hs, hI⟩
  | some s' =>
    have hturns := turns_step hs h
    clear h
    induction hturns with
    | refl => exact ⟨hs, hI⟩
    | tail _ hturn ih => exact ⟨LoopTurn.steady hturn ih.1, turn _ _ ih.1 ih.2 hturn⟩

/-- The invariant rule of the machine: what every turn keeps. -/
theorem run_turns (env : OwnerEnv) {I : OwnerLoop → Prop} (hs : s.Steady) (hI : I s)
    (turn : ∀ kind s₁ s₂, s₁.Steady → I s₁ → LoopTurn kind s₁ s₂ → I s₂) (steps : List LoopStep) :
    ((machine env).run s steps).Steady ∧ I ((machine env).run s steps) :=
  (machine env).run_invariant (I := fun s => s.Steady ∧ I s) ⟨hs, hI⟩
    (fun _ _ h => step_induction h.1 h.2 (turn _)) steps

/-- And where a failure reported of no publication never finds one outstanding. -/
def CalmRun (env : OwnerEnv) (s : OwnerLoop) (steps : List LoopStep) : Prop :=
  (machine env).Along (fun s _ => s.app.Calm) s steps

instance decidableCalm (a : App) : Decidable a.Calm :=
  decidable_of_iff (a.map.publications.isEmpty = true ∨
      ∀ r ∈ a.scanStore.told.head?, r.isFailure = false) <| by
    constructor
    · rintro (hidle | hno) error hfailure
      · exact List.isEmpty_iff.mp hidle
      · cases hno _ hfailure
    · intro hcalm
      cases hhead : a.scanStore.told.head? with
      | none => exact Or.inr fun r hr => by cases hr
      | some r =>
        cases r with
        | Failure error => exact Or.inl (List.isEmpty_iff.mpr (hcalm error hhead))
        | _ => exact Or.inr fun r hr => by cases hr; rfl

instance decidableCalmRun (env : OwnerEnv) (s : OwnerLoop) (steps : List LoopStep) :
    Decidable (CalmRun env s steps) :=
  Machine.decidableAlong _ s steps

theorem calm_run_turns {I : OwnerLoop → Prop} {steps : List LoopStep} (hs : s.Steady) (hI : I s)
    (turn : ∀ (kind : StepKind) (s₁ s₂ : OwnerLoop), kind.calm → s₁.Steady → I s₁ → LoopTurn kind s₁ s₂ → I s₂)
    (h : CalmRun env s steps) :
    ((machine env).run s steps).Steady ∧ I ((machine env).run s steps) :=
  (machine env).run_induction_along (P := fun _ s => s.Steady ∧ I s) ⟨hs, hI⟩
    (fun _ _ _ h hcalm => step_induction h.1 h.2 fun s₁ s₂ => turn _ s₁ s₂ hcalm) h

end OwnerLoop

end Excise
