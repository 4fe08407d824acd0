import Excise.Owner.Turns

/-!
# The maps handed to the owner

The generations the owner's commands begin are numbered in the order they are sent, so what the
thread hands over is numbered in the order it is handed over: the map installed is only ever
replaced by a newer one.
-/

namespace Excise
set_option autoImplicit false

/-- The generations that commands begin, in order. -/
def begun (commands : List StoreCommand) : List ScanGeneration :=
  commands.filterMap StoreCommand.begins

/-- The generation whose scan was begun last. -/
def lastScanned (first : ScanGeneration) : List StoreCommand → ScanGeneration
  | [] => first
  | .BeginGeneration generation :: commands => lastScanned generation commands
  | _ :: commands => lastScanned first commands

/-- What a result hands over. -/
def StoreResult.handed? : StoreResult → Option Publication
  | .Published (.ok publication) | .Overlaid (.ok publication) => some publication
  | _ => none

namespace StoreHandle

/-- The publications handed over that the owner has not taken. -/
def handed (h : StoreHandle) : List Publication := h.told.filterMap StoreResult.handed?

/-- The generations of the map installed and of what was handed over since. -/
def generations (h : StoreHandle) : List ScanGeneration :=
  (h.published.map fun p => p.manifest.generation).toList ++ h.handed.map Publication.generation

theorem latest_lt {h : StoreHandle} {l next : ScanGeneration} (hl : h.latestGeneration = some l)
    (hnext : h.nextGeneration = some next) : l < next := by
  unfold nextGeneration at hnext
  rw [hl] at hnext
  dsimp only at hnext
  split at hnext
  · rename_i hbound
    cases hnext
    change l.value.toNat < (l.value + 1).toNat
    rw [UInt64.toNat_add]
    change l.value.toNat < (l.value.toNat + 1) % 2 ^ 64
    rw [Nat.mod_eq_of_lt hbound]
    exact Nat.lt_succ_self _
  · cases hnext

end StoreHandle

theorem begun_append (cs ds : List StoreCommand) : begun (cs ++ ds) = begun cs ++ begun ds :=
  List.filterMap_append

theorem known_append {k first : ScanGeneration} {cs : List StoreCommand} (ds : List StoreCommand)
    (h : k ∈ first :: begun cs) : k ∈ first :: begun (cs ++ ds) := by
  rw [begun_append, ← List.cons_append]
  exact List.mem_append_left _ h

theorem begins_known {c : StoreCommand} {g : ScanGeneration} (hg : c.begins = some g)
    (first : ScanGeneration) (cs : List StoreCommand) : g ∈ first :: begun (cs ++ [c]) := by
  rw [begun_append, ← List.cons_append]
  refine List.mem_append_right _ ?_
  unfold begun
  rw [List.filterMap_cons, hg]
  exact List.mem_cons_self

theorem begun_quiet {cs : List StoreCommand} (h : ∀ c ∈ cs, c.begins = none) : begun cs = [] :=
  List.filterMap_eq_nil_iff.mpr h

theorem begins_neutral {c : StoreCommand} (h : c.isNeutral = true) : c.begins = none := by
  cases c with
  | Notes notes => rfl
  | Admit lease batch => rfl
  | ProvisionalPage request => rfl
  | Publish => cases h
  | BeginGeneration generation => cases h
  | Overlay request => cases h
  | DiscardActive => cases h
  | CancelActive => cases h

theorem begun_neutral {notes : List StoreCommand} (h : ∀ c ∈ notes, c.isNeutral = true) :
    begun notes = [] :=
  begun_quiet fun c hc => begins_neutral (h c hc)

theorem lastScanned_append (first : ScanGeneration) (cs ds : List StoreCommand) :
    lastScanned first (cs ++ ds) = lastScanned (lastScanned first cs) ds := by
  induction cs generalizing first with
  | nil => rfl
  | cons c cs ih =>
    cases c with
    | BeginGeneration generation => exact ih generation
    | _ => exact ih first

theorem lastScanned_quiet {first : ScanGeneration} {cs : List StoreCommand}
    (h : ∀ c ∈ cs, c.begins = none) : lastScanned first cs = first := by
  induction cs with
  | nil => rfl
  | cons c cs ih =>
    have hrest := ih fun d hd => h d (List.mem_cons_of_mem c hd)
    have hc := h c List.mem_cons_self
    cases c with
    | BeginGeneration generation => cases hc
    | _ => exact hrest

/-! ## What the thread hands over -/

theorem handed_published {result : Option StoreResult} {p : PublishedGeneration}
    (h : result.bind StoreResult.handed? = some (.Published p)) :
    result = some (.Published (.ok (.Published p))) ∨ result = some (.Overlaid (.ok (.Published p))) := by
  cases result with
  | none => cases h
  | some r =>
    cases r with
    | AdmissionFailed error => cases h
    | ProvisionalPage folder page => cases h
    | Failure error => cases h
    | Published answer =>
      cases answer with
      | error error => cases h
      | ok done =>
        cases h
        exact Or.inl rfl
    | Overlaid answer =>
      cases answer with
      | error error => cases h
      | ok done =>
        cases h
        exact Or.inr rfl

section
variable {c : StoreCommand} {x x' : Option ScanGeneration} {result : Option StoreResult}

/-- A command hands over the generation that took input, or the one it begins; none is open then. -/
theorem effect_handed (h : c.Effect x x' result) {publication : Publication}
    (hp : result.bind StoreResult.handed? = some publication) :
    x' = none ∧ (x = some publication.generation ∨ c.begins = some publication.generation) := by
  have hquiet (hn : result.all StoreResult.isNotice = true) : False := by
    cases result with
    | none => cases hp
    | some r =>
      cases r with
      | AdmissionFailed error => cases hp
      | ProvisionalPage folder page => cases hp
      | Published answer => cases hn
      | Overlaid answer => cases hn
      | Failure error => cases hn
  cases c with
  | Notes notes => exact (hquiet h.2).elim
  | Admit lease batch => exact (hquiet h.2).elim
  | ProvisionalPage request => exact (hquiet h.2).elim
  | Publish =>
    obtain ⟨answer, rfl, -, hok⟩ := h
    cases answer with
    | error error => cases hp
    | ok done =>
      cases hp
      obtain ⟨hscanning, hnone⟩ := hok _ rfl
      exact ⟨hnone, Or.inl hscanning⟩
  | BeginGeneration generation =>
    rw [h.1] at hp
    cases hp
  | Overlay request =>
    obtain ⟨answer, rfl, -, hok⟩ := h
    cases answer with
    | error error => cases hp
    | ok done =>
      cases hp
      obtain ⟨hgeneration, hnone⟩ := hok _ rfl
      exact ⟨hnone, Or.inr (congrArg some hgeneration.symm)⟩
  | DiscardActive =>
    rw [h.1] at hp
    cases hp
  | CancelActive =>
    obtain ⟨-, -, hno⟩ := h
    cases result with
    | none => cases hp
    | some r =>
      cases r with
      | AdmissionFailed error => cases hp
      | ProvisionalPage folder page => cases hp
      | Published answer => exact absurd rfl (hno answer).1
      | Overlaid answer => exact absurd rfl (hno answer).2
      | Failure error => cases hp

/-- A generation that takes input took it before, or is begun. -/
theorem effect_scanning (h : c.Effect x x' result) {g : ScanGeneration} (hg : x' = some g) :
    c = .BeginGeneration g ∨ (x = some g ∧ ∀ k, c ≠ .BeginGeneration k) := by
  have hkept (hx : x' = x ∨ x' = none) : x = some g := by
    rcases hx with hx | hx
    · exact hx.symm.trans hg
    · rw [hx] at hg
      cases hg
  cases c with
  | Notes notes => exact Or.inr ⟨hkept h.1, fun _ hno => by cases hno⟩
  | Admit lease batch => exact Or.inr ⟨hkept h.1, fun _ hno => by cases hno⟩
  | ProvisionalPage request => exact Or.inr ⟨hkept h.1, fun _ hno => by cases hno⟩
  | Publish =>
    obtain ⟨answer, -, hx, -⟩ := h
    exact Or.inr ⟨hkept hx, fun _ hno => by cases hno⟩
  | BeginGeneration generation =>
    rw [h.2] at hg
    cases hg
    exact Or.inl rfl
  | Overlay request =>
    obtain ⟨answer, -, hx, -⟩ := h
    exact Or.inr ⟨hkept hx, fun _ hno => by cases hno⟩
  | DiscardActive =>
    rw [h.2] at hg
    cases hg
  | CancelActive =>
    rw [h.1] at hg
    cases hg

end

theorem lastScanned_kept {c : StoreCommand} (h : ∀ k, c ≠ .BeginGeneration k) (first : ScanGeneration)
    (cs : List StoreCommand) : lastScanned first (cs ++ [c]) = lastScanned first cs := by
  rw [lastScanned_append]
  cases c with
  | BeginGeneration generation => exact absurd rfl (h generation)
  | _ => rfl

/-! ## Numbers -/

/-- How the generations of a session are numbered: those the store knows, those handed over and
those still to begin. -/
structure MapsNumbered (session : ScanSessionId) (first : ScanGeneration) (h : StoreHandle)
    (engine : StoreEngine) (applied : List StoreCommand) : Prop where
  ready : ScanStore.Ready session first engine.store
  known : ∀ k ∈ engine.store.known, k ∈ first :: begun applied
  ordered : (first :: begun (applied ++ h.queued)).Pairwise (· < ·)
  latest : ∃ l, h.latestGeneration = some l ∧ ∀ g ∈ first :: begun (applied ++ h.queued), g ≤ l
  scanning : ∀ g, engine.store.scanning = some g → g = lastScanned first applied
  past : ∀ k ∈ h.generations, k ∈ first :: begun applied
  increasing : h.generations.Pairwise (· < ·)
  newest : ∀ g, engine.store.scanning = some g → ∀ k ∈ h.generations, k < g
  built : ∀ p, .Published p ∈ h.handed → StoreEngine.Built session first p
  installed : ∀ p, h.published = some p → StoreEngine.Built session first p

namespace MapsNumbered
variable {session : ScanSessionId} {first : ScanGeneration} {h h' h₁ : StoreHandle}
  {engine : StoreEngine} {applied : List StoreCommand}

theorem start : MapsNumbered session first (.started first) ⟨ScanStore.new session first, false⟩ [] where
  ready := ⟨⟨[], rfl⟩, rfl, rfl⟩
  known := by
    intro k hk
    rcases ScanStore.mem_known.mp hk with hk | hk | hk | hk | hk <;> cases hk
    exact List.mem_cons_self
  ordered := List.pairwise_singleton _ _
  latest := ⟨first, rfl, fun g hg => le_of_eq (List.mem_singleton.mp hg)⟩
  scanning := by
    intro g hg
    obtain ⟨a, ha, -, rfl⟩ := ScanStore.scanning_eq_some.mp hg
    cases ha
    rfl
  past := fun _ hk => absurd hk List.not_mem_nil
  increasing := List.Pairwise.nil
  newest := fun _ _ _ hk => absurd hk List.not_mem_nil
  built := fun _ hp => absurd hp List.not_mem_nil
  installed := fun _ hp => (by cases hp)

/-- Another end of the queues, of which less is to be taken. -/
theorem of_same (hn : MapsNumbered session first h engine applied) (hqueued : h'.queued = h.queued)
    (hlatest : ∀ l, h.latestGeneration = some l → ∃ l', h'.latestGeneration = some l' ∧ l ≤ l')
    (hgenerations : h'.generations.Sublist h.generations)
    (hbuilt : ∀ p, .Published p ∈ h'.handed → StoreEngine.Built session first p)
    (hinstalled : ∀ p, h'.published = some p → StoreEngine.Built session first p) :
    MapsNumbered session first h' engine applied where
  ready := hn.ready
  known := hn.known
  ordered := by
    rw [hqueued]
    exact hn.ordered
  latest := by
    obtain ⟨l, hl, hall⟩ := hn.latest
    obtain ⟨l', hl', hle⟩ := hlatest l hl
    refine ⟨l', hl', fun g hg => le_trans (hall g ?_) hle⟩
    rw [← hqueued]
    exact hg
  scanning := hn.scanning
  past := fun k hk => hn.past k (hgenerations.subset hk)
  increasing := hn.increasing.sublist hgenerations
  newest := fun g hg k hk => hn.newest g hg k (hgenerations.subset hk)
  built := hbuilt
  installed := hinstalled

/-- Commands that begin nothing. -/
theorem sends (hn : MapsNumbered session first h engine applied) {cs : List StoreCommand}
    (hq : StoreHandle.Queues h h' cs) (hquiet : begun cs = []) :
    MapsNumbered session first h' engine applied := by
  have hbegun : begun (applied ++ h'.queued) = begun (applied ++ h.queued) := by
    rw [hq.queued, begun_append, begun_append, begun_append, hquiet, List.append_nil]
  have hhanded : h'.handed = h.handed := by
    unfold StoreHandle.handed
    rw [hq.told]
  have hgenerations : h'.generations = h.generations := by
    unfold StoreHandle.generations
    rw [hhanded, hq.same.published]
  refine ⟨hn.ready, hn.known, ?_, ?_, hn.scanning, ?_, ?_, ?_, ?_, ?_⟩
  · rw [hbegun]
    exact hn.ordered
  · rw [hbegun, hq.same.latest]
    exact hn.latest
  · rw [hgenerations]
    exact hn.past
  · rw [hgenerations]
    exact hn.increasing
  · rw [hgenerations]
    exact hn.newest
  · rw [hhanded]
    exact hn.built
  · rw [hq.same.published]
    exact hn.installed

theorem first_le (hn : MapsNumbered session first h engine applied) {p : PublishedGeneration}
    (hp : h.published = some p) : first ≤ p.manifest.generation := by
  have hmem : p.manifest.generation ∈ first :: begun applied := by
    refine hn.past _ (List.mem_append_left _ ?_)
    rw [hp]
    exact List.mem_singleton_self _
  rcases List.mem_cons.mp hmem with heq | hmem
  · exact le_of_eq heq.symm
  · have hordered := hn.ordered
    rw [begun_append] at hordered
    exact le_of_lt ((List.pairwise_cons.mp hordered).1 _ (List.mem_append_left _ hmem))

theorem past_latest (hn : MapsNumbered session first h engine applied) {next : ScanGeneration}
    (hnext : h.nextGeneration = some next) :
    ∀ g ∈ first :: begun (applied ++ h.queued), g < next := by
  obtain ⟨l, hl, hall⟩ := hn.latest
  exact fun g hg => lt_of_le_of_lt (hall g hg) (StoreHandle.latest_lt hl hnext)

/-- A command that begins the next generation. -/
theorem asks (hn : MapsNumbered session first h engine applied) {next : ScanGeneration}
    {notes : List StoreCommand} {c : StoreCommand} (hnext : h.nextGeneration = some next)
    (hbegins : c.begins = some next) (hneutral : ∀ c ∈ notes, c.isNeutral = true)
    (hq : StoreHandle.Queues h h₁ (notes ++ [c])) :
    MapsNumbered session first (h₁.noteGeneration next) engine applied := by
  obtain ⟨l, hl, hall⟩ := hn.latest
  have hpast := hn.past_latest hnext
  have hbegun : first :: begun (applied ++ (h₁.noteGeneration next).queued) =
      first :: begun (applied ++ h.queued) ++ [next] := by
    rw [show (h₁.noteGeneration next).queued = h₁.queued from rfl, hq.queued, ← List.append_assoc,
      begun_append (applied ++ h.queued), begun_append notes, begun_neutral hneutral, List.nil_append]
    change first :: (begun (applied ++ h.queued) ++ [c].filterMap StoreCommand.begins) = _
    rw [List.filterMap_cons, hbegins]
    rfl
  have hhanded : (h₁.noteGeneration next).handed = h.handed := by
    change h₁.told.filterMap StoreResult.handed? = _
    rw [hq.told]
    rfl
  have hpublished : (h₁.noteGeneration next).published = h.published := hq.same.published
  have hgenerations : (h₁.noteGeneration next).generations = h.generations := by
    unfold StoreHandle.generations
    rw [hhanded, hpublished]
  refine ⟨hn.ready, hn.known, ?_, ⟨max l next, ?_, fun g hg => ?_⟩, hn.scanning, ?_, ?_, ?_, ?_, ?_⟩
  · rw [hbegun]
    refine List.pairwise_append.mpr ⟨hn.ordered, List.pairwise_singleton _ _, fun g hg k hk => ?_⟩
    rw [List.mem_singleton.mp hk]
    exact hpast g hg
  · exact StoreHandle.latest_noteGeneration next (hq.same.latest.trans hl)
  · rw [hbegun] at hg
    rcases List.mem_append.mp hg with hg | hg
    · exact le_trans (hall g hg) (le_max_left _ _)
    · rw [List.mem_singleton.mp hg]
      exact le_max_right _ _
  · rw [hgenerations]
    exact hn.past
  · rw [hgenerations]
    exact hn.increasing
  · rw [hgenerations]
    exact hn.newest
  · rw [hhanded]
    exact hn.built
  · rw [hpublished]
    exact hn.installed

theorem handed_takes {result : StoreResult} (htakes : StoreHandle.Takes h h' result) :
    h.handed = result.handed?.toList ++ h'.handed := by
  unfold StoreHandle.handed
  rw [htakes.told, List.filterMap_cons]
  cases result.handed? with
  | none => rfl
  | some publication => rfl

theorem takes (hn : MapsNumbered session first h engine applied) {result : StoreResult}
    (htakes : StoreHandle.Takes h h' result) : MapsNumbered session first h' engine applied := by
  have hhanded := handed_takes htakes
  refine hn.of_same htakes.queued htakes.latest ?_ (fun p hp => hn.built p ?_) fun p hp => ?_
  · unfold StoreHandle.generations
    rw [hhanded, htakes.published, List.map_append]
    exact (List.sublist_append_right _ _).append_left _
  · rw [hhanded]
    exact List.mem_append_right _ hp
  · rw [htakes.published] at hp
    exact hn.installed p hp

/-- The map handed over takes the place of the one installed. -/
theorem installs (hn : MapsNumbered session first h engine applied) {result : StoreResult}
    {p : PublishedGeneration} (htakes : StoreHandle.Takes h h' result)
    (hanswer : result.answer? = some (.ok (.Published p))) :
    MapsNumbered session first (h'.install (.Published p)) engine applied ∧
      StoreEngine.Built session first p ∧
      ∀ old, h.published = some old → old.manifest.generation < p.manifest.generation := by
  have hresult : result.handed? = some (.Published p) := by
    cases result with
    | Published answer => cases hanswer; rfl
    | Overlaid answer => cases hanswer; rfl
    | AdmissionFailed error => cases hanswer
    | ProvisionalPage folder page => cases hanswer
    | Failure error => cases hanswer
  have hhanded : h.handed = .Published p :: h'.handed := by
    rw [handed_takes htakes, hresult]
    rfl
  have hbuilt : StoreEngine.Built session first p := by
    refine hn.built p ?_
    rw [hhanded]
    exact List.mem_cons_self
  refine ⟨hn.of_same htakes.queued htakes.latest ?_ (fun q hq => hn.built q ?_) fun q hq => ?_, hbuilt,
    fun old hold => ?_⟩
  · unfold StoreHandle.generations
    rw [hhanded, show (h'.install (.Published p)).handed = h'.handed from rfl]
    exact List.sublist_append_right _ _
  · rw [hhanded]
    exact List.mem_cons_of_mem _ hq
  · cases hq
    exact hbuilt
  · have hpairs := hn.increasing
    unfold StoreHandle.generations at hpairs
    rw [hold, hhanded] at hpairs
    exact (List.pairwise_cons.mp hpairs).1 _ List.mem_cons_self

/-- What the moves of a call keep, and that they only install a newer map. -/
theorem move {kind : StepKind} {x y : MapState × StoreHandle} (h : Move kind x y)
    (hn : MapsNumbered session first x.2 engine applied) : MapsNumbered session first y.2 engine applied ∧
      ∀ p, x.2.published = some p → ∃ p', y.2.published = some p' ∧
        (p' = p ∨ p.manifest.generation < p'.manifest.generation) := by
  have hsame {h' : StoreHandle} (hp : h'.published = x.2.published) :
      ∀ p, x.2.published = some p → ∃ p', h'.published = some p' ∧
        (p' = p ∨ p.manifest.generation < p'.manifest.generation) :=
    fun p hold => ⟨p, hp.trans hold, Or.inl rfl⟩
  cases h with
  | owes same owes aside => exact ⟨hn, hsame rfl⟩
  | loses same loses aside => exact ⟨hn, hsame rfl⟩
  | invalidates same invalidates => exact ⟨hn, hsame rfl⟩
  | adds available installed held added => exact ⟨hn, hsame rfl⟩
  | sends queues quiet =>
    refine ⟨hn.sends queues (begun_quiet fun c hc => ?_), hsame queues.same.published⟩
    rcases quiet c hc with hneutral | rfl
    · exact begins_neutral hneutral
    · rfl
  | @asksOverlay m m' h h₁ h' p request notes later idle installed next base oldest open_ neutral queues
      noted asked =>
    rw [noted]
    exact ⟨hn.asks next rfl neutral queues, hsame queues.same.published⟩
  | takes polls takes notice => exact ⟨hn.takes takes, hsame takes.published⟩
  | stray polls takes answer idle => exact ⟨hn.takes takes, hsame takes.published⟩
  | ends polls takes answer oldest ends => exact ⟨hn.takes takes, hsame takes.published⟩
  | installs polls takes answer oldest available same =>
    obtain ⟨hnext, -, hnewer⟩ := hn.installs takes answer
    exact ⟨hnext, fun old hold => ⟨_, rfl, Or.inr (hnewer old hold)⟩⟩
  | fails polls takes idle none_ loses => exact ⟨hn.takes takes, hsame takes.published⟩
  | stops polls told gone none_ loses => exact ⟨hn.of_same rfl (fun l hl => ⟨l, hl, le_refl l⟩)
      (List.Sublist.refl _) hn.built hn.installed, hsame rfl⟩

/-- What the oldest command begins is past every generation begun before it. -/
theorem begins_past (hn : MapsNumbered session first h engine applied) {c : StoreCommand}
    {commands : List StoreCommand} (hqueued : h.queued = c :: commands) {g : ScanGeneration}
    (hg : c.begins = some g) : ∀ k ∈ first :: begun applied, k < g := by
  intro k hk
  have hordered := hn.ordered
  rw [hqueued, begun_append, ← List.cons_append] at hordered
  refine (List.pairwise_append.mp hordered).2.2 k hk g ?_
  unfold begun
  rw [List.filterMap_cons, hg]
  exact List.mem_cons_self

theorem handed_applies {results : Option StoreResult} (htold : h'.told = h.told ++ results.toList) :
    h'.handed = h.handed ++ (results.bind StoreResult.handed?).toList := by
  unfold StoreHandle.handed
  rw [htold, List.filterMap_append]
  cases results with
  | none => rfl
  | some r =>
    change _ ++ [r].filterMap StoreResult.handed? = _ ++ r.handed?.toList
    rw [List.filterMap_cons]
    cases r.handed? with
    | none => rfl
    | some publication => rfl

theorem generations_applies {results : Option StoreResult} (htold : h'.told = h.told ++ results.toList)
    (hpublished : h'.published = h.published) : h'.generations = h.generations ++
      ((results.bind StoreResult.handed?).map Publication.generation).toList := by
  unfold StoreHandle.generations
  rw [handed_applies htold, hpublished, List.map_append, List.append_assoc]
  congr 2
  cases results.bind StoreResult.handed? with
  | none => rfl
  | some publication => rfl

/-- The thread applies the oldest command and queues what it answers. -/
theorem applies (hn : MapsNumbered session first h engine applied) (io : EngineIo) {c : StoreCommand}
    {commands : List StoreCommand} (hqueued : h.queued = c :: commands) (hq' : h'.queued = commands)
    (htold : h'.told = h.told ++ (engine.apply io c).2.toList) (hpublished : h'.published = h.published)
    (hlatest : h'.latestGeneration = h.latestGeneration) :
    MapsNumbered session first h' (engine.apply io c).1 (applied ++ [c]) := by
  have hordered := hn.ordered
  rw [hqueued, show applied ++ c :: commands = applied ++ [c] ++ commands by
    rw [List.append_assoc]; rfl, begun_append (applied ++ [c]), ← List.cons_append] at hordered
  have hpast {g : ScanGeneration} (hg : c.begins = some g) := hn.begins_past hqueued hg
  obtain ⟨hfollows, heffect, hbuilt⟩ := StoreEngine.apply_spec io engine c hn.ready
    fun g hg k hk => hpast hg k (hn.known k hk)
  have hhanded := handed_applies htold
  have hgenerations := generations_applies htold hpublished
  have hnew {k : ScanGeneration} (hk : k ∈ h'.generations) : k ∈ h.generations ∨
      ∃ publication, (engine.apply io c).2.bind StoreResult.handed? = some publication ∧
        k = publication.generation := by
    rw [hgenerations] at hk
    rcases List.mem_append.mp hk with hk | hk
    · exact Or.inl hk
    · obtain ⟨publication, hp, rfl⟩ := Option.map_eq_some_iff.mp (Option.mem_toList.mp hk)
      exact Or.inr ⟨publication, hp, rfl⟩
  -- a publication is of the generation that took input, or of the one begun
  have holder {publication : Publication}
      (hp : (engine.apply io c).2.bind StoreResult.handed? = some publication) :
      (∀ k ∈ h.generations, k < publication.generation) ∧
        publication.generation ∈ first :: begun (applied ++ [c]) := by
    obtain ⟨-, hx | hbegins⟩ := effect_handed heffect hp
    · exact ⟨hn.newest _ hx, known_append _ (hn.known _ (ScanStore.scanning_known hx))⟩
    · exact ⟨fun k hk => hpast hbegins k (hn.past k hk), begins_known hbegins first applied⟩
  refine ⟨hfollows.ready, fun k hk => ?_, ?_, ?_, fun g hg => ?_, fun k hk => ?_, ?_, fun g hg k hk => ?_,
    fun p hp => ?_, ?_⟩
  · rcases hfollows.known k hk with hk | hk
    · exact known_append _ (hn.known k hk)
    · exact begins_known hk first applied
  · rw [hq', begun_append (applied ++ [c]), ← List.cons_append]
    exact hordered
  · rw [hlatest, hq', List.append_assoc, List.singleton_append, ← hqueued]
    exact hn.latest
  · rcases effect_scanning heffect hg with rfl | ⟨hx, hkept⟩
    · rw [lastScanned_append]
      rfl
    · rw [lastScanned_kept hkept]
      exact hn.scanning g hx
  · rcases hnew hk with hk | ⟨publication, hp, rfl⟩
    · exact known_append _ (hn.past k hk)
    · exact (holder hp).2
  · rw [hgenerations]
    cases hp : (engine.apply io c).2.bind StoreResult.handed? with
    | none =>
      rw [show ((none : Option Publication).map Publication.generation).toList = [] from rfl,
        List.append_nil]
      exact hn.increasing
    | some publication =>
      refine List.pairwise_append.mpr ⟨hn.increasing, List.pairwise_singleton _ _, fun k hk g hg => ?_⟩
      rw [List.mem_singleton.mp hg]
      exact (holder hp).1 k hk
  · rcases hnew hk with hk | ⟨publication, hp, rfl⟩
    · rcases effect_scanning heffect hg with rfl | ⟨hx, -⟩
      · exact hpast rfl k (hn.past k hk)
      · exact hn.newest g hx k hk
    · rw [(effect_handed heffect hp).1] at hg
      cases hg
  · rw [hhanded] at hp
    rcases List.mem_append.mp hp with hp | hp
    · exact hn.built p hp
    · exact hbuilt p (handed_published (Option.mem_toList.mp hp))
  · rw [hpublished]
    exact hn.installed

end MapsNumbered

namespace OwnerLoop

/-! ## Runs -/

section
variable {s : OwnerLoop}

/-- The thread takes one command and answers it, or waits. -/
theorem threadStep_cases (ht : s.app.scanStore.threaded = true) (io : EngineIo) :
    s.threadStep io = s ∨ ∃ c commands, s.app.scanStore.queued = c :: commands ∧
      s.app.scanStore.gone = false ∧ s.threadStep io = { s with
        engine := (s.engine.apply io c).1
        applied := s.applied ++ [c]
        app := { s.app with scanStore := { s.app.scanStore with
          backend := .Threaded commands
            (s.app.scanStore.told ++ (s.engine.apply io c).2.toList) false } } } := by
  have hbackend := StoreHandle.backend_eq ht
  cases hqueued : s.app.scanStore.queued with
  | nil =>
    rw [hqueued] at hbackend
    refine Or.inl ?_
    unfold threadStep
    rw [hbackend]
  | cons c commands =>
    cases hgone : s.app.scanStore.gone with
    | true =>
      rw [hqueued, hgone] at hbackend
      refine Or.inl ?_
      unfold threadStep
      rw [hbackend]
    | false =>
      rw [hqueued, hgone] at hbackend
      unfold threadStep
      rw [hbackend]
      dsimp only
      split
      · exact Or.inl rfl
      · exact Or.inr ⟨c, commands, rfl, rfl, rfl⟩

theorem threadStop_eq (ht : s.app.scanStore.threaded = true) :
    s.threadStop = { s with app := { s.app with scanStore := { s.app.scanStore with
      backend := .Threaded s.app.scanStore.queued s.app.scanStore.told true } } } := by
  unfold threadStop
  rw [StoreHandle.backend_eq ht]

end

variable {env : OwnerEnv} {session : ScanSessionId} {first : ScanGeneration} {kind : StepKind}
  {s s' : OwnerLoop}

def Numbers (session : ScanSessionId) (first : ScanGeneration) (s : OwnerLoop) : Prop :=
  MapsNumbered session first s.app.scanStore s.engine s.applied

/-- The map of `s` is still installed in `s'`, or a newer one is. -/
def Newer (s s' : OwnerLoop) : Prop :=
  ∀ p, s.app.scanStore.published = some p → ∃ p', s'.app.scanStore.published = some p' ∧
    (p' = p ∨ p.manifest.generation < p'.manifest.generation)

theorem Newer.refl (s : OwnerLoop) : Newer s s := fun p hp => ⟨p, hp, Or.inl rfl⟩

theorem Newer.of_eq (h : s'.app.scanStore.published = s.app.scanStore.published) : Newer s s' :=
  fun p hp => ⟨p, h.trans hp, Or.inl rfl⟩

/-- A map that stays or makes room for a newer one does so over two stretches. -/
theorem newer_trans {o o' o'' : Option PublishedGeneration}
    (h : ∀ p, o = some p → ∃ p', o' = some p' ∧
      (p' = p ∨ p.manifest.generation < p'.manifest.generation))
    (h' : ∀ p, o' = some p → ∃ p', o'' = some p' ∧
      (p' = p ∨ p.manifest.generation < p'.manifest.generation)) :
    ∀ p, o = some p → ∃ p', o'' = some p' ∧
      (p' = p ∨ p.manifest.generation < p'.manifest.generation) := by
  intro p hp
  obtain ⟨p', hp', hle⟩ := h p hp
  obtain ⟨p'', hp'', hle'⟩ := h' p' hp'
  refine ⟨p'', hp'', ?_⟩
  rcases hle' with rfl | hlt'
  · exact hle
  · rcases hle with rfl | hlt
    · exact Or.inr hlt'
    · exact Or.inr (lt_trans hlt hlt')

theorem Newer.trans {s'' : OwnerLoop} (h : Newer s s') (h' : Newer s' s'') : Newer s s'' :=
  newer_trans h h'

theorem numbers_moves {engine : StoreEngine} {applied : List StoreCommand}
    {x y : MapState × StoreHandle} (h : Moves kind x y)
    (hn : MapsNumbered session first x.2 engine applied) : MapsNumbered session first y.2 engine applied ∧
      ∀ p, x.2.published = some p → ∃ p', y.2.published = some p' ∧
        (p' = p ∨ p.manifest.generation < p'.manifest.generation) := by
  induction h with
  | refl => exact ⟨hn, fun p hp => ⟨p, hp, Or.inl rfl⟩⟩
  | tail _ hmove ih =>
    obtain ⟨hn', hnewer⟩ := ih
    obtain ⟨hn'', hnewer'⟩ := hn'.move hmove
    exact ⟨hn'', newer_trans hnewer hnewer'⟩

/-- What a turn makes of the store decides, where it leaves the thread alone. -/
theorem numbers_of_store {h : StoreHandle} (hstore : s'.app.scanStore = h)
    (hengine : s'.engine = s.engine) (happlied : s'.applied = s.applied)
    (hn : MapsNumbered session first h s.engine s.applied)
    (hpublished : h.published = s.app.scanStore.published) :
    s'.Numbers session first ∧ Newer s s' := by
  refine ⟨?_, Newer.of_eq ?_⟩
  · unfold Numbers
    rw [hstore, hengine, happlied]
    exact hn
  · rw [hstore]
    exact hpublished

theorem numbers_turn (h : LoopTurn kind s s') (hs : s.Steady) (hn : s.Numbers session first) :
    s'.Numbers session first ∧ Newer s s' := by
  have hquiet {h : StoreHandle} {notes : List StoreCommand} {c : StoreCommand}
      (hq : StoreHandle.Queues s.app.scanStore h (notes ++ [c])) (hc : c.begins = none)
      (hneutral : ∀ c ∈ notes, c.isNeutral = true) :
      MapsNumbered session first h s.engine s.applied := by
    refine MapsNumbered.sends hn hq ?_
    rw [begun_append, begun_neutral hneutral]
    exact begun_quiet fun d hd => by rw [List.mem_singleton.mp hd]; exact hc
  cases h with
  | calls moves => exact numbers_moves moves hn
  | removes moves => exact numbers_moves moves.moves hn
  | begins primary rebuild required idle finished chain newest open_ neutral queues book =>
    obtain ⟨-, hstore⟩ := book_inj book
    exact numbers_of_store hstore rfl rfl (MapsNumbered.asks hn newest rfl neutral queues)
      queues.same.published
  | scanned primary reduction asks active reducing => exact ⟨hn, Newer.of_eq rfl⟩
  | reduced asks => exact ⟨hn, Newer.of_eq rfl⟩
  | cancelsPrimary asks primary open_ neutral queues book =>
    obtain ⟨-, hstore⟩ := book_inj book
    exact numbers_of_store hstore rfl rfl (hquiet queues rfl neutral) queues.same.published
  | publishes asks primary asked open_ neutral queues book =>
    obtain ⟨-, hstore⟩ := book_inj book
    exact numbers_of_store hstore rfl rfl (hquiet queues rfl neutral) queues.same.published
  | ends asks rebuild still without book =>
    obtain ⟨-, hstore⟩ := book_inj book
    exact numbers_of_store hstore rfl rfl hn rfl
  | finishes asks known oldest moves lost => exact numbers_moves moves hn
  | cancels asks active still later open_ neutral queues book =>
    obtain ⟨-, hstore⟩ := book_inj book
    exact numbers_of_store hstore rfl rfl (hquiet queues rfl neutral) queues.same.published
  | idles asks active => exact ⟨hn, Newer.of_eq rfl⟩
  | thread io runs =>
    rcases threadStep_cases hs.threaded io with heq | ⟨c, commands, hqueued, -, heq⟩
    · rw [heq]
      exact ⟨hn, Newer.refl s⟩
    · rw [heq]
      exact ⟨MapsNumbered.applies hn io hqueued rfl rfl rfl rfl, Newer.of_eq rfl⟩
  | threadEnds runs =>
    rw [threadStop_eq hs.threaded]
    exact ⟨MapsNumbered.of_same hn rfl (fun l hl => ⟨l, hl, le_refl l⟩) (List.Sublist.refl _) hn.built
      hn.installed, Newer.of_eq rfl⟩

theorem numbers_run (env : OwnerEnv) (session : ScanSessionId) (first : ScanGeneration) (page : SnapshotTree)
    (steps : List LoopStep) : ((machine env).run (start session first page) steps).Steady ∧
      ((machine env).run (start session first page) steps).Numbers session first :=
  run_turns env (steady_start session first page) MapsNumbered.start
    (fun _ _ _ hs hn h => (numbers_turn h hs hn).1) steps

theorem newer_run (env : OwnerEnv) (session : ScanSessionId) (first : ScanGeneration)
    (page : SnapshotTree) (steps more : List LoopStep) :
    Newer ((machine env).run (start session first page) steps)
      ((machine env).run (start session first page) (steps ++ more)) := by
  obtain ⟨hs, hn⟩ := numbers_run env session first page steps
  rw [Machine.run_append]
  exact (run_turns env (I := fun s' => s'.Numbers session first ∧
      Newer ((machine env).run (start session first page) steps) s') hs ⟨hn, .refl _⟩
    (fun _ _ _ hs hn h => by
      obtain ⟨hn', hnewer⟩ := numbers_turn h hs hn.1
      exact ⟨hn', hn.2.trans hnewer⟩) more).2.2

/-- In every run a map once installed stays, or a newer one takes its place; and every map installed
is one that a store of this session published. -/
theorem installed_maps_advance (session : ScanSessionId) (first : ScanGeneration)
    (page : SnapshotTree) (steps more : List LoopStep) {p : PublishedGeneration}
    (h : ((machine env).run (start session first page) steps).app.scanStore.published = some p) :
    StoreEngine.Built session first p ∧ ∃ p',
      ((machine env).run (start session first page) (steps ++ more)).app.scanStore.published =
        some p' ∧ (p' = p ∨ p.manifest.generation < p'.manifest.generation) := by
  obtain ⟨-, hn⟩ := numbers_run env session first page steps
  exact ⟨hn.installed p h, newer_run env session first page steps more p h⟩

end OwnerLoop

/-- An empty root that is scanned and published without a failure. -/
def OwnerEnv.quiet : OwnerEnv where
  scanRoot := []
  layout := ⟨200, 32⟩
  pageMemoryLimit := 2 ^ 20
  advances := fun _ => true
  detached := fun _ => true
  engine := StoreHandle.idleEngine

def CallWorld.quiet : CallWorld := ⟨fun _ => ⟨fun _ => none, (0, 0), false⟩, false⟩

namespace OwnerLoop

def emptyStart : OwnerLoop := start ⟨0⟩ ⟨0⟩ (SnapshotPageCache.emptyFolder .root)

/-- The scan ends, and its map is published, installed and shown. -/
def firstMapShown : List LoopStep :=
  [.scanFinished false .quiet, .threadStep StoreHandle.idleEngine, .storeEvent .quiet,
    .finishedPublication .quiet]

/-- A deletion removed a folder, and the thread builds the overlay without it. -/
def folderOverlaid : List LoopStep :=
  [.deletionFinished
      { rootRelativePath := ⟨[⟨[97], valid_a⟩]⟩
        scanRoot := [47]
        entries := ⟨[], { deleted := 1 }, true, true, none⟩
        softCancelled := false
        precise := true
        estimatedBytes := 0 } .quiet,
    .threadStep StoreHandle.idleEngine]

/-- The overlay takes the place of the first map. -/
theorem installed_maps_advance_overlay : ∃ p p' : PublishedGeneration,
    ((machine .quiet).run emptyStart firstMapShown).app.scanStore.published = some p ∧
      ((machine .quiet).run emptyStart
        (firstMapShown ++ (folderOverlaid ++ [.storeEvent .quiet]))).app.scanStore.published =
          some p' ∧
      StoreEngine.Built ⟨0⟩ ⟨0⟩ p ∧ p.manifest.generation < p'.manifest.generation := by
  have hfirst : ((machine .quiet).run emptyStart firstMapShown).app.scanStore.published.map
      (fun p => p.manifest.generation) = some ⟨0⟩ := by decide +kernel
  have hlast : ((machine .quiet).run emptyStart
      (firstMapShown ++ (folderOverlaid ++ [.storeEvent .quiet]))).app.scanStore.published.map
        (fun p => p.manifest.generation) = some ⟨1⟩ := by decide +kernel
  obtain ⟨p, hp, hzero⟩ := Option.map_eq_some_iff.mp hfirst
  obtain ⟨hbuilt, p', hp', hnewer⟩ := installed_maps_advance ⟨0⟩ ⟨0⟩ _ firstMapShown
    (folderOverlaid ++ [.storeEvent .quiet]) hp
  obtain ⟨q, hq, hone⟩ := Option.map_eq_some_iff.mp hlast
  obtain rfl : q = p' := Option.some.inj (hq.symm.trans hp')
  refine ⟨p, q, hp, hq, hbuilt, hnewer.resolve_left ?_⟩
  rintro rfl
  exact absurd (hzero.symm.trans hone) (by decide)

end OwnerLoop

end Excise
