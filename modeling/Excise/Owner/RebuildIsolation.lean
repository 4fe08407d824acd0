import Excise.Coordinator.Records
import Excise.Owner.Handed
import Excise.Owner.RebuildSession

/-!
# Rebuilds are isolated

While a rebuild goes on no removal waits to leave the map installed, so that no overlay is asked for:
the generation begun last stays the rebuild's, the coordinator stays at it, and the lease of the
rebuild is accepted in the end. A deletion whose removal an overlay of the map installed can describe
breaks this when it finishes behind the rebuild's back.
-/

namespace Excise
set_option autoImplicit false

variable {kind : StepKind} {m m' : MapState} {h h' : StoreHandle}

/-! ## No overlay beside a rebuild -/

/-- No removal is to leave the map installed while a rebuild goes on, nor while one is required,
unless by an overlay of a map that is there. -/
structure MapState.Bare (m : MapState) (h : StoreHandle) : Prop where
  active : m.rebuildActive = true → m.removals.prefixes = []
  required : m.rebuildRequired = true →
    m.removals.prefixes = [] ∨ (m.scanStoreAvailable = true ∧ h.published.isSome = true)

theorem Owes.bare (ho : Owes m m') (hb : m.Bare h) (hp : h'.published = h.published) : m'.Bare h' where
  active := by
    intro hactive
    have hactive' : m.rebuildActive = true := ho.active.symm.trans hactive
    have hkept := ho.kept (Or.inl hactive')
    rw [hb.active hactive'] at hkept
    exact List.subset_nil.mp hkept
  required := by
    intro hrequired
    have hrequired' : m.rebuildRequired = true := ho.required.symm.trans hrequired
    have hkept := ho.kept (Or.inr hrequired')
    rcases hb.required hrequired' with hnone | ⟨havailable, hinstalled⟩
    · rw [hnone] at hkept
      exact Or.inl (List.subset_nil.mp hkept)
    · exact Or.inr ⟨ho.available.trans havailable, by rw [hp]; exact hinstalled⟩

theorem Loses.bare (hl : Loses m m') (hb : m.Bare h) : m'.Bare h' where
  active := by
    intro hactive
    have hkept := hl.prefixes
    rw [hb.active (hl.active.symm.trans hactive)] at hkept
    exact List.subset_nil.mp hkept
  required := by
    intro hrequired
    have hrequired' : m.rebuildRequired = true := hl.required.symm.trans hrequired
    rcases hb.required hrequired' with hnone | ⟨havailable, -⟩
    · have hkept := hl.prefixes
      rw [hnone] at hkept
      exact Or.inl (List.subset_nil.mp hkept)
    · exact Or.inl (hl.dropped havailable hrequired')

theorem MapState.bare_of_nil (hnone : m.removals.prefixes = []) : m.Bare h :=
  ⟨fun _ => hnone, fun _ => Or.inl hnone⟩

theorem MapState.Bare.of_same (hb : m.Bare h) (hactive : m'.rebuildActive = m.rebuildActive)
    (hrequired : m'.rebuildRequired = m.rebuildRequired)
    (hprefixes : m'.removals.prefixes = m.removals.prefixes)
    (havailable : m'.scanStoreAvailable = m.scanStoreAvailable)
    (hp : h.published.isSome = true → h'.published.isSome = true) : m'.Bare h' := by
  refine ⟨fun hyes => hprefixes.trans (hb.active (hactive.symm.trans hyes)), fun hyes => ?_⟩
  rcases hb.required (hrequired.symm.trans hyes) with hnone | ⟨hmap, hinstalled⟩
  · exact Or.inl (hprefixes.trans hnone)
  · exact Or.inr ⟨havailable.trans hmap, hp hinstalled⟩

theorem Move.bare {x y : MapState × StoreHandle} (hspared : kind.spared) (hmove : Move kind x y)
    (hb : x.1.Bare x.2) : y.1.Bare y.2 := by
  cases hmove with
  | owes same owes aside => exact owes.bare hb rfl
  | loses same loses aside => exact loses.bare hb
  | invalidates same invalidates => exact MapState.bare_of_nil invalidates.dropped
  | adds available installed held added =>
    subst added
    refine ⟨fun hactive => ?_, fun _ => Or.inr ⟨available, installed⟩⟩
    exact absurd ((held hspared).symm.trans hactive) Bool.false_ne_true
  | sends queues quiet =>
    exact hb.of_same rfl rfl rfl rfl (by rw [queues.same.published]; exact fun h => h)
  | asksOverlay idle installed next base oldest open_ neutral queues noted asked =>
    subst asked noted
    refine ⟨fun hactive => ?_, fun hrequired => ?_⟩
    · cases oldest.symm.trans (hb.active hactive)
    · rcases hb.required hrequired with hnone | ⟨havailable, hinstalled⟩
      · cases oldest.symm.trans hnone
      · refine Or.inr ⟨havailable, ?_⟩
        rw [← queues.same.published] at hinstalled
        exact hinstalled
  | takes polls takes notice =>
    exact hb.of_same rfl rfl rfl rfl (by rw [takes.published]; exact fun h => h)
  | stray polls takes answer idle =>
    exact hb.of_same rfl rfl rfl rfl (by rw [takes.published]; exact fun h => h)
  | ends polls takes answer oldest ends =>
    cases ends with
    | scanOver notOverlay owes => exact owes.bare hb takes.published
    | unavailable lost owes => exact owes.bare hb takes.published
    | loses loses => exact loses.bare hb
    | invalidates invalidates => exact MapState.bare_of_nil invalidates.dropped
  | installs polls takes answer oldest available same =>
    rcases same with same | ⟨-, same⟩ <;> rw [same] <;>
      exact hb.of_same rfl rfl rfl rfl fun _ => rfl
  | fails polls takes idle none_ loses => exact loses.bare hb
  | stops polls told gone none_ loses => exact loses.bare hb

/-- A call sends no generation of a scan, and none at all beside a rebuild. -/
theorem Move.queues {x y : MapState × StoreHandle} (hmove : Move kind x y)
    (hb : x.1.Bare x.2) : ∃ cs, y.2.queued = x.2.queued ++ cs ∧ (∀ g, .BeginGeneration g ∉ cs) ∧
      (x.1.rebuildActive = true → begun cs = []) := by
  have hnone {h' : StoreHandle} (hq : h'.queued = x.2.queued) :
      ∃ cs, h'.queued = x.2.queued ++ cs ∧ (∀ g, .BeginGeneration g ∉ cs) ∧
        (x.1.rebuildActive = true → begun cs = []) :=
    ⟨[], by rw [hq, List.append_nil], fun _ => List.not_mem_nil, fun _ => rfl⟩
  cases hmove with
  | owes same owes aside => exact hnone rfl
  | loses same loses aside => exact hnone rfl
  | invalidates same invalidates => exact hnone rfl
  | adds available installed held added => exact hnone rfl
  | sends queues quiet =>
    refine ⟨_, queues.queued, fun g hg => ?_, fun _ => begun_quiet fun c hc => ?_⟩
    · rcases quiet _ hg with hno | hno <;> cases hno
    · rcases quiet c hc with hneutral | rfl
      · exact begins_neutral hneutral
      · rfl
  | asksOverlay idle installed next base oldest open_ neutral queues noted asked =>
    subst noted
    refine ⟨_, queues.queued, fun g hg => ?_, fun hactive => ?_⟩
    · rcases List.mem_append.mp hg with hg | hg
      · cases neutral _ hg
      · cases List.mem_singleton.mp hg
    · cases oldest.symm.trans (hb.active hactive)
  | takes polls takes notice => exact hnone takes.queued
  | stray polls takes answer idle => exact hnone takes.queued
  | ends polls takes answer oldest ends => exact hnone takes.queued
  | installs polls takes answer oldest available same => exact hnone takes.queued
  | fails polls takes idle none_ loses => exact hnone takes.queued
  | stops polls told gone none_ loses => exact hnone rfl

theorem Moves.bare {x y : MapState × StoreHandle} (hspared : kind.spared) (hmoves : Moves kind x y)
    (hb : x.1.Bare x.2) : y.1.Bare y.2 ∧ ∃ cs, y.2.queued = x.2.queued ++ cs ∧
      (∀ g, .BeginGeneration g ∉ cs) ∧ (x.1.rebuildActive = true → begun cs = []) := by
  induction hmoves with
  | refl => exact ⟨hb, [], (List.append_nil _).symm, fun _ => List.not_mem_nil, fun _ => rfl⟩
  | tail hbefore hmove ih =>
    obtain ⟨hb', cs, hcs, hscans, hquiet⟩ := ih
    obtain ⟨ds, hds, hscans', hquiet'⟩ := hmove.queues hb'
    refine ⟨hmove.bare hspared hb', cs ++ ds, by rw [hds, hcs, List.append_assoc], fun g hg => ?_,
      fun hactive => ?_⟩
    · exact (List.mem_append.mp hg).elim (hscans g) (hscans' g)
    · rw [begun_append, hquiet hactive, hquiet' ((Moves.frame hbefore).active.trans hactive)]
      rfl

/-- What a turn sends: beside a rebuild nothing begins, and a rebuild begins with its generation. -/
inductive TurnSends (active active' : Bool) (cs : List StoreCommand) : Prop where
  | quiet (scans : ∀ g, .BeginGeneration g ∉ cs)
      (kept : active' = true → active = true ∧ begun cs = []) : TurnSends active active' cs
  | begins {notes : List StoreCommand} {next : ScanGeneration}
      (neutral : ∀ c ∈ notes, c.isNeutral = true) (commands : cs = notes ++ [.BeginGeneration next]) :
      TurnSends active active' cs

theorem TurnSends.closing {active active' : Bool} {notes : List StoreCommand} {c : StoreCommand}
    (hneutral : ∀ c ∈ notes, c.isNeutral = true) (hc : c.begins = none)
    (hkept : active' = true → active = true) : TurnSends active active' (notes ++ [c]) := by
  have hnone : begun (notes ++ [c]) = [] := begun_quiet fun d hd => by
    rcases List.mem_append.mp hd with hd | hd
    · exact begins_neutral (hneutral d hd)
    · rw [List.mem_singleton.mp hd]
      exact hc
  refine .quiet (fun g hg => ?_) fun hyes => ⟨hkept hyes, hnone⟩
  have hno := List.filterMap_eq_nil_iff.mp hnone _ hg
  cases hno

theorem TurnSends.nothing {active active' : Bool} (hkept : active' = true → active = true) :
    TurnSends active active' [] :=
  .quiet (fun _ => List.not_mem_nil) fun hyes => ⟨hkept hyes, rfl⟩

namespace OwnerLoop
variable {s s' : OwnerLoop}

theorem sent_queued {cs : List StoreCommand} (happlied : s'.applied = s.applied)
    (hq : s'.app.scanStore.queued = s.app.scanStore.queued ++ cs) : s'.sent = s.sent ++ cs := by
  unfold sent
  rw [happlied, hq, List.append_assoc]

theorem LoopTurn.sends (hspared : kind.spared) (hturn : LoopTurn kind s s') (hs : s.Steady)
    (hb : s.app.map.Bare s.app.scanStore) : s'.app.map.Bare s'.app.scanStore ∧
      ∃ cs, s'.sent = s.sent ++ cs ∧ TurnSends s.app.map.rebuildActive s'.app.map.rebuildActive cs := by
  -- the same map and queue
  have hstays {primary reduction scanning rebuild : Bool} : s.app.map.Bare s.app.scanStore ∧
      ∃ cs, ({ s with
        primaryScanActive := primary, primaryReduction := reduction, scanning := scanning
        rebuildActive := rebuild } : OwnerLoop).sent = s.sent ++ cs ∧
        TurnSends s.app.map.rebuildActive s.app.map.rebuildActive cs :=
    ⟨hb, [], (List.append_nil _).symm, .nothing fun h => h⟩
  have hcalls {a : App} (moves : Moves kind s.app.book a.book) :
      a.map.Bare a.scanStore ∧ ∃ cs, a.scanStore.queued = s.app.scanStore.queued ++ cs ∧
        TurnSends s.app.map.rebuildActive a.map.rebuildActive cs := by
    obtain ⟨hb', cs, hcs, hscans, hquiet⟩ := moves.bare hspared hb
    have hactive : a.map.rebuildActive = s.app.map.rebuildActive := moves.frame.active
    refine ⟨hb', cs, hcs, .quiet hscans fun hyes => ?_⟩
    exact ⟨hactive.symm.trans hyes, hquiet (hactive.symm.trans hyes)⟩
  cases hturn with
  | calls moves =>
    obtain ⟨hb', cs, hcs, hsends⟩ := hcalls moves
    exact ⟨hb', cs, sent_queued rfl hcs, hsends⟩
  | removes moves =>
    obtain ⟨hb', cs, hcs, hsends⟩ := hcalls moves.moves
    exact ⟨hb', cs, sent_queued rfl hcs, hsends⟩
  | @begins a next h notes primary rebuild required idle finished chain newest open_ neutral queues book =>
    obtain ⟨hmap, hstore⟩ := book_inj book
    have hnone : s.app.map.removals.prefixes = [] := by
      rcases hb.required required with hnone | ⟨havailable, hinstalled⟩
      · exact hnone
      · unfold App.removalChainPending at chain
        simpa [havailable, hinstalled] using chain
    refine ⟨?_, notes ++ [.BeginGeneration next], sent_queued rfl ?_, .begins neutral rfl⟩
    · rw [hmap]
      exact MapState.bare_of_nil hnone
    · rw [hstore]
      exact queues.queued
  | scanned primary reduction asks active reducing => exact hstays
  | reduced asks => exact hstays
  | idles asks active => exact hstays
  | @cancelsPrimary a h notes asks primary open_ neutral queues book =>
    obtain ⟨hmap, hstore⟩ := book_inj book
    refine ⟨?_, notes ++ [.CancelActive], sent_queued rfl ?_, .closing neutral rfl fun hyes => ?_⟩
    · rw [hmap]
      exact MapState.bare_of_nil rfl
    · rw [hstore]
      exact queues.queued
    · rw [hmap] at hyes
      exact hyes
  | @publishes a pending h notes asks primary asked open_ neutral queues book =>
    obtain ⟨hmap, hstore⟩ := book_inj book
    refine ⟨?_, notes ++ [.Publish], sent_queued rfl ?_, .closing neutral rfl fun hyes => ?_⟩
    · rw [hmap, hstore]
      exact hb.of_same rfl rfl rfl rfl (by rw [queues.same.published]; exact fun h => h)
    · rw [hstore]
      exact queues.queued
    · rw [hmap] at hyes
      exact hyes
  | ends asks rebuild still without book =>
    obtain ⟨hmap, hstore⟩ := book_inj book
    refine ⟨?_, [], sent_queued rfl ?_, .nothing fun hyes => ?_⟩
    · rw [hmap, hstore]
      exact hb.of_same rfl rfl rfl rfl fun h => h
    · rw [hstore, List.append_nil]
    · rw [hmap] at hyes
      exact hyes
  | @finishes a failure rest target asks known oldest moves lost =>
    have hactive : s.app.map.rebuildActive = true := by
      rw [← SteadyAt.target hs, known]
      rfl
    obtain ⟨hb', cs, hcs, hscans, -⟩ :=
      moves.bare hspared (MapState.bare_of_nil (m := s.app.map.ended rest) (hb.active hactive))
    have hover : a.map.rebuildActive = false := moves.frame.active
    refine ⟨hb', cs, sent_queued rfl hcs, .quiet hscans fun hyes => ?_⟩
    exact absurd (hover.symm.trans hyes) Bool.false_ne_true
  | @cancels a h available rest notes asks active still later open_ neutral queues book =>
    obtain ⟨hmap, hstore⟩ := book_inj book
    refine ⟨?_, notes ++ [.CancelActive], sent_queued rfl ?_, .closing neutral rfl fun _ => active⟩
    · rw [hmap]
      exact MapState.bare_of_nil (hb.active active)
    · rw [hstore]
      exact queues.queued
  | thread io runs =>
    rcases threadStep_cases hs.threaded io with heq | ⟨c, commands, hqueued, -, heq⟩
    · rw [heq]
      exact ⟨hb, [], (List.append_nil _).symm, .nothing fun h => h⟩
    · rw [heq]
      refine ⟨hb.of_same rfl rfl rfl rfl fun h => h, [], ?_, .nothing fun h => h⟩
      unfold sent
      rw [hqueued, List.append_nil]
      exact List.append_assoc s.applied [c] commands
  | threadEnds runs =>
    rw [threadStop_eq hs.threaded]
    exact ⟨hb.of_same rfl rfl rfl rfl fun h => h, [], (List.append_nil _).symm, .nothing fun h => h⟩

end OwnerLoop

/-! ## The coordinator follows -/

theorem begun_cons (c : StoreCommand) (cs : List StoreCommand) :
    begun (c :: cs) = c.begins.toList ++ begun cs := by
  unfold begun
  rw [List.filterMap_cons]
  cases c.begins with
  | none => rfl
  | some g => rfl

namespace RebuildWork
variable {x y : RebuildWork} {c : StoreCommand} {cs : List StoreCommand}

/-- A lease id is left. -/
abbrev Roomy (x : RebuildWork) : Prop := x.coordinator.nextLease < satMax 64

theorem follow_quiet (h : c.begins = none) : x.follow c = some x := by
  cases c with
  | BeginGeneration generation => cases h
  | Overlay request => cases h
  | _ => rfl

theorem foldlM_quiet (h : begun cs = []) : cs.foldlM follow x = some x := by
  induction cs with
  | nil => rfl
  | cons c cs ih =>
    rw [begun_cons, List.append_eq_nil_iff, Option.toList_eq_nil_iff] at h
    rw [List.foldlM_cons, follow_quiet h.1]
    exact ih h.2

theorem follow_begin {generation : ScanGeneration} (h : x.follow (.BeginGeneration generation) = some y) :
    (x.coordinator.advance generation).2 = true ∧ ∃ lease,
      (x.coordinator.advance generation).1.acquire .RefreshSubtree .root .Foreground =
        (y.coordinator, some lease) ∧ y.lease = some lease := by
  unfold follow at h
  dsimp only at h
  split at h
  · rename_i hadvanced
    obtain ⟨lease, hlease, rfl⟩ := Option.map_eq_some_iff.mp h
    exact ⟨hadvanced, lease, Prod.ext rfl hlease, rfl⟩
  · cases h

theorem room_of_follow (h : x.follow c = some y) (hroom : y.Roomy) : x.Roomy := by
  cases c with
  | BeginGeneration generation =>
    obtain ⟨-, lease, hacquired, -⟩ := follow_begin h
    unfold Roomy at hroom ⊢
    rw [show y.coordinator = _ from (congrArg Prod.fst hacquired).symm] at hroom
    rw [← ScanCoordinator.advance_nextLease x.coordinator generation]
    exact ScanCoordinator.room_of_acquire _ _ _ hroom
  | Overlay request =>
    cases h
    unfold Roomy at hroom ⊢
    rw [← ScanCoordinator.advance_nextLease x.coordinator request.generation]
    exact hroom
  | _ =>
    cases h
    exact hroom

theorem serving_follow (hx : x.coordinator.Serving) (h : x.follow c = some y) (hroom : y.Roomy) :
    y.coordinator.Serving := by
  cases c with
  | BeginGeneration generation =>
    have hleft := room_of_follow h hroom
    obtain ⟨-, lease, hacquired, -⟩ := follow_begin h
    rw [show y.coordinator = _ from (congrArg Prod.fst hacquired).symm]
    refine (hx.advance generation).acquire _ _ _ fun _ => ?_
    rw [ScanCoordinator.advance_nextLease]
    exact hleft
  | Overlay request =>
    cases h
    exact hx.advance request.generation
  | _ =>
    cases h
    exact hx

theorem foldlM_append {ds : List StoreCommand} (h : (cs ++ ds).foldlM follow x = some y) :
    ∃ z, cs.foldlM follow x = some z ∧ ds.foldlM follow z = some y := by
  rw [List.foldlM_append] at h
  exact Option.bind_eq_some_iff.mp h

theorem foldlM_cons (h : (c :: cs).foldlM follow x = some y) :
    ∃ z, x.follow c = some z ∧ cs.foldlM follow z = some y := by
  rw [List.foldlM_cons] at h
  exact Option.bind_eq_some_iff.mp h

theorem room_of_foldlM (h : cs.foldlM follow x = some y) (hroom : y.Roomy) : x.Roomy := by
  induction cs generalizing x with
  | nil =>
    cases h
    exact hroom
  | cons c cs ih =>
    obtain ⟨z, hz, hrest⟩ := foldlM_cons h
    exact room_of_follow hz (ih hrest)

theorem serving_foldlM (hx : x.coordinator.Serving) (h : cs.foldlM follow x = some y)
    (hroom : y.Roomy) : y.coordinator.Serving := by
  induction cs generalizing x with
  | nil =>
    cases h
    exact hx
  | cons c cs ih =>
    obtain ⟨z, hz, hrest⟩ := foldlM_cons h
    exact ih (serving_follow hx hz (room_of_foldlM hrest hroom)) hrest

/-- The lease of a rebuild whose generation was begun last, and is the one served. -/
structure Holds (x : RebuildWork) (commands : List StoreCommand) (lease : WorkLease) : Prop where
  held : x.lease = some lease
  kind : lease.key.kind = .RefreshSubtree
  alone : ∃ before after, commands = before ++ .BeginGeneration lease.key.generation :: after ∧
    begun after = []
  current : x.coordinator.generation = lease.key.generation
  active : x.coordinator.active[lease.id]? = some lease

theorem Holds.sends {commands : List StoreCommand} {lease : WorkLease}
    (h : x.Holds commands lease) (hquiet : begun cs = []) : x.Holds (commands ++ cs) lease := by
  obtain ⟨before, after, hcommands, hafter⟩ := h.alone
  refine ⟨h.held, h.kind, ⟨before, after ++ cs, ?_, ?_⟩, h.current, h.active⟩
  · rw [hcommands, List.append_assoc, List.cons_append]
  · rw [begun_append, hafter, hquiet]
    rfl

/-- A rebuild holds its lease from when it begins. -/
theorem holds_begin {commands : List StoreCommand} {generation : ScanGeneration}
    (hx : x.coordinator.Serving) (h : x.follow (.BeginGeneration generation) = some y)
    (hroom : y.Roomy) : ∃ lease, y.Holds (commands ++ [.BeginGeneration generation]) lease := by
  have hleft := room_of_follow h hroom
  obtain ⟨hadvanced, lease, hacquired, hheld⟩ := follow_begin h
  have hgeneration := ScanCoordinator.advance_generation hadvanced
  have hserving := (hx.advance generation).consistent
  obtain ⟨hera, hrecords⟩ := ScanCoordinator.acquire_records hserving.filed .RefreshSubtree .root
    .Foreground
  obtain ⟨-, hspec⟩ := ScanCoordinator.acquire_spec hserving .RefreshSubtree .root .Foreground fun _ => by
    rw [ScanCoordinator.advance_nextLease]
    exact hleft
  rw [hacquired] at hera hrecords hspec
  have hkey : lease.key.generation = generation := by
    rw [hrecords.1]
    exact hgeneration
  refine ⟨lease, hheld, hspec.kind_eq, ⟨commands, [], ?_, rfl⟩, ?_, ?_⟩
  · rw [hkey]
  · rw [hkey, ← hgeneration]
    exact hera.2
  · rw [hspec.active, if_pos rfl]

end RebuildWork

/-- A rebuild that goes on holds its lease. -/
def OwnerLoop.Kept (s : OwnerLoop) (x : RebuildWork) : Prop :=
  s.app.map.rebuildActive = true → ∃ lease, x.Holds s.sent lease

namespace OwnerLoop
variable {s s' : OwnerLoop} {x y : RebuildWork} {cs : List StoreCommand}

theorem Kept.sends (hsends : TurnSends s.app.map.rebuildActive s'.app.map.rebuildActive cs)
    (hsent : s'.sent = s.sent ++ cs) (hx : x.coordinator.Serving) (hkept : s.Kept x)
    (h : cs.foldlM RebuildWork.follow x = some y) (hroom : y.Roomy) : s'.Kept y := by
  intro hactive
  rw [hsent]
  cases hsends with
  | quiet scans kept =>
    obtain ⟨hbefore, hquiet⟩ := kept hactive
    rw [RebuildWork.foldlM_quiet hquiet] at h
    cases h
    obtain ⟨lease, hholds⟩ := hkept hbefore
    exact ⟨lease, hholds.sends hquiet⟩
  | @begins notes next neutral commands =>
    subst commands
    obtain ⟨z, hz, hbegin⟩ := RebuildWork.foldlM_append h
    rw [RebuildWork.foldlM_quiet (begun_neutral neutral)] at hz
    cases hz
    obtain ⟨z, hbegin, hlast⟩ := RebuildWork.foldlM_cons hbegin
    cases hlast
    rw [← List.append_assoc]
    exact RebuildWork.holds_begin hx hbegin hroom

/-! ## Steps -/

variable {session : ScanSessionId} {first : ScanGeneration} {env : OwnerEnv} {w : CallWorld}

/-- What the loop keeps of itself. -/
structure Guarded (session : ScanSessionId) (first : ScanGeneration) (s : OwnerLoop) : Prop where
  steady : s.Steady
  numbers : s.Numbers session first
  bare : s.app.map.Bare s.app.scanStore

theorem guarded_start (session : ScanSessionId) (first : ScanGeneration) (page : SnapshotTree) :
    (start session first page).Guarded session first :=
  ⟨steady_start session first page, MapsNumbered.start, MapState.bare_of_nil rfl⟩

theorem Guarded.turns (hspared : kind.spared) (h : LoopTurns kind s s')
    (hg : s.Guarded session first) : s'.Guarded session first ∧ ∃ cs, s'.sent = s.sent ++ cs ∧
      ∀ x y, x.coordinator.Serving → s.Kept x → cs.foldlM RebuildWork.follow x = some y → y.Roomy →
        s'.Kept y := by
  induction h with
  | refl =>
    refine ⟨hg, [], (List.append_nil _).symm, fun x y _ hkept h _ => ?_⟩
    cases h
    exact hkept
  | tail _ hturn ih =>
    obtain ⟨hg', cs, hcs, hfollow⟩ := ih
    obtain ⟨hbare, ds, hds, hsends⟩ := LoopTurn.sends hspared hturn hg'.steady hg'.bare
    refine ⟨⟨LoopTurn.steady hturn hg'.steady, (numbers_turn hturn hg'.steady hg'.numbers).1, hbare⟩,
      cs ++ ds, by rw [hds, hcs, List.append_assoc], fun x y hx hkept h hroom => ?_⟩
    obtain ⟨z, hz, hlast⟩ := RebuildWork.foldlM_append h
    have hroom' := RebuildWork.room_of_foldlM hlast hroom
    exact Kept.sends hsends hds (RebuildWork.serving_foldlM hx hz hroom')
      (hfollow x z hx hkept hz hroom') hlast hroom

/-- A rebuild that ends needs its lease no longer; the next one takes its own. -/
theorem Guarded.endsFirst (hspared : kind.spared) (h : EndsFirst env kind s s')
    (hg : s.Guarded session first) : s'.Guarded session first ∧ ∃ cs, s'.sent = s.sent ++ cs ∧
      ∀ x y, x.coordinator.Serving → cs.foldlM RebuildWork.follow x = some y → y.Roomy →
        s'.Kept y := by
  obtain ⟨s₁, hturns, hover, ht, hmore⟩ := h
  obtain ⟨hg₁, cs, hcs, -⟩ := hg.turns hspared hturns
  have hbegins : LoopTurns kind s₁ s' := turns_startPending ht hmore
  obtain ⟨hg', ds, hds, hfollow⟩ := hg₁.turns hspared hbegins
  refine ⟨hg', cs ++ ds, by rw [hds, hcs, List.append_assoc], fun x y hx h hroom => ?_⟩
  obtain ⟨z, hz, hlast⟩ := RebuildWork.foldlM_append h
  refine hfollow z y (RebuildWork.serving_foldlM hx hz (RebuildWork.room_of_foldlM hlast hroom))
    (fun hactive => ?_) hlast hroom
  exact absurd (hover.symm.trans hactive) Bool.false_ne_true

end OwnerLoop

/-! ## The calls of the others -/

namespace ScanCoordinator
variable {c : ScanCoordinator} {call : Call}

theorem sameEra_shared (h : call.isShared = true) (hc : c.Consistent) :
    SameEra c (c.answer call).1 := by
  have hlease (hcall : call = .leaseNext ∨ call = .leaseNextScan ∨ ∃ key, call = .leaseExact key) :
      SameEra c (c.answer call).1 := by
    rcases lease_cases hc hcall with hnone | ⟨w, focused, -, heq⟩
    · rw [hnone]
      exact .refl c
    · rw [heq]
      exact sameEra_leaseQueued c w focused
  cases call with
  | schedule key priority => exact sameEra_schedule c key priority
  | focus path => exact ⟨rfl, rfl⟩
  | leaseNextScan => exact hlease (Or.inr (Or.inl rfl))
  | leaseExact key => exact hlease (Or.inr (Or.inr ⟨key, rfl⟩))
  | finish lease completion => exact sameEra_finish c lease completion
  | requeue lease => exact sameEra_requeue c lease
  | cancelScanWork => exact sameEra_terminateMatching c .Cancelled isEnumerate
  | failScanWork => exact sameEra_terminateMatching c .Failed isEnumerate
  | invalidateScanWork => exact sameEra_terminateMatching c .Invalidated isEnumerate
  | _ => cases h

theorem Serving.shared (hc : c.Serving) (h : call.isShared = true)
    (hroom : (c.answer call).1.nextLease < satMax 64) : (c.answer call).1.Serving := by
  have hleft := room_of_answer call hroom
  have hlease (hcall : call = .leaseNext ∨ call = .leaseNextScan ∨ ∃ key, call = .leaseExact key) :
      (c.answer call).1.Serving := by
    rcases lease_cases hc.consistent hcall with hnone | ⟨w, focused, hw, heq⟩
    · rw [hnone]
      exact hc
    · rw [heq]
      exact hc.leaseQueued hw hleft focused
  cases call with
  | schedule key priority => exact hc.schedule key priority
  | focus path => exact ⟨hc.consistent.of_eq rfl rfl rfl rfl rfl rfl, hc.pending, hc.active⟩
  | leaseNextScan => exact hlease (Or.inr (Or.inl rfl))
  | leaseExact key => exact hlease (Or.inr (Or.inr ⟨key, rfl⟩))
  | finish lease completion => exact hc.finish lease completion
  | requeue lease => exact hc.requeue lease
  | cancelScanWork => exact hc.terminateMatching .Cancelled isEnumerate
  | failScanWork => exact hc.terminateMatching .Failed isEnumerate
  | invalidateScanWork => exact hc.terminateMatching .Invalidated isEnumerate
  | _ => cases h

/-- None ends the refresh of a tree. -/
theorem ends_shared (h : call.isShared = true) {l : WorkLease} (hl : l.key.kind = .RefreshSubtree) :
    ends (call, (c.answer call).2) l = false := by
  have hother {lease : WorkLease} (hlease : decide (lease.key.kind ≠ .RefreshSubtree) = true) :
      decide (lease = l) = false := by
    refine decide_eq_false fun heq => ?_
    rw [heq] at hlease
    exact of_decide_eq_true hlease hl
  have henumerate : isEnumerate l.key = false := by
    unfold isEnumerate
    rw [hl]
    rfl
  cases call with
  | schedule key priority => rfl
  | focus path => rfl
  | leaseNextScan => rfl
  | leaseExact key => rfl
  | finish lease completion =>
    change ends (.finish lease completion, .finished (c.finish lease completion).2) l = false
    cases (c.finish lease completion).2 with
    | Accepted => exact hother h
    | StaleLease => rfl
  | requeue lease =>
    change ends (.requeue lease, .requeued (c.requeue lease).2) l = false
    cases (c.requeue lease).2 with
    | Requeued => exact hother h
    | StaleLease => rfl
  | cancelScanWork => exact henumerate
  | failScanWork => exact henumerate
  | invalidateScanWork => exact henumerate
  | _ => cases h

end ScanCoordinator

namespace RebuildSession
variable {session : ScanSessionId} {first : ScanGeneration} {env : OwnerEnv}
  {s s' : RebuildSession}

/-- A step that hands the lease back ends the rebuild first. -/
theorem ends_of_completion {a : LoopStep} {o o' : OwnerLoop} {done : WorkCompletion}
    (ht : o.app.scanStore.threaded = true) (hdone : completion o a = some done)
    (h : o.step? env a = some o') : OwnerLoop.EndsFirst env (o.stepKind a) o o' := by
  cases a with
  | finishedPublication w =>
    unfold completion at hdone
    dsimp only at hdone
    split at hdone
    · rename_i hfinished
      exact OwnerLoop.ends_finishNextPublication rfl ht hfinished rfl h
    · rename_i hfinished
      exact OwnerLoop.ends_finishNextPublication rfl ht hfinished rfl h
    · cases hdone
  | scanFinished cancelled w =>
    unfold completion at hdone
    dsimp only at hdone
    split at hdone
    · rename_i hends
      simp only [Bool.and_eq_true] at hends
      obtain ⟨⟨hscanning, hrebuild⟩, rfl⟩ := hends
      exact OwnerLoop.ends_scanFinished rfl ht hscanning hrebuild h
    · cases hdone
  | _ => cases hdone

/-- A step spares the rebuild unless a deletion is to leave the map installed while it goes on. -/
def sparesRebuild (s : RebuildSession) : SessionStep → Bool
  | .loop a => s.loop.sparesRebuild a
  | .shared _ => true

structure Invariant (session : ScanSessionId) (first : ScanGeneration) (s : RebuildSession) : Prop where
  guarded : s.loop.Guarded session first
  serving : s.work.coordinator.Serving
  kept : s.loop.Kept s.work

theorem invariant_start (session : ScanSessionId) (first : ScanGeneration) (page : SnapshotTree) :
    (start session first page).Invariant session first :=
  ⟨OwnerLoop.guarded_start session first page, ScanCoordinator.serving_new session first,
    fun hno => (by cases hno)⟩

theorem Invariant.shared (h : s.Invariant session first) (call : SharedCall)
    (hroom : (s.work.coordinator.answer call.call).1.nextLease < satMax 64) :
    Invariant session first { s with work := { s.work with
      coordinator := (s.work.coordinator.answer call.call).1 } } := by
  refine ⟨h.guarded, h.serving.shared call.shared hroom, fun hactive => ?_⟩
  obtain ⟨lease, hholds⟩ := h.kept hactive
  refine ⟨lease, hholds.held, hholds.kind, hholds.alone, ?_, ?_⟩
  · exact (ScanCoordinator.sameEra_shared call.shared h.serving.consistent).2.trans hholds.current
  · exact ScanCoordinator.active_kept h.serving.consistent call.call hholds.active
      (ScanCoordinator.ends_shared call.shared hholds.kind)

theorem step_loop {a : LoopStep} (h : s.step? env (.loop a) = some s') :
    ∃ work loop after, s.handedBack a = some work ∧
      s.loop.step? { env with advances := fun generation => (work.coordinator.advance generation).2 } a =
        some loop ∧
      (loop.sent.drop s.loop.sent.length).foldlM RebuildWork.follow work = some after ∧
      s' = ⟨loop, after⟩ := by
  unfold step? at h
  obtain ⟨work, hwork, h⟩ := Option.bind_eq_some_iff.mp h
  obtain ⟨loop, hloop, h⟩ := Option.bind_eq_some_iff.mp h
  obtain ⟨after, hafter, h⟩ := Option.bind_eq_some_iff.mp h
  cases h
  exact ⟨work, loop, after, hwork, hloop, hafter, rfl⟩

theorem handedBack_cases {a : LoopStep} {work : RebuildWork} (h : s.handedBack a = some work) :
    (completion s.loop a = none ∧ work = s.work) ∨ ∃ done lease, completion s.loop a = some done ∧
      work = ⟨(s.work.coordinator.finish lease done).1, none⟩ := by
  unfold handedBack at h
  split at h
  · rename_i done hdone
    obtain ⟨lease, -, hfinish⟩ := Option.bind_eq_some_iff.mp h
    dsimp only at hfinish
    split at hfinish
    · cases hfinish
      exact Or.inr ⟨done, lease, hdone, rfl⟩
    · cases hfinish
  · rename_i hnone
    cases h
    exact Or.inl ⟨hnone, rfl⟩

theorem Invariant.loop {a : LoopStep} (h : s.Invariant session first) (hspares : s.loop.sparesRebuild a = true)
    (hstep : s.step? env (.loop a) = some s') (hroom : s'.work.Roomy) :
    s'.Invariant session first := by
  obtain ⟨work, loop, after, hwork, hloop, hafter, rfl⟩ := step_loop hstep
  rcases handedBack_cases hwork with ⟨-, rfl⟩ | ⟨done, lease, hdone, rfl⟩
  · obtain ⟨hg, cs, hcs, hfollow⟩ :=
      h.guarded.turns hspares (OwnerLoop.turns_step h.guarded.steady hloop)
    rw [hcs, List.drop_left] at hafter
    exact ⟨hg, RebuildWork.serving_foldlM h.serving hafter hroom,
      hfollow _ _ h.serving h.kept hafter hroom⟩
  · have hends : OwnerLoop.EndsFirst _ (s.loop.stepKind a) s.loop loop :=
      ends_of_completion h.guarded.steady.threaded hdone hloop
    obtain ⟨hg, cs, hcs, hfollow⟩ := h.guarded.endsFirst hspares hends
    rw [hcs, List.drop_left] at hafter
    have hserving := h.serving.finish lease done
    exact ⟨hg, RebuildWork.serving_foldlM hserving hafter hroom, hfollow _ _ hserving hafter hroom⟩

theorem room_of_step {a : SessionStep} (hstep : s.step? env a = some s') (hroom : s'.work.Roomy) :
    s.work.Roomy := by
  cases a with
  | loop a =>
    obtain ⟨work, loop, after, hwork, -, hafter, rfl⟩ := step_loop hstep
    have hleft := RebuildWork.room_of_foldlM hafter hroom
    rcases handedBack_cases hwork with ⟨-, rfl⟩ | ⟨done, lease, -, rfl⟩
    · exact hleft
    · exact ScanCoordinator.room_of_answer (.finish lease done) hleft
  | shared call =>
    cases hstep
    exact ScanCoordinator.room_of_answer call.call hroom

/-- What a step keeps, while lease ids are left. -/
theorem invariant_step {a : SessionStep} (h : s.work.Roomy → s.Invariant session first)
    (hspares : s.sparesRebuild a = true) (hroom : ((machine env).step s a).1.work.Roomy) :
    ((machine env).step s a).1.Invariant session first := by
  unfold machine at hroom ⊢
  dsimp only at hroom ⊢
  cases hstep : s.step? env a with
  | none =>
    rw [hstep] at hroom
    exact h hroom
  | some s' =>
    rw [hstep] at hroom
    have hinv := h (room_of_step hstep hroom)
    cases a with
    | loop a => exact hinv.loop hspares hstep hroom
    | shared call =>
      cases hstep
      exact hinv.shared call hroom

theorem invariant_run {page : SnapshotTree} {steps : List SessionStep}
    (hspares : (machine env).Along (fun s a => s.sparesRebuild a = true)
      (start session first page) steps)
    (hroom : ((machine env).run (start session first page) steps).work.Roomy) :
    ((machine env).run (start session first page) steps).Invariant session first :=
  (machine env).run_induction_along (P := fun _ s => s.work.Roomy → s.Invariant session first)
    (fun _ => invariant_start session first page) (fun _ _ _ h hspares => invariant_step h hspares)
    hspares hroom

/-! ## Isolation -/

/-- The generation of a rebuild that goes on: its lease is held, no other generation was begun since,
the coordinator serves it and accepts the lease in the end, all scan work handed out is of it, and
once the thread begins it the store takes input of no other. -/
structure Isolated (s : RebuildSession) (lease : WorkLease) : Prop where
  held : s.work.lease = some lease
  alone : ∃ before after, s.loop.sent = before ++ .BeginGeneration lease.key.generation :: after ∧
    begun after = []
  current : s.work.coordinator.generation = lease.key.generation
  accepted : ∀ completion, (s.work.coordinator.finish lease completion).2 = .Accepted
  scans : ∀ (id : LeaseId) (l : WorkLease), s.work.coordinator.active[id]? = some l →
    l.key.kind.isScanWork = true → l.key.generation = lease.key.generation
  receives : .BeginGeneration lease.key.generation ∈ s.loop.applied →
    ∀ g, s.loop.engine.store.scanning = some g → g = lease.key.generation

end RebuildSession

/-- A generation that was applied and is the last one begun is the last one scanned. -/
theorem lastScanned_alone {first generation : ScanGeneration}
    {applied queued before after : List StoreCommand}
    (hordered : (first :: begun (applied ++ queued)).Pairwise (· < ·))
    (hsent : applied ++ queued = before ++ .BeginGeneration generation :: after)
    (hafter : begun after = []) (happlied : .BeginGeneration generation ∈ applied) :
    lastScanned first applied = generation := by
  obtain ⟨early, late, rfl⟩ := List.append_of_mem happlied
  have hends : begun (early ++ .BeginGeneration generation :: late ++ queued) =
      begun before ++ [generation] := by
    rw [hsent, begun_append, begun_cons, hafter]
    rfl
  have hsplit : begun (early ++ .BeginGeneration generation :: late ++ queued) =
      begun early ++ generation :: begun (late ++ queued) := by
    rw [List.append_assoc, begun_append, List.cons_append, begun_cons]
    rfl
  have hpairs := (List.pairwise_cons.mp hordered).2
  -- what is begun behind the last one would be past it
  have hnone : begun (late ++ queued) = [] := by
    refine List.eq_nil_iff_forall_not_mem.mpr fun k hk => ?_
    have hpast : generation < k := by
      rw [hsplit] at hpairs
      exact (List.pairwise_cons.mp (List.pairwise_append.mp hpairs).2.1).1 k hk
    have hmem : k ∈ begun before ++ [generation] := by
      rw [← hends, hsplit]
      exact List.mem_append_right _ (List.mem_cons_of_mem _ hk)
    rcases List.mem_append.mp hmem with hk | hk
    · rw [hends] at hpairs
      have hbefore := (List.pairwise_append.mp hpairs).2.2 k hk generation (List.mem_singleton_self _)
      exact lt_asymm hpast hbefore
    · exact absurd (List.mem_singleton.mp hk) hpast.ne'
  rw [begun_append, List.append_eq_nil_iff] at hnone
  rw [lastScanned_append]
  exact lastScanned_quiet (List.filterMap_eq_nil_iff.mp hnone.1)

namespace RebuildSession
variable {session : ScanSessionId} {first : ScanGeneration} {env : OwnerEnv}
  {s : RebuildSession}

theorem Invariant.isolated (h : s.Invariant session first)
    (hactive : s.loop.app.map.rebuildActive = true) : ∃ lease, s.Isolated lease := by
  obtain ⟨lease, hholds⟩ := h.kept hactive
  refine ⟨lease, hholds.held, hholds.alone, hholds.current, fun completion => ?_, fun id l hl hscan => ?_,
    fun happlied g hg => ?_⟩
  · unfold ScanCoordinator.finish
    rw [if_pos hholds.active]
  · exact (h.serving.active id l hl hscan).trans hholds.current
  · obtain ⟨before, after, hsent, hafter⟩ := hholds.alone
    have hnumbers := h.guarded.numbers
    exact (hnumbers.scanning g hg).trans
      (lastScanned_alone hnumbers.ordered hsent hafter happlied)

/-- In every run whose deletions spare the rebuilds that go on, a rebuild is isolated all the while. -/
theorem rebuilds_isolated (env : OwnerEnv) (session : ScanSessionId) (first : ScanGeneration)
    (page : SnapshotTree) (steps : List SessionStep)
    (hspares : (machine env).Along (fun s a => s.sparesRebuild a = true)
      (start session first page) steps)
    (hroom : ((machine env).run (start session first page) steps).work.Roomy)
    (hactive :
      ((machine env).run (start session first page) steps).loop.app.map.rebuildActive = true) :
    ∃ lease, ((machine env).run (start session first page) steps).Isolated lease :=
  (invariant_run hspares hroom).isolated hactive

def emptySession : RebuildSession := start ⟨0⟩ ⟨0⟩ (SnapshotPageCache.emptyFolder .root)

/-- A deletion removed a file that has other links, which no overlay describes. -/
def linkedFileRemoved : LoopStep :=
  .deletionFinished
    { rootRelativePath := ⟨[⟨[98], valid_b⟩]⟩
      scanRoot := [47]
      entries := ⟨[], { deleted := 1, deletedWithOtherLinks := true }, true, true, none⟩
      softCancelled := false
      precise := true
      estimatedBytes := 0 } .quiet

/-- The file is removed during the first scan; its map is shown and scanned again. -/
def rebuildBegun : List SessionStep := (linkedFileRemoved :: OwnerLoop.firstMapShown).map .loop

/-- The thread begins the rebuild, a worker scans the root, and another linked file is removed. -/
def rebuildScans : List SessionStep :=
  [.shared ⟨.schedule ⟨⟨0⟩, ⟨1⟩, .EnumerateDirectory, .root⟩ .Background, rfl⟩,
    .shared ⟨.leaseNextScan, rfl⟩, .loop (.threadStep StoreHandle.idleEngine),
    .loop (.threadStep StoreHandle.idleEngine), .loop linkedFileRemoved]

theorem rebuilds_isolated_scan : ∃ lease,
    ((machine .quiet).run emptySession (rebuildBegun ++ rebuildScans)).Isolated lease ∧
      lease.key.generation = ⟨1⟩ ∧
      ((machine .quiet).run emptySession
        (rebuildBegun ++ rebuildScans)).loop.engine.store.scanning = some ⟨1⟩ ∧
      ((machine .quiet).run emptySession
        (rebuildBegun ++ rebuildScans)).work.coordinator.active.size = 2 := by
  have hscanning : ((machine .quiet).run emptySession
      (rebuildBegun ++ rebuildScans)).loop.engine.store.scanning = some ⟨1⟩ := by decide +kernel
  have hlease : (((machine .quiet).run emptySession
      (rebuildBegun ++ rebuildScans)).work.lease.map fun l => l.key.generation) = some ⟨1⟩ := by
    decide +kernel
  obtain ⟨lease, hisolated⟩ := rebuilds_isolated .quiet ⟨0⟩ ⟨0⟩ (SnapshotPageCache.emptyFolder .root)
    (rebuildBegun ++ rebuildScans) (by decide +kernel) (by decide +kernel) (by decide +kernel)
  refine ⟨lease, hisolated, ?_, hscanning, by decide +kernel⟩
  have hheld : ((machine .quiet).run emptySession (rebuildBegun ++ rebuildScans)).work.lease =
      some lease := hisolated.held
  rw [hheld] at hlease
  exact Option.some.inj hlease

/-- A folder is removed while the rebuild goes on, and its overlay is asked for. -/
def overlaidBesideRebuild : List SessionStep := rebuildBegun ++ OwnerLoop.folderOverlaid.map .loop

/-- The overlay is installed, the rebuild's scan ends, and its publication fails. -/
def rebuildFails : List SessionStep :=
  [.threadStep StoreHandle.idleEngine, .threadStep StoreHandle.idleEngine, .storeEvent .quiet,
    .scanFinished false .quiet, .threadStep StoreHandle.idleEngine, .storeEvent .quiet].map .loop

/-- An overlay ends the lease of the rebuild it is begun beside, and with it the program. -/
theorem overlay_beside_rebuild :
    ((machine .quiet).run emptySession overlaidBesideRebuild).loop.app.map.rebuildActive = true ∧
      ((machine .quiet).run emptySession overlaidBesideRebuild).work.Roomy ∧
      (¬∃ lease, ((machine .quiet).run emptySession overlaidBesideRebuild).Isolated lease) ∧
      ((machine .quiet).step ((machine .quiet).run emptySession
        (overlaidBesideRebuild ++ rebuildFails)) (.loop (.finishedPublication .quiet))).2 = false := by
  have hlease : (((machine .quiet).run emptySession overlaidBesideRebuild).work.lease.map
      fun l => l.key.generation) = some ⟨1⟩ := by decide +kernel
  have hserved : ((machine .quiet).run emptySession
      overlaidBesideRebuild).work.coordinator.generation = ⟨2⟩ := by decide +kernel
  refine ⟨by decide +kernel, by decide +kernel, ?_, by decide +kernel⟩
  rintro ⟨lease, hisolated⟩
  rw [hisolated.held] at hlease
  have hone : lease.key.generation = ⟨1⟩ := Option.some.inj hlease
  exact absurd (hserved.symm.trans (hisolated.current.trans hone)) (by decide)

end RebuildSession

end Excise
