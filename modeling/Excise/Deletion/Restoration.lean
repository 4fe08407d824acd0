import Excise.Deletion.Stopped
import Mathlib.Logic.Function.Basic

/-!
# What an executed entry leaves of its folder

The calls of `execute_unix_entry` on the names of folders that nobody else writes. Any call may fail,
with `NotFound` only where the name is not there, and then changes nothing.
-/

namespace Excise
set_option autoImplicit false

abbrev ObjectId := Nat

/-- A name in an open folder. -/
abbrev EntryPlace := Handle × OsString

abbrev Names := EntryPlace → Option ObjectId

/-! ## Folders nobody else writes -/

/-- The names with the objects they hold, and what the executor did: the folder opened last, the
folder it was in when it claimed the mutation, the private names it drew and the targets it
removed. -/
structure FolderState where
  names : Names
  objects : Nat
  opened : Handle
  parent : Option Handle
  drawn : List OsString
  removed : List ObjectId

namespace FolderState

def start (names : Names) (objects : Nat) : FolderState := ⟨names, objects, 0, none, [], []⟩

def create (s : FolderState) (p : EntryPlace) : Option FolderState :=
  match s.names p with
  | none => some { s with
      names := Function.update s.names p (some s.objects), objects := s.objects + 1 }
  | some _ => none

/-- The objects of two names, the other way round. -/
def exchange (s : FolderState) (p q : EntryPlace) : Option FolderState :=
  match s.names p, s.names q with
  | some x, some y =>
    some { s with names := Function.update (Function.update s.names p (some y)) q (some x) }
  | _, _ => none

def rename (s : FolderState) (p q : EntryPlace) : Option FolderState :=
  match s.names p, s.names q with
  | some x, none =>
    some { s with names := Function.update (Function.update s.names p none) q (some x) }
  | _, _ => none

def unlink (s : FolderState) (p : EntryPlace) : Option FolderState :=
  match s.names p with
  | some _ => some { s with names := Function.update s.names p none }
  | none => none

/-- `unlink` of a target. -/
def remove (s : FolderState) (p : EntryPlace) : Option FolderState :=
  match s.names p with
  | some x =>
    some { s with names := Function.update s.names p none, removed := s.removed ++ [x] }
  | none => none

def isAbsent (s : FolderState) (p : EntryPlace) : Bool := (s.names p).isNone

/-- A call that reads or opens a name. -/
def look {α : Type} (s : FolderState) (p : EntryPlace) (found : α → FolderState) :
    Except IoError α → FolderState × Option (Except IoError α)
  | .ok a => if s.isAbsent p then (s, none) else (found a, some (.ok a))
  | .error e => if e.kind = .NotFound ∧ s.isAbsent p = false then (s, none) else (s, some (.error e))

/-- A call that changes names, if it can. -/
def change (s : FolderState) (absent : Bool) (changed : Option FolderState) :
    Option IoError → FolderState × Option (Option IoError)
  | none =>
    match changed with
    | some s' => (s', some none)
    | none => (s, none)
  | some e => if e.kind = .NotFound ∧ absent = false then (s, none) else (s, some (some e))

/-- A call on an open file, which has no name to be absent. -/
def read {α : Type} (s : FolderState) :
    Except IoError α → FolderState × Option (Except IoError α)
  | .ok a => (s, some (.ok a))
  | .error e => if e.kind = .NotFound then (s, none) else (s, some (.error e))

/-- `create_new` of the placeholder. -/
def createNew (s : FolderState) (p : EntryPlace) :
    Except IoError Handle → FolderState × Option (Except IoError Handle)
  | .ok file =>
    match s.create p with
    | some s' => (s', some (.ok file))
    | none => (s, none)
  | .error e => (s, some (.error e))

def clone (s : FolderState) :
    Except IoError Handle → FolderState × Option (Except IoError Handle)
  | .ok folder => ({ s with opened := folder }, some (.ok folder))
  | .error e => (s, some (.error e))

def draw (s : FolderState) :
    Except IoError OsString → FolderState × Option (Except IoError OsString)
  | .ok name => ({ s with drawn := s.drawn ++ [name] }, some (.ok name))
  | .error e => (s, some (.error e))

end FolderState

/-- An answer that the names do not allow is not given. -/
def folderStep (answers : Answers) : (c : ExecutorCall) → FolderState → FolderState × Option c.Answer
  | .tryClaim, s => ({ s with parent := some s.opened }, some (answers .tryClaim))
  | .cloneRoot root, s => s.clone (answers (.cloneRoot root))
  | .openDirNofollow d n, s =>
    s.look (d, n) (fun folder => { s with opened := folder }) (answers (.openDirNofollow d n))
  | .placeholderName, s => s.draw (answers .placeholderName)
  | .createNew d n, s => s.createNew (d, n) (answers (.createNew d n))
  | .statAt d n, s => s.look (d, n) (fun _ => s) (answers (.statAt d n))
  | .statOpen d, s => s.read (answers (.statOpen d))
  | .exchange d a b, s =>
    s.change (s.isAbsent (d, a) || s.isAbsent (d, b)) (s.exchange (d, a) (d, b))
      (answers (.exchange d a b))
  | .renameNoreplace d a b, s =>
    s.change (s.isAbsent (d, a)) (s.rename (d, a) (d, b)) (answers (.renameNoreplace d a b))
  | .removeFile d n, s =>
    s.change (s.isAbsent (d, n)) (s.remove (d, n)) (answers (.removeFile d n))
  | .removeDir d n, s =>
    s.change (s.isAbsent (d, n)) (s.remove (d, n)) (answers (.removeDir d n))
  | .removePlaceholder d n, s =>
    s.change (s.isAbsent (d, n)) (s.unlink (d, n)) (answers (.removePlaceholder d n))
  | c, s => (s, some (answers c))

def folderWorld : World executorSignature FolderState Answers Empty where
  perform c answers s := folderStep answers c s
  others d := nomatch d

/-! ## One call -/

namespace FolderState

variable {α : Type} {s : FolderState} {p q : EntryPlace}

theorem isAbsent_iff : s.isAbsent p = true ↔ s.names p = none := Option.isNone_iff_eq_none

theorem look_cases (found : α → FolderState) (asked : Except IoError α) :
    s.look p found asked = (s, none) ∨
      (∃ a, s.names p ≠ none ∧ s.look p found asked = (found a, some (.ok a))) ∨
      ∃ e, (e.kind = .NotFound → s.names p = none) ∧
        s.look p found asked = (s, some (.error e)) := by
  unfold look
  cases asked with
  | ok a =>
    dsimp only
    split
    · exact Or.inl rfl
    · rename_i hthere
      exact Or.inr (Or.inl ⟨a, fun hnone => hthere (isAbsent_iff.mpr hnone), rfl⟩)
  | error e =>
    dsimp only
    split
    · exact Or.inl rfl
    · rename_i hallowed
      refine Or.inr (Or.inr ⟨e, fun hkind => isAbsent_iff.mp ?_, rfl⟩)
      exact Bool.eq_true_of_not_eq_false fun hthere => hallowed ⟨hkind, hthere⟩

theorem change_cases (absent : Bool) (changed : Option FolderState) (asked : Option IoError) :
    s.change absent changed asked = (s, none) ∨
      (∃ s', changed = some s' ∧ s.change absent changed asked = (s', some none)) ∨
      ∃ e, (e.kind = .NotFound → absent = true) ∧
        s.change absent changed asked = (s, some (some e)) := by
  unfold change
  cases asked with
  | none =>
    cases changed with
    | none => exact Or.inl rfl
    | some s' => exact Or.inr (Or.inl ⟨s', rfl, rfl⟩)
  | some e =>
    dsimp only
    split
    · exact Or.inl rfl
    · rename_i hallowed
      refine Or.inr (Or.inr ⟨e, fun hkind => ?_, rfl⟩)
      exact Bool.eq_true_of_not_eq_false fun hthere => hallowed ⟨hkind, hthere⟩

theorem unlink_eq_some {s' : FolderState} (h : s.unlink p = some s') :
    ∃ x, s.names p = some x ∧ s' = { s with names := Function.update s.names p none } := by
  unfold unlink at h
  split at h
  · rename_i x hx
    exact ⟨x, hx, (Option.some.inj h).symm⟩
  · cases h

theorem remove_eq_some {s' : FolderState} (h : s.remove p = some s') :
    ∃ x, s.names p = some x ∧
      s' = { s with names := Function.update s.names p none, removed := s.removed ++ [x] } := by
  unfold remove at h
  split at h
  · rename_i x hx
    exact ⟨x, hx, (Option.some.inj h).symm⟩
  · cases h

theorem exchange_eq_some {s' : FolderState} (h : s.exchange p q = some s') :
    ∃ x y, s.names p = some x ∧ s.names q = some y ∧ s' =
      { s with names := Function.update (Function.update s.names p (some y)) q (some x) } := by
  unfold exchange at h
  split at h
  · rename_i x y hx hy
    exact ⟨x, y, hx, hy, (Option.some.inj h).symm⟩
  · cases h

theorem rename_eq_some {s' : FolderState} (h : s.rename p q = some s') :
    ∃ x, s.names p = some x ∧ s.names q = none ∧ s' =
      { s with names := Function.update (Function.update s.names p none) q (some x) } := by
  unfold rename at h
  split at h
  · rename_i x hx hq
    exact ⟨x, hx, hq, (Option.some.inj h).symm⟩
  · cases h

end FolderState

namespace Executor
variable {α : Type} {Q : α → FolderState → Prop} {s : FolderState} {d : Handle} {a b n : OsString}

/-- The weakest precondition in folders that nobody else writes. -/
abbrev leaves (Q : α → FolderState → Prop) (p : Executor α) (s : FolderState) : Prop :=
  folderWorld.wp (fun _ => True) Q p s

theorem leaves_return {x : α} (h : Q x s) : leaves Q (pure x) s := World.wp_return_alone h

theorem leaves_call {c : ExecutorCall} {next : c.Answer → Executor α}
    (h : ∀ answers, folderStep answers c s = (s, none) ∨
      ∃ s' answer, folderStep answers c s = (s', some answer) ∧ leaves Q (next answer) s') :
    leaves Q (.call c next) s := by
  refine World.wp_call_alone (S := executorSignature) ?_ ?_
  · intro answers hnone
    rcases h answers with hidle | ⟨s', answer, hstep, -⟩
    · exact congrArg Prod.fst hidle
    · have hsome := congrArg Prod.snd hstep
      cases hnone.symm.trans hsome
  · intro answers answer hanswer
    rcases h answers with hidle | ⟨s', answer', hstep, hnext⟩
    · have hnone := congrArg Prod.snd hidle
      cases hanswer.symm.trans hnone
    · obtain rfl := Option.some.inj (hanswer.symm.trans (congrArg Prod.snd hstep))
      have hstate : (folderWorld.perform c answers s).1 = s' := congrArg Prod.fst hstep
      rw [hstate]
      exact hnext

/-! ## The calls of the executor -/

theorem leaves_statAt {f : Except IoError (Except String PlannedSnapshot) → Executor α}
    (herror : ∀ e, (e.kind = .NotFound → s.names (d, n) = none) → leaves Q (f (.error e)) s)
    (hok : ∀ stat, s.names (d, n) ≠ none → leaves Q (f (.ok stat)) s) :
    leaves Q (statAt d n >>= f) s := by
  refine leaves_call fun answers => ?_
  rcases FolderState.look_cases (fun _ => s) (answers (.statAt d n)) with
    hidle | ⟨stat, hthere, hstep⟩ | ⟨e, hkind, hstep⟩
  · exact Or.inl hidle
  · exact Or.inr ⟨_, _, hstep, hok stat hthere⟩
  · exact Or.inr ⟨_, _, hstep, herror e hkind⟩

theorem leaves_openDirNofollow {f : Except IoError Handle → Executor α}
    (herror : ∀ e, (e.kind = .NotFound → s.names (d, n) = none) → leaves Q (f (.error e)) s)
    (hok : ∀ folder, s.names (d, n) ≠ none →
      leaves Q (f (.ok folder)) { s with opened := folder }) :
    leaves Q (openDirNofollow d n >>= f) s := by
  refine leaves_call fun answers => ?_
  rcases FolderState.look_cases (fun folder => { s with opened := folder })
    (answers (.openDirNofollow d n)) with hidle | ⟨folder, hthere, hstep⟩ | ⟨e, hkind, hstep⟩
  · exact Or.inl hidle
  · exact Or.inr ⟨_, _, hstep, hok folder hthere⟩
  · exact Or.inr ⟨_, _, hstep, herror e hkind⟩

theorem leaves_statOpen {f : Except IoError PlannedSnapshot → Executor α}
    (herror : ∀ e, e.kind ≠ .NotFound → leaves Q (f (.error e)) s)
    (hok : ∀ snapshot, leaves Q (f (.ok snapshot)) s) : leaves Q (statOpen d >>= f) s := by
  refine leaves_call fun answers => ?_
  show s.read (answers (.statOpen d)) = _ ∨ ∃ s' answer, s.read (answers (.statOpen d)) = _ ∧ _
  unfold FolderState.read
  cases answers (.statOpen d) with
  | ok snapshot => exact Or.inr ⟨s, _, rfl, hok snapshot⟩
  | error e =>
    dsimp only
    split
    · exact Or.inl rfl
    · rename_i hkind
      exact Or.inr ⟨s, _, rfl, herror e hkind⟩

theorem leaves_cloneRoot {root : Handle} {f : Except IoError Handle → Executor α}
    (h : ∀ s' answer, (∃ folder, s' = { s with opened := folder }) →
      (∀ folder, answer = .ok folder → s'.opened = folder) → leaves Q (f answer) s') :
    leaves Q (cloneRoot root >>= f) s := by
  refine leaves_call fun answers => ?_
  show s.clone (answers (.cloneRoot root)) = _ ∨
    ∃ s' answer, s.clone (answers (.cloneRoot root)) = _ ∧ _
  cases answers (.cloneRoot root) with
  | ok folder =>
    refine Or.inr ⟨_, _, rfl, h _ _ ⟨folder, rfl⟩ fun _ heq => ?_⟩
    exact Except.ok.inj heq
  | error e => exact Or.inr ⟨s, _, rfl, h s _ ⟨s.opened, rfl⟩ fun _ heq => by cases heq⟩

theorem leaves_placeholderName {f : Except IoError OsString → Executor α}
    (herror : ∀ e, leaves Q (f (.error e)) s)
    (hok : ∀ name, leaves Q (f (.ok name)) { s with drawn := s.drawn ++ [name] }) :
    leaves Q (placeholderName >>= f) s := by
  refine leaves_call fun answers => ?_
  show s.draw (answers .placeholderName) = _ ∨ ∃ s' answer, s.draw (answers .placeholderName) = _ ∧ _
  cases answers .placeholderName with
  | ok name => exact Or.inr ⟨_, _, rfl, hok name⟩
  | error e => exact Or.inr ⟨_, _, rfl, herror e⟩

theorem leaves_createNew {f : Except IoError Handle → Executor α}
    (herror : ∀ e, leaves Q (f (.error e)) s)
    (hok : ∀ file, s.names (d, n) = none → leaves Q (f (.ok file))
      { s with
        names := Function.update s.names (d, n) (some s.objects)
        objects := s.objects + 1 }) : leaves Q (createNew d n >>= f) s := by
  refine leaves_call fun answers => ?_
  show s.createNew (d, n) (answers (.createNew d n)) = _ ∨
    ∃ s' answer, s.createNew (d, n) (answers (.createNew d n)) = _ ∧ _
  cases answers (.createNew d n) with
  | ok file =>
    unfold FolderState.createNew FolderState.create
    dsimp only
    cases hname : s.names (d, n) with
    | none => exact Or.inr ⟨_, _, rfl, hok file hname⟩
    | some x => exact Or.inl rfl
  | error e => exact Or.inr ⟨_, _, rfl, herror e⟩

theorem leaves_exchange {f : Option IoError → Executor α}
    (herror : ∀ e, (e.kind = .NotFound → s.names (d, a) = none ∨ s.names (d, b) = none) →
      leaves Q (f (some e)) s)
    (hok : ∀ x y, s.names (d, a) = some x → s.names (d, b) = some y → leaves Q (f none)
      { s with
        names := Function.update (Function.update s.names (d, a) (some y)) (d, b) (some x) }) :
    leaves Q (exchange d a b >>= f) s := by
  refine leaves_call fun answers => ?_
  rcases FolderState.change_cases (s.isAbsent (d, a) || s.isAbsent (d, b))
    (s.exchange (d, a) (d, b)) (answers (.exchange d a b)) with
    hidle | ⟨s', hchanged, hstep⟩ | ⟨e, hkind, hstep⟩
  · exact Or.inl hidle
  · obtain ⟨x, y, hx, hy, rfl⟩ := FolderState.exchange_eq_some hchanged
    exact Or.inr ⟨_, _, hstep, hok x y hx hy⟩
  · refine Or.inr ⟨_, _, hstep, herror e fun h => ?_⟩
    exact (Bool.or_eq_true_iff.mp (hkind h)).imp FolderState.isAbsent_iff.mp
      FolderState.isAbsent_iff.mp

theorem leaves_renameNoreplace {f : Option IoError → Executor α}
    (herror : ∀ e, leaves Q (f (some e)) s)
    (hok : ∀ x, s.names (d, a) = some x → s.names (d, b) = none → leaves Q (f none)
      { s with
        names := Function.update (Function.update s.names (d, a) none) (d, b) (some x) }) :
    leaves Q (renameNoreplace d a b >>= f) s := by
  refine leaves_call fun answers => ?_
  rcases FolderState.change_cases (s.isAbsent (d, a)) (s.rename (d, a) (d, b))
    (answers (.renameNoreplace d a b)) with hidle | ⟨s', hchanged, hstep⟩ | ⟨e, -, hstep⟩
  · exact Or.inl hidle
  · obtain ⟨x, hx, hb, rfl⟩ := FolderState.rename_eq_some hchanged
    exact Or.inr ⟨_, _, hstep, hok x hx hb⟩
  · exact Or.inr ⟨_, _, hstep, herror e⟩

theorem leaves_removePlaceholder {f : Option IoError → Executor α}
    (herror : ∀ e, leaves Q (f (some e)) s)
    (hok : ∀ x, s.names (d, n) = some x →
      leaves Q (f none) { s with names := Function.update s.names (d, n) none }) :
    leaves Q (removePlaceholder d n >>= f) s := by
  refine leaves_call fun answers => ?_
  rcases FolderState.change_cases (s.isAbsent (d, n)) (s.unlink (d, n))
    (answers (.removePlaceholder d n)) with hidle | ⟨s', hchanged, hstep⟩ | ⟨e, -, hstep⟩
  · exact Or.inl hidle
  · obtain ⟨x, hx, rfl⟩ := FolderState.unlink_eq_some hchanged
    exact Or.inr ⟨_, _, hstep, hok x hx⟩
  · exact Or.inr ⟨_, _, hstep, herror e⟩

theorem leaves_removeTarget {at' : Detached} {kind : PlannedKind} {f : Option IoError → Executor α}
    (herror : ∀ e, (e.kind = .NotFound → s.names (at'.parent, at'.detached) = none) →
      leaves Q (f (some e)) s)
    (hok : ∀ x, s.names (at'.parent, at'.detached) = some x → leaves Q (f none)
      { s with
        names := Function.update s.names (at'.parent, at'.detached) none
        removed := s.removed ++ [x] }) : leaves Q (removeTarget at' kind >>= f) s := by
  have hcall (asked : Option IoError) :
      s.change (s.isAbsent (at'.parent, at'.detached)) (s.remove (at'.parent, at'.detached)) asked =
          (s, none) ∨
        ∃ s' answer, s.change (s.isAbsent (at'.parent, at'.detached))
          (s.remove (at'.parent, at'.detached)) asked = (s', some answer) ∧
          leaves Q (f answer) s' := by
    rcases FolderState.change_cases (s.isAbsent (at'.parent, at'.detached))
      (s.remove (at'.parent, at'.detached)) asked with
      hidle | ⟨s', hchanged, hstep⟩ | ⟨e, hkind, hstep⟩
    · exact Or.inl hidle
    · obtain ⟨x, hx, rfl⟩ := FolderState.remove_eq_some hchanged
      exact Or.inr ⟨_, _, hstep, hok x hx⟩
    · exact Or.inr ⟨_, _, hstep, herror e fun h => FolderState.isAbsent_iff.mp (hkind h)⟩
  cases kind with
  | Directory => exact leaves_call fun answers => hcall (answers (.removeDir _ _))
  | File => exact leaves_call fun answers => hcall (answers (.removeFile _ _))
  | Link => exact leaves_call fun answers => hcall (answers (.removeFile _ _))

theorem leaves_ask {c : ExecutorCall} {f : c.Answer → Executor α}
    (hc : ∀ answers s, folderStep answers c s = (s, some (answers c)))
    (h : ∀ answer, leaves Q (f answer) s) :
    leaves Q (Program.ask (S := executorSignature) c >>= f) s :=
  leaves_call fun answers => Or.inr ⟨s, _, hc answers s, h _⟩

end Executor

/-! ## Parts of the executor -/

/-- The names may have changed, the rest has only grown. -/
structure Becomes (s s' : FolderState) (names : Names) : Prop where
  names : s'.names = names
  parent : s'.parent = s.parent
  removed : s'.removed = s.removed
  drawn : ∀ n ∈ s.drawn, n ∈ s'.drawn

namespace Becomes

variable {s s' s'' : FolderState} {names names' : Names}

theorem refl (s : FolderState) : Becomes s s s.names := ⟨rfl, rfl, rfl, fun _ h => h⟩

theorem trans (h : Becomes s s' names) (h' : Becomes s' s'' names') : Becomes s s'' names' :=
  ⟨h'.names, h'.parent.trans h.parent, h'.removed.trans h.removed,
    fun n hn => h'.drawn n (h.drawn n hn)⟩

end Becomes

namespace Executor

variable (host : Host) {s : FolderState} {d : Handle} {original detached n : OsString}
  {placeholder : PlannedSnapshot}

theorem leaves_inspectChild (path : NativePath) :
    leaves (fun out s' => Becomes s s' s.names ∧ (∀ snapshot, out = .ok snapshot →
        s.names (d, n) ≠ none) ∧
        ∀ e, out = .error e → e.isNotFound = true → s.names (d, n) = none)
      (inspectChild host d n path) s := by
  have hfailed (e : IoError) (s' : FolderState) (hs : Becomes s s' s.names)
      (he : e.kind = .NotFound → s.names (d, n) = none) :
      leaves (fun out s' => Becomes s s' s.names ∧ (∀ snapshot, out = .ok snapshot →
        s.names (d, n) ≠ none) ∧
        ∀ e, out = .error e → e.isNotFound = true → s.names (d, n) = none)
        (pure (.error (planIo host path e)) : Executor (Except DeletionPlanError PlannedSnapshot))
        s' := by
    refine leaves_return ⟨hs, (fun _ h => nomatch h), ?_⟩
    intro e' h hfound
    rw [← Except.error.inj h] at hfound
    exact he (of_decide_eq_true hfound)
  unfold inspectChild
  refine leaves_statAt (fun e he => hfailed e s (Becomes.refl s) he) ?_
  intro stat hthere
  cases stat with
  | error message =>
    refine leaves_return ⟨Becomes.refl s, (fun _ h => nomatch h), ?_⟩
    intro e h hfound
    rw [← Except.error.inj h] at hfound
    cases hfound
  | ok stat =>
    dsimp only
    split
    · refine leaves_openDirNofollow (fun e he => hfailed e s (Becomes.refl s) he) ?_
      intro folder _
      have hopened : Becomes s { s with opened := folder } s.names := ⟨rfl, rfl, rfl, fun _ h => h⟩
      refine leaves_statOpen (fun e he => hfailed e _ hopened fun h => absurd h he) ?_
      intro snapshot
      exact leaves_return ⟨hopened, fun _ _ => hthere, fun _ h => nomatch h⟩
    · exact leaves_return ⟨Becomes.refl s, fun _ _ => hthere, fun _ h => nomatch h⟩

theorem leaves_removeVerifiedPlaceholder :
    leaves (fun out s' => (out = none → Becomes s s' (Function.update s.names (d, n) none)) ∧
        ∀ e, out = some e → Becomes s s' s.names)
      (removeVerifiedPlaceholder host d n placeholder) s := by
  have hkeep (e : IoError) (s' : FolderState) (hs : Becomes s s' s.names) :
      leaves (fun out s' => (out = none → Becomes s s' (Function.update s.names (d, n) none)) ∧
        ∀ e, out = some e → Becomes s s' s.names) (pure (some e) : Executor (Option IoError)) s' :=
    leaves_return ⟨(fun h => nomatch h), fun _ _ => hs⟩
  unfold removeVerifiedPlaceholder
  refine World.wp_bind ((leaves_inspectChild host _).mono ?_)
  rintro read s' ⟨hs, -, -⟩
  cases read with
  | error e => exact hkeep _ s' hs
  | ok actual =>
    dsimp only
    split
    · exact hkeep _ s' hs
    · have hremove : leaves (fun out s' =>
          (out = none → Becomes s s' (Function.update s.names (d, n) none)) ∧
          ∀ e, out = some e → Becomes s s' s.names) (removePlaceholder d n >>= pure) s' := by
        refine leaves_removePlaceholder (fun e => hkeep e s' hs) fun x hx => leaves_return ?_
        refine ⟨fun _ => ⟨?_, hs.parent, hs.removed, hs.drawn⟩, fun _ h => nomatch h⟩
        rw [← hs.names]
      exact hremove

theorem leaves_originalHoldsPlaceholder :
    leaves (fun out s' => Becomes s s' s.names ∧ (out = none → s.names (d, original) ≠ none))
      (originalHoldsPlaceholder host d original placeholder) s := by
  unfold originalHoldsPlaceholder
  refine World.wp_bind ((leaves_inspectChild host _).mono ?_)
  rintro read s' ⟨hs, hthere, -⟩
  cases read with
  | error e => exact leaves_return ⟨hs, fun h => nomatch h⟩
  | ok actual =>
    dsimp only
    split
    · exact leaves_return ⟨hs, fun h => nomatch h⟩
    · exact leaves_return ⟨hs, fun _ => hthere actual rfl⟩

/-- The exchange of the two names. -/
def exchanged (names : Names) (p q : EntryPlace) (x y : ObjectId) : Names :=
  Function.update (Function.update names p (some y)) q (some x)

theorem leaves_restoreDetached :
    leaves (fun out s' =>
        (out = none → ∃ x y, s.names (d, original) = some x ∧ s.names (d, detached) = some y ∧
          Becomes s s' (Function.update (exchanged s.names (d, original) (d, detached) x y)
            (d, detached) none)) ∧
        ∀ e, out = some e → Becomes s s' s.names ∨
          ∃ x y, s.names (d, original) = some x ∧ s.names (d, detached) = some y ∧
            Becomes s s' (exchanged s.names (d, original) (d, detached) x y))
      (restoreDetached host d original detached placeholder) s := by
  unfold restoreDetached
  refine World.wp_bind ((leaves_originalHoldsPlaceholder host).mono ?_)
  rintro held s' ⟨hs, -⟩
  cases held with
  | some e => exact leaves_return ⟨(fun h => nomatch h), fun _ _ => Or.inl hs⟩
  | none =>
    refine leaves_exchange (fun e _ => ?_) fun x y hx hy => ?_
    · exact leaves_return ⟨(fun h => nomatch h), fun _ _ => Or.inl hs⟩
    · rw [hs.names] at hx hy
      refine (leaves_removeVerifiedPlaceholder host).mono ?_
      intro out s'' hout
      have hexchanged : Becomes s
          { s' with
            names := Function.update (Function.update s'.names (d, original) (some y))
              (d, detached) (some x) } (exchanged s.names (d, original) (d, detached) x y) :=
        ⟨by rw [hs.names]; rfl, hs.parent, hs.removed, hs.drawn⟩
      refine ⟨fun h => ⟨x, y, hx, hy, ?_⟩, fun e h => Or.inr ⟨x, y, hx, hy, ?_⟩⟩
      · have hdone := hexchanged.trans (hout.1 h)
        rw [hexchanged.names] at hdone
        exact hdone
      · have hdone := hexchanged.trans (hout.2 e h)
        rw [hexchanged.names] at hdone
        exact hdone

/-- The object of a name under another one. -/
def movedTo (names : Names) (p q : EntryPlace) (x : ObjectId) : Names :=
  Function.update (Function.update names p none) q (some x)

theorem movedTo_removed {names : Names} {p q : EntryPlace} {x : ObjectId} (hq : names q = none) :
    Function.update (movedTo names p q x) q none = Function.update names p none := by
  unfold movedTo
  rw [Function.update_idem, Function.update_eq_self_iff]
  by_cases hsame : q = p
  · rw [hsame, Function.update_self]
  · rw [Function.update_of_ne hsame, hq]

/-- The placeholder is gone from `original`; a failure left it there, or under a private name. -/
def Finalized (d : Handle) (original : OsString) (s : FolderState) (out : Option IoError)
    (s' : FolderState) : Prop :=
  (out = none → (∃ x, s.names (d, original) = some x) ∧
    Becomes s s' (Function.update s.names (d, original) none)) ∧
  ∀ e, out = some e → Becomes s s' s.names ∨
    ∃ x n, s.names (d, original) = some x ∧ s.names (d, n) = none ∧ n ∈ s'.drawn ∧
      Becomes s s' (movedTo s.names (d, original) (d, n) x)

theorem Finalized.kept (e : IoError) : Finalized d original s (some e) s :=
  ⟨(fun h => nomatch h), fun _ _ => Or.inl (Becomes.refl s)⟩

/-- What changed no name before changes nothing of it. -/
theorem Finalized.after {s' s'' : FolderState} {out : Option IoError}
    (h : Finalized d original s' out s'') (hs : Becomes s s' s.names) :
    Finalized d original s out s'' := by
  obtain ⟨hnone, hsome⟩ := h
  rw [hs.names] at hnone hsome
  refine ⟨fun h => ⟨(hnone h).1, hs.trans (hnone h).2⟩, fun e h => ?_⟩
  rcases hsome e h with hkept | ⟨x, n, hx, hn, hmem, hmoved⟩
  · exact Or.inl (hs.trans hkept)
  · exact Or.inr ⟨x, n, hx, hn, hmem, hs.trans hmoved⟩

theorem leaves_finalizeFrom (attempts : Nat) :
    ∀ {name : OsString} {s : FolderState}, name ∈ s.drawn →
      leaves (Finalized d original s) (finalizeFrom host d original placeholder attempts name) s := by
  induction attempts with
  | zero =>
    intro name s _
    exact leaves_return (.kept _)
  | succ attempts ih =>
    intro name s hname
    refine leaves_renameNoreplace (fun e => ?_) fun x hx hfree => ?_
    · have hkept : leaves (Finalized d original s) (pure (some e) : Executor (Option IoError)) s :=
        leaves_return (.kept e)
      dsimp only
      split
      · refine leaves_placeholderName (fun e => leaves_return (.kept e)) fun fresh => ?_
        have hdrawn : Becomes s { s with drawn := s.drawn ++ [fresh] } s.names :=
          ⟨rfl, rfl, rfl, fun _ h => List.mem_append_left _ h⟩
        have hfresh : fresh ∈ s.drawn ++ [fresh] :=
          List.mem_append_right _ (List.mem_singleton_self fresh)
        exact (ih (s := { s with drawn := s.drawn ++ [fresh] }) hfresh).mono fun _ _ h =>
          h.after hdrawn
      · exact hkept
    · refine (leaves_removeVerifiedPlaceholder host).mono ?_
      rintro out s' ⟨hnone, hsome⟩
      have hmoved : Becomes s
          { s with
            names := Function.update (Function.update s.names (d, original) none) (d, name)
              (some x) } (movedTo s.names (d, original) (d, name) x) :=
        ⟨rfl, rfl, rfl, fun _ h => h⟩
      refine ⟨fun h => ⟨⟨x, hx⟩, ?_⟩, fun e h => Or.inr ⟨x, name, hx, hfree, ?_, ?_⟩⟩
      · have hdone := hmoved.trans (hnone h)
        have hcleared := movedTo_removed (p := (d, original)) (x := x) hfree
        exact ⟨hdone.names.trans hcleared, hdone.parent, hdone.removed, hdone.drawn⟩
      · exact (hsome e h).drawn name hname
      · exact hmoved.trans (hsome e h)

theorem leaves_finalizePlaceholder (hdetached : detached ∈ s.drawn) :
    leaves (Finalized d original s) (finalizePlaceholder host d original detached placeholder) s := by
  unfold finalizePlaceholder
  refine World.wp_bind ((leaves_originalHoldsPlaceholder host).mono ?_)
  rintro held s' ⟨hs, -⟩
  cases held with
  | some e => exact leaves_return (Finalized.after (.kept e) hs)
  | none =>
    exact (leaves_finalizeFrom host placeholderNameAttempts (hs.drawn detached hdetached)).mono
      fun _ _ h => h.after hs

theorem leaves_createPlaceholder (attempts : Nat) :
    ∀ {s : FolderState}, leaves (fun out s' =>
        (∀ name snapshot, out = .ok (name, snapshot) → s.names (d, name) = none ∧
          name ∈ s'.drawn ∧ ∃ x, Becomes s s' (Function.update s.names (d, name) (some x))) ∧
        ∀ e, out = .error e → Becomes s s' s.names ∨ ∃ name x, s.names (d, name) = none ∧
          name ∈ s'.drawn ∧ Becomes s s' (Function.update s.names (d, name) (some x)))
      (createPlaceholder d attempts) s := by
  induction attempts with
  | zero =>
    intro s
    exact leaves_return ⟨(fun _ _ h => nomatch h), fun _ _ => Or.inl (Becomes.refl s)⟩
  | succ attempts ih =>
    intro s
    refine leaves_placeholderName (fun e => ?_) fun name => ?_
    · exact leaves_return ⟨(fun _ _ h => nomatch h), fun _ _ => Or.inl (Becomes.refl s)⟩
    · have hdrawn : Becomes s { s with drawn := s.drawn ++ [name] } s.names :=
        ⟨rfl, rfl, rfl, fun _ h => List.mem_append_left _ h⟩
      refine leaves_createNew (fun e => ?_) fun file hfree => ?_
      · dsimp only
        split
        · refine ih.mono ?_
          rintro out s' ⟨hok, herror⟩
          refine ⟨fun n snapshot h => ?_, fun e h => ?_⟩
          · obtain ⟨hn, hmem, x, hs⟩ := hok n snapshot h
            exact ⟨hn, hmem, x, hdrawn.trans hs⟩
          · rcases herror e h with hs | ⟨n, x, hn, hmem, hs⟩
            · exact Or.inl (hdrawn.trans hs)
            · exact Or.inr ⟨n, x, hn, hmem, hdrawn.trans hs⟩
        · exact leaves_return ⟨(fun _ _ h => nomatch h), fun _ _ => Or.inl hdrawn⟩
      · have hmem : name ∈ s.drawn ++ [name] :=
          List.mem_append_right _ (List.mem_singleton_self name)
        refine leaves_ask (fun _ _ => rfl) fun read => ?_
        cases read with
        | error e =>
          refine leaves_return ⟨(fun _ _ h => nomatch h), fun _ _ => Or.inr ⟨name, s.objects, hfree,
            hmem, rfl, rfl, rfl, hdrawn.drawn⟩⟩
        | ok snapshot =>
          refine leaves_return ⟨fun n snapshot' h => ?_, fun _ h => nomatch h⟩
          obtain ⟨rfl, -⟩ := Prod.mk.inj (Except.ok.inj h)
          exact ⟨hfree, hmem, s.objects, rfl, rfl, rfl, hdrawn.drawn⟩

end Executor

/-! ## What is left -/

/-- What an executed entry leaves of the names there were, its own being `original` of the folder
`d`. -/
structure Settled (before : Names) (d : Handle) (original : OsString)
    (outcome : DeletionEntryOutcome) (after : FolderState) : Prop where
  parent : after.parent = some d
  unchanged : (outcome = .Unattempted ∨ ∃ detail, outcome = .Changed detail) →
    after.names = before
  taken : (outcome = .Deleted ∨ outcome = .Missing) →
    after.names = Function.update before (d, original) none
  named : ∀ x, before (d, original) = some x →
    x ∈ after.removed ∨ ∃ n, after.names (d, n) = some x
  others : ∀ q, q ≠ (d, original) → after.names q = before q ∨
    before q = none ∧ q.1 = d ∧ q.2 ∈ after.drawn

section

variable {before : Names} {d : Handle} {original detached n : OsString} {s s' : FolderState}
  {target : ObjectId}

theorem Settled.of_unchanged {outcome : DeletionEntryOutcome} (hparent : s.parent = some d)
    (hnames : s.names = before) (houtcome : outcome ≠ .Deleted ∧ outcome ≠ .Missing) :
    Settled before d original outcome s where
  parent := hparent
  unchanged := fun _ => hnames
  taken := by
    rintro (h | h)
    · exact absurd h houtcome.1
    · exact absurd h houtcome.2
  named := fun x hx => Or.inr ⟨original, by rw [hnames, hx]⟩
  others := fun q _ => Or.inl (by rw [hnames])

/-- A failure that leaves one private name more. -/
theorem Settled.of_failed {detail : String} (hparent : s.parent = some d)
    (hfree : before (d, n) = none) (hdrawn : n ∈ s.drawn)
    (hrest : ∀ q, q ≠ (d, original) → q ≠ (d, n) → s.names q = before q)
    (hnamed : ∀ x, before (d, original) = some x →
      x ∈ s.removed ∨ ∃ n, s.names (d, n) = some x) :
    Settled before d original (.Failed detail) s where
  parent := hparent
  unchanged := by rintro (h | ⟨_, h⟩) <;> cases h
  taken := by rintro (h | h) <;> cases h
  named := hnamed
  others := by
    intro q hq
    by_cases hprivate : q = (d, n)
    · rw [hprivate]
      exact Or.inr ⟨hfree, rfl, hdrawn⟩
    · exact Or.inl (hrest q hq hprivate)

/-- The placeholder has its name, and nothing else has changed. -/
structure Reserved (before : Names) (d : Handle) (detached : OsString) (s : FolderState) :
    Prop where
  names : ∃ x, s.names = Function.update before (d, detached) (some x)
  free : before (d, detached) = none
  parent : s.parent = some d
  drawn : detached ∈ s.drawn

/-- The placeholder and the target have each other's names. -/
structure IsolatedAt (before : Names) (d : Handle) (original detached : OsString)
    (target : ObjectId) (s : FolderState) : Prop where
  names : ∃ x, s.names =
    Function.update (Function.update before (d, original) (some x)) (d, detached) (some target)
  free : before (d, detached) = none
  held : detached ≠ original → before (d, original) = some target
  parent : s.parent = some d
  drawn : detached ∈ s.drawn

theorem place_ne {a b : OsString} (h : a ≠ b) : ((d, a) : EntryPlace) ≠ (d, b) := by
  intro heq
  exact h (Prod.mk.inj heq).2

theorem Reserved.failed {detail : String} (h : Reserved before d detached s) :
    Settled before d original (.Failed detail) s := by
  obtain ⟨x, hnames⟩ := h.names
  refine Settled.of_failed h.parent h.free h.drawn (fun q _ hq => ?_) fun y hy => ?_
  · rw [hnames, Function.update_of_ne hq]
  · refine Or.inr ⟨original, ?_⟩
    rw [hnames, Function.update_of_ne, hy]
    rintro heq
    rw [heq, h.free] at hy
    cases hy

theorem Reserved.released (h : Reserved before d detached s)
    (hs : Becomes s s' (Function.update s.names (d, detached) none)) : s'.names = before := by
  obtain ⟨x, hnames⟩ := h.names
  rw [hs.names, hnames, Function.update_idem, Function.update_eq_self_iff, h.free]

theorem Reserved.becomes (h : Reserved before d detached s) (hs : Becomes s s' s.names) :
    Reserved before d detached s' :=
  ⟨hs.names ▸ h.names, h.free, hs.parent.trans h.parent, hs.drawn detached h.drawn⟩

theorem IsolatedAt.becomes (h : IsolatedAt before d original detached target s)
    (hs : Becomes s s' s.names) : IsolatedAt before d original detached target s' :=
  ⟨hs.names ▸ h.names, h.free, h.held, hs.parent.trans h.parent, hs.drawn detached h.drawn⟩

/-- The exchange isolates what the original name holds. -/
theorem Reserved.isolated (h : Reserved before d detached s) {x y : ObjectId}
    (hx : s.names (d, detached) = some x) (hy : s.names (d, original) = some y)
    (hs : Becomes s s' (Function.update (Function.update s.names (d, detached) (some y))
      (d, original) (some x))) : IsolatedAt before d original detached y s' := by
  obtain ⟨z, hnames⟩ := h.names
  have htarget (hne : detached ≠ original) : before (d, original) = some y := by
    rw [← hy, hnames, Function.update_of_ne (place_ne hne.symm)]
  refine ⟨⟨x, ?_⟩, h.free, htarget, hs.parent.trans h.parent, hs.drawn detached h.drawn⟩
  rw [hs.names, hnames, Function.update_idem]
  by_cases hne : detached = original
  · subst hne
    rw [hx] at hy
    rw [Function.update_idem, Function.update_idem, Option.some.inj hy]
  · exact Function.update_comm (place_ne hne) _ _ _

theorem IsolatedAt.there (h : IsolatedAt before d original detached target s) :
    s.names (d, detached) = some target := by
  obtain ⟨x, hnames⟩ := h.names
  rw [hnames, Function.update_self]

theorem IsolatedAt.restored (h : IsolatedAt before d original detached target s) {x : ObjectId}
    (hs : Becomes s s' (Function.update
      (Executor.exchanged s.names (d, original) (d, detached) x target) (d, detached) none)) :
    s'.names = before := by
  obtain ⟨z, hnames⟩ := h.names
  rw [hs.names]
  unfold Executor.exchanged
  rw [Function.update_idem, hnames]
  funext q
  by_cases hdetached : q = (d, detached)
  · rw [hdetached, Function.update_self, h.free]
  · rw [Function.update_of_ne hdetached]
    by_cases horiginal : q = (d, original)
    · subst horiginal
      rw [Function.update_self, h.held]
      rintro rfl
      exact hdetached rfl
    · rw [Function.update_of_ne horiginal, Function.update_of_ne hdetached,
        Function.update_of_ne horiginal]

theorem IsolatedAt.ne (h : IsolatedAt before d original detached target s) {x : ObjectId}
    (hx : before (d, original) = some x) : detached ≠ original := by
  rintro rfl
  rw [h.free] at hx
  cases hx

theorem IsolatedAt.failed {detail : String}
    (h : IsolatedAt before d original detached target s) :
    Settled before d original (.Failed detail) s := by
  obtain ⟨z, hnames⟩ := h.names
  refine Settled.of_failed h.parent h.free h.drawn (fun q horiginal hdetached => ?_) fun x hx => ?_
  · rw [hnames, Function.update_of_ne hdetached, Function.update_of_ne horiginal]
  · have htarget := h.held (h.ne hx)
    rw [hx] at htarget
    rw [Option.some.inj htarget]
    exact Or.inr ⟨detached, h.there⟩

/-- The target is back, and the placeholder could not be removed. -/
theorem IsolatedAt.exchanged_failed {detail : String}
    (h : IsolatedAt before d original detached target s) {x : ObjectId}
    (hs : Becomes s s' (Executor.exchanged s.names (d, original) (d, detached) x target)) :
    Settled before d original (.Failed detail) s' := by
  obtain ⟨z, hnames⟩ := h.names
  unfold Executor.exchanged at hs
  refine Settled.of_failed (hs.parent.trans h.parent) h.free (hs.drawn detached h.drawn)
    (fun q horiginal hdetached => ?_) fun y hy => ?_
  · rw [hs.names, Function.update_of_ne hdetached, Function.update_of_ne horiginal, hnames,
      Function.update_of_ne hdetached, Function.update_of_ne horiginal]
  · have hne := h.ne hy
    have htarget := h.held hne
    rw [hy] at htarget
    refine Or.inr ⟨original, ?_⟩
    rw [hs.names, Function.update_of_ne (place_ne hne.symm), Function.update_self, htarget]

/-- The target is removed, and its name still holds the placeholder. -/
structure RemovedAt (before : Names) (d : Handle) (original detached : OsString)
    (target : ObjectId) (s : FolderState) : Prop where
  names : ∃ x, s.names =
    Function.update (Function.update before (d, original) (some x)) (d, detached) none
  free : before (d, detached) = none
  held : detached ≠ original → before (d, original) = some target
  parent : s.parent = some d
  drawn : detached ∈ s.drawn
  removed : target ∈ s.removed

theorem IsolatedAt.removed (h : IsolatedAt before d original detached target s) :
    RemovedAt before d original detached target
      { s with
        names := Function.update s.names (d, detached) none
        removed := s.removed ++ [target] } := by
  obtain ⟨x, hnames⟩ := h.names
  refine ⟨⟨x, ?_⟩, h.free, h.held, h.parent, h.drawn,
    List.mem_append_right _ (List.mem_singleton_self target)⟩
  show Function.update s.names (d, detached) none = _
  rw [hnames, Function.update_idem]

theorem RemovedAt.becomes (h : RemovedAt before d original detached target s)
    (hs : Becomes s s' s.names) : RemovedAt before d original detached target s' :=
  ⟨hs.names ▸ h.names, h.free, h.held, hs.parent.trans h.parent, hs.drawn detached h.drawn,
    hs.removed ▸ h.removed⟩

theorem RemovedAt.named (h : RemovedAt before d original detached target s) {x : ObjectId}
    (hx : before (d, original) = some x) : x ∈ s.removed := by
  have hne : detached ≠ original := by
    rintro rfl
    rw [h.free] at hx
    cases hx
  have htarget := h.held hne
  rw [hx] at htarget
  rw [Option.some.inj htarget]
  exact h.removed

theorem RemovedAt.failed {detail : String} (h : RemovedAt before d original detached target s) :
    Settled before d original (.Failed detail) s := by
  obtain ⟨z, hnames⟩ := h.names
  refine Settled.of_failed h.parent h.free h.drawn (fun q horiginal hdetached => ?_)
    fun x hx => Or.inl (h.named hx)
  rw [hnames, Function.update_of_ne hdetached, Function.update_of_ne horiginal]

theorem RemovedAt.rest (h : RemovedAt before d original detached target s) {q : EntryPlace}
    (hq : q ≠ (d, original)) : s.names q = before q := by
  obtain ⟨z, hnames⟩ := h.names
  rw [hnames]
  by_cases hdetached : q = (d, detached)
  · rw [hdetached, Function.update_self, h.free]
  · rw [Function.update_of_ne hdetached, Function.update_of_ne hq]

/-- The placeholder has moved to a private name and could not be removed there. -/
theorem RemovedAt.moved_failed {detail : String}
    (h : RemovedAt before d original detached target s) {x : ObjectId}
    (hx : s.names (d, original) = some x) (hn : s.names (d, n) = none) (hdrawn : n ∈ s'.drawn)
    (hs : Becomes s s' (Executor.movedTo s.names (d, original) (d, n) x)) :
    Settled before d original (.Failed detail) s' := by
  have hne : ((d, n) : EntryPlace) ≠ (d, original) := by
    intro heq
    rw [heq, hx] at hn
    cases hn
  unfold Executor.movedTo at hs
  refine Settled.of_failed (hs.parent.trans h.parent) ((h.rest hne).symm.trans hn) hdrawn
    (fun q horiginal hq => ?_) fun y hy => Or.inl (hs.removed ▸ h.named hy)
  rw [hs.names, Function.update_of_ne hq, Function.update_of_ne horiginal]
  exact h.rest horiginal

theorem RemovedAt.finalized (h : RemovedAt before d original detached target s)
    {outcome : DeletionEntryOutcome} (houtcome : outcome = .Deleted ∨ outcome = .Missing)
    (hs : Becomes s s' (Function.update s.names (d, original) none)) :
    Settled before d original outcome s' := by
  have hnames : s'.names = Function.update before (d, original) none := by
    rw [hs.names]
    funext q
    by_cases hq : q = (d, original)
    · rw [hq, Function.update_self, Function.update_self]
    · rw [Function.update_of_ne hq, Function.update_of_ne hq]
      exact h.rest hq
  refine ⟨hs.parent.trans h.parent, ?_, fun _ => hnames, fun x hx => ?_, fun q hq => Or.inl ?_⟩
  · rintro (heq | ⟨detail, heq⟩)
    · rcases houtcome with hout | hout <;> cases heq.symm.trans hout
    · rcases houtcome with hout | hout <;> cases heq.symm.trans hout
  · exact Or.inl (hs.removed ▸ h.named hx)
  · rw [hnames, Function.update_of_ne hq]

end

namespace Executor

variable (host : Host) {before : Names} {s : FolderState} {at' : Detached} {target : ObjectId}

theorem leaves_finalizeTo
    (h : RemovedAt before at'.parent at'.original at'.detached target s)
    {outcome : DeletionEntryOutcome} (houtcome : outcome = .Deleted ∨ outcome = .Missing)
    (failure : String) :
    leaves (fun out s' => Settled before at'.parent at'.original out s')
      (finalizeTo host at' outcome failure) s := by
  unfold finalizeTo
  refine World.wp_bind ((leaves_finalizePlaceholder host h.drawn).mono ?_)
  rintro out s' ⟨hnone, hsome⟩
  cases out with
  | none => exact leaves_return (h.finalized houtcome (hnone rfl).2)
  | some e =>
    rcases hsome e rfl with hkept | ⟨x, n, hx, hn, hdrawn, hmoved⟩
    · exact leaves_return (h.becomes hkept).failed
    · exact leaves_return (h.moved_failed hx hn hdrawn hmoved)

theorem leaves_restoreTo
    (h : IsolatedAt before at'.parent at'.original at'.detached target s)
    {restored : DeletionEntryOutcome} (hrestored : restored ≠ .Deleted ∧ restored ≠ .Missing)
    (failure : String) :
    leaves (fun out s' => Settled before at'.parent at'.original out s')
      (restoreTo host at' restored failure) s := by
  unfold restoreTo
  refine World.wp_bind ((leaves_restoreDetached host).mono ?_)
  rintro out s' ⟨hnone, hsome⟩
  cases out with
  | none =>
    obtain ⟨x, y, -, hy, hs⟩ := hnone rfl
    obtain rfl := Option.some.inj (h.there.symm.trans hy)
    exact leaves_return
      (Settled.of_unchanged (hs.parent.trans h.parent) (h.restored hs) hrestored)
  | some e =>
    rcases hsome e rfl with hkept | ⟨x, y, -, hy, hs⟩
    · exact leaves_return (h.becomes hkept).failed
    · obtain rfl := Option.some.inj (h.there.symm.trans hy)
      exact leaves_return (h.exchanged_failed hs)

/-- The isolated entry is there to be inspected, so a failure is no disappearance. -/
theorem leaves_inspectionFailed
    (h : IsolatedAt before at'.parent at'.original at'.detached target s) {e : DeletionPlanError}
    (he : e.isNotFound = true → s.names (at'.parent, at'.detached) = none) :
    leaves (fun out s' => Settled before at'.parent at'.original out s')
      (inspectionFailed host at' e) s := by
  unfold inspectionFailed
  split
  · rename_i hfound
    rw [h.there] at he
    cases he hfound
  · exact leaves_restoreTo host h ⟨by simp, by simp⟩ _

theorem leaves_removeIsolated
    (h : IsolatedAt before at'.parent at'.original at'.detached target s) (entry : PlannedEntry)
    (isolation : Isolation) (reference : Option Handle) :
    leaves (fun x s' => Settled before at'.parent at'.original x.outcome s')
      (removeIsolated host at' entry isolation reference) s := by
  unfold removeIsolated
  refine leaves_removeTarget (fun e he => ?_) fun x hx => ?_
  · have hkind : ¬e.kind = .NotFound := by
      intro hkind
      cases h.there.symm.trans (he hkind)
    dsimp only
    rw [if_neg hkind]
    split
    · refine World.wp_bind ((leaves_restoreTo host h ⟨by simp, by simp⟩ _).mono ?_)
      intro outcome s' hs
      exact leaves_return hs
    · refine World.wp_bind ((leaves_restoreTo host h ⟨by simp, by simp⟩ _).mono ?_)
      intro outcome s' hs
      exact leaves_return hs
  · obtain rfl := Option.some.inj (h.there.symm.trans hx)
    have hremoved := h.removed
    dsimp only
    split
    · have hlinks : leaves (fun _ s' => RemovedAt before at'.parent at'.original at'.detached target s')
          (survivingLinks reference)
          { s with
            names := Function.update s.names (at'.parent, at'.detached) none
            removed := s.removed ++ [target] } := by
        cases reference with
        | none => exact leaves_return hremoved
        | some r =>
          have hask : leaves
              (fun _ s' => RemovedAt before at'.parent at'.original at'.detached target s')
              (Program.ask (S := executorSignature) (.referenceLinks r) >>= pure)
              { s with
                names := Function.update s.names (at'.parent, at'.detached) none
                removed := s.removed ++ [target] } :=
            leaves_ask (fun _ _ => rfl) fun _ => leaves_return hremoved
          exact hask
      refine World.wp_bind (hlinks.mono ?_)
      intro links s' hs
      refine World.wp_bind ((leaves_finalizeTo host hs (Or.inl rfl) _).mono ?_)
      intro outcome s' hs
      split
      · exact leaves_return hs
      · exact leaves_return hs
    · refine World.wp_bind ((leaves_finalizeTo host hremoved (Or.inl rfl) _).mono ?_)
      intro outcome s' hs
      exact leaves_return hs

theorem leaves_executeIsolated
    (h : IsolatedAt before at'.parent at'.original at'.detached target s) (entry : PlannedEntry)
    (isolation : Isolation) :
    leaves (fun x s' => Settled before at'.parent at'.original x.outcome s')
      (executeIsolated host at' entry isolation) s := by
  have hfailed (e : DeletionPlanError) (kept : PlannedEntry) (s : FolderState)
      (h : IsolatedAt before at'.parent at'.original at'.detached target s)
      (he : e.isNotFound = true → s.names (at'.parent, at'.detached) = none) :
      leaves (fun x s' => Settled before at'.parent at'.original x.outcome s')
        (do
          let outcome ← inspectionFailed host at' e
          pure (⟨outcome, kept, isolation⟩ : Executed)) s := by
    refine World.wp_bind ((leaves_inspectionFailed host h he).mono ?_)
    intro outcome s' hs
    exact leaves_return hs
  have hchanged (kept : PlannedEntry) (s : FolderState)
      (h : IsolatedAt before at'.parent at'.original at'.detached target s) :
      leaves (fun x s' => Settled before at'.parent at'.original x.outcome s')
        (do
          let outcome ← restoreTo host at' (.Changed changedDetail) "entry changed"
          pure (⟨outcome, kept, isolation⟩ : Executed)) s := by
    refine World.wp_bind ((leaves_restoreTo host h ⟨by simp, by simp⟩ _).mono ?_)
    intro outcome s' hs
    exact leaves_return hs
  unfold executeIsolated
  refine World.wp_bind ((leaves_inspectChild host _).mono ?_)
  rintro read s₁ ⟨hs₁, -, hmissing₁⟩
  have h₁ := h.becomes hs₁
  cases read with
  | error e => exact hfailed e entry s₁ h₁ (hs₁.names ▸ hmissing₁ e rfl)
  | ok actual =>
    dsimp only
    split
    · exact hchanged _ s₁ h₁
    · refine leaves_ask (fun _ _ => rfl) fun _ => ?_
      refine World.wp_bind ((leaves_inspectChild host _).mono ?_)
      rintro again s₂ ⟨hs₂, -, hmissing₂⟩
      have h₂ := h₁.becomes hs₂
      cases again with
      | error e => exact hfailed e _ s₂ h₂ (hs₂.names ▸ hmissing₂ e rfl)
      | ok revalidated =>
        dsimp only
        split
        · exact hchanged _ s₂ h₂
        · unfold linkReference
          split
          · exact leaves_ask (fun _ _ => rfl) fun reference =>
              leaves_removeIsolated host h₂ _ isolation reference
          · exact leaves_removeIsolated host h₂ _ isolation none

/-- A refused isolation leaves the names as they were, and is a disappearance only of a name that
is not there. -/
theorem leaves_isolationFailed (h : Reserved before at'.parent at'.detached s)
    (entry : PlannedEntry) (isolation : Isolation) {e : IoError}
    (he : e.kind = .NotFound → before (at'.parent, at'.original) = none) :
    leaves (fun x s' => Settled before at'.parent at'.original x.outcome s')
      (isolationFailed host at' entry isolation e) s := by
  unfold isolationFailed
  refine World.wp_bind ((leaves_removeVerifiedPlaceholder host).mono ?_)
  rintro cleanup s' ⟨hnone, hsome⟩
  cases cleanup with
  | some c =>
    have hkept := h.becomes (hsome c rfl)
    split
    · exact leaves_return hkept.failed
    · exact leaves_return hkept.failed
  | none =>
    have hs := hnone rfl
    have hnames := h.released hs
    have hparent := hs.parent.trans h.parent
    split
    · rename_i hkind
      have habsent := he hkind
      refine leaves_return ⟨hparent, ?_, fun _ => ?_, fun x hx => ?_, fun q _ => Or.inl ?_⟩
      · rintro (heq | ⟨_, heq⟩) <;> cases heq
      · rw [hnames, eq_comm, Function.update_eq_self_iff, habsent]
      · rw [habsent] at hx
        cases hx
      · rw [hnames]
    · exact leaves_return (Settled.of_unchanged hparent hnames ⟨by simp, by simp⟩)

/-! ## One entry -/

theorem leaves_openParents (relative : NativePath) (components : List Component) :
    ∀ {parent : Handle} {s : FolderState}, s.opened = parent →
      leaves (fun out s' => Becomes s s' s.names ∧ ∀ d, out = .ok d → s'.opened = d)
        (openParents host relative parent components) s := by
  induction components with
  | nil =>
    intro parent s hopened
    refine leaves_return ⟨Becomes.refl s, fun d h => ?_⟩
    exact hopened.trans (Except.ok.inj h)
  | cons c rest ih =>
    intro parent s hopened
    refine leaves_openDirNofollow (fun e _ => ?_) fun folder _ => ?_
    · exact leaves_return ⟨Becomes.refl s, fun _ h => nomatch h⟩
    · have hfolder : Becomes s { s with opened := folder } s.names := ⟨rfl, rfl, rfl, fun _ h => h⟩
      refine (ih (s := { s with opened := folder }) rfl).mono ?_
      rintro out s' ⟨hs, hd⟩
      exact ⟨hfolder.trans hs, hd⟩

/-- The folder of an entry is opened last of all. -/
theorem leaves_openParent (root : Handle) (relative : RelativePath) :
    leaves (fun out s' => Becomes s s' s.names ∧ ∀ d original, out = .ok (d, original) →
        s'.opened = d ∧ ∃ c, relative.components.getLast? = some c ∧ c.bytes = original)
      (openParent host root relative) s := by
  unfold openParent
  cases hlast : relative.components.getLast? with
  | none => exact leaves_return ⟨Becomes.refl s, fun _ _ h => nomatch h⟩
  | some name =>
    refine leaves_cloneRoot ?_
    rintro s' answer ⟨folder, rfl⟩ hopened
    have hfolder : Becomes s { s with opened := folder } s.names := ⟨rfl, rfl, rfl, fun _ h => h⟩
    cases answer with
    | error e => exact leaves_return ⟨hfolder, fun _ _ h => nomatch h⟩
    | ok parent =>
      refine World.wp_bind ((leaves_openParents host _ _ (hopened parent rfl)).mono ?_)
      rintro out s' ⟨hs, hd⟩
      cases out with
      | error e => exact leaves_return ⟨hfolder.trans hs, fun _ _ h => nomatch h⟩
      | ok d =>
        refine leaves_return ⟨hfolder.trans hs, fun d' original h => ?_⟩
        obtain ⟨rfl, rfl⟩ := Prod.mk.inj (Except.ok.inj h)
        exact ⟨hd d rfl, name, rfl, rfl⟩

theorem leaves_tryClaim {f : Bool → Executor Executed} {Q : Executed → FolderState → Prop}
    (h : ∀ claimed, leaves Q (f claimed) { s with parent := some s.opened }) :
    leaves Q (tryClaim >>= f) s :=
  leaves_call fun _ => Or.inr ⟨_, _, rfl, h _⟩

end Executor

/-- The folder of an entry and its name there. -/
def targetPlace (entry : PlannedEntry) (parent : Option Handle) : Option EntryPlace :=
  parent.bind fun d => entry.relativePath.components.getLast?.map fun c => (d, c.bytes)

/-- What the execution of an entry leaves of the names there were. -/
structure Restored (before : Names) (entry : PlannedEntry) (outcome : DeletionEntryOutcome)
    (after : FolderState) : Prop where
  unchanged : (outcome = .Unattempted ∨ ∃ detail, outcome = .Changed detail) →
    after.names = before
  taken : (outcome = .Deleted ∨ outcome = .Missing) →
    ∃ p, targetPlace entry after.parent = some p ∧ after.names = Function.update before p none
  named : ∀ p x, targetPlace entry after.parent = some p → before p = some x →
    x ∈ after.removed ∨ ∃ n, after.names (p.1, n) = some x
  others : ∀ q, targetPlace entry after.parent ≠ some q → after.names q = before q ∨
    before q = none ∧ after.parent = some q.1 ∧ q.2 ∈ after.drawn

theorem Settled.restored {before : Names} {d : Handle} {original : OsString}
    {outcome : DeletionEntryOutcome} {after : FolderState}
    (h : Settled before d original outcome after) {entry : PlannedEntry} {c : Component}
    (hlast : entry.relativePath.components.getLast? = some c) (hc : c.bytes = original) :
    Restored before entry outcome after := by
  have hplace : targetPlace entry after.parent = some (d, original) := by
    rw [h.parent, targetPlace, Option.bind_some, hlast, Option.map_some, hc]
  refine ⟨h.unchanged, fun hout => ⟨_, hplace, h.taken hout⟩, fun p x hp hx => ?_, fun q hq => ?_⟩
  · obtain rfl := Option.some.inj (hplace.symm.trans hp)
    exact h.named x hx
  · have hne : q ≠ (d, original) := by
      rintro rfl
      exact hq hplace
    rcases h.others q hne with hsame | ⟨hfree, hd, hdrawn⟩
    · exact Or.inl hsame
    · exact Or.inr ⟨hfree, by rw [h.parent, hd], hdrawn⟩

theorem Restored.of_names {before : Names} {entry : PlannedEntry}
    {outcome : DeletionEntryOutcome} {after : FolderState} (hnames : after.names = before)
    (houtcome : outcome ≠ .Deleted ∧ outcome ≠ .Missing) :
    Restored before entry outcome after where
  unchanged := fun _ => hnames
  taken := by
    rintro (h | h)
    · exact absurd h houtcome.1
    · exact absurd h houtcome.2
  named := fun p x _ hx => Or.inr ⟨p.2, hnames ▸ hx⟩
  others := fun q _ => Or.inl (by rw [hnames])

namespace Executor

theorem leaves_executeUnixEntry (host : Host) (s : FolderState) (root : Handle)
    (entry : PlannedEntry) (isolation : Isolation) :
    leaves (fun x s' => Restored s.names entry x.outcome s')
      (executeUnixEntry host tryClaim tryBegin root entry isolation) s := by
  unfold executeUnixEntry
  refine World.wp_bind ((leaves_openParent host root _).mono ?_)
  rintro opened s₁ ⟨hs₁, hopened⟩
  cases opened with
  | error e =>
    dsimp only
    split
    · exact leaves_return (.of_names hs₁.names ⟨by simp, by simp⟩)
    · exact leaves_return (.of_names hs₁.names ⟨by simp, by simp⟩)
  | ok place =>
    obtain ⟨d, original⟩ := place
    obtain ⟨hd, c, hlast, hc⟩ := hopened d original rfl
    refine leaves_tryClaim fun claimed => ?_
    rw [hd]
    split
    · refine World.wp_bind ((leaves_createPlaceholder placeholderNameAttempts).mono ?_)
      rintro created s₂ ⟨hok, herror⟩
      dsimp only at hok herror
      rw [hs₁.names] at hok herror
      cases created with
      | error e =>
        refine leaves_return (Settled.restored (d := d) ?_ hlast hc)
        rcases herror e rfl with hs₂ | ⟨name, x, hfree, hdrawn, hs₂⟩
        · exact .of_unchanged hs₂.parent hs₂.names ⟨by simp, by simp⟩
        · have hreserved : Reserved s.names d name s₂ := ⟨⟨x, hs₂.names⟩, hfree, hs₂.parent, hdrawn⟩
          exact hreserved.failed
      | ok placeholder =>
        obtain ⟨detached, snapshot⟩ := placeholder
        obtain ⟨hfree, hdrawn, x, hs₂⟩ := hok detached snapshot rfl
        have hreserved : Reserved s.names d detached s₂ :=
          ⟨⟨x, hs₂.names⟩, hfree, hs₂.parent, hdrawn⟩
        refine leaves_ask (fun _ _ => rfl) fun begins => ?_
        split
        · refine leaves_exchange (fun e he => ?_) fun y z hy hz => ?_
          · have habsent (hkind : e.kind = .NotFound) : s.names (d, original) = none := by
              rcases he hkind with hnone | hnone
              · rw [hs₂.names, Function.update_self] at hnone
                cases hnone
              · rw [hs₂.names] at hnone
                by_cases hsame : ((d, original) : EntryPlace) = (d, detached)
                · rw [hsame, hfree]
                · rw [Function.update_of_ne hsame] at hnone
                  exact hnone
            refine World.wp.mono (leaves_isolationFailed host hreserved entry isolation habsent) ?_
            intro x s' hs
            exact hs.restored hlast hc
          · have hisolated : IsolatedAt s.names d original detached z
                { s₂ with
                  names := Function.update (Function.update s₂.names (d, detached) (some z))
                    (d, original) (some y) } :=
              hreserved.isolated hy hz ⟨rfl, rfl, rfl, fun _ h => h⟩
            refine World.wp.mono (leaves_executeIsolated host hisolated entry isolation) ?_
            intro x s' hs
            exact hs.restored hlast hc
        · refine leaves_ask (fun _ _ => rfl) fun _ => ?_
          refine World.wp_bind ((leaves_removeVerifiedPlaceholder host).mono ?_)
          rintro cleanup s₃ ⟨hnone, hsome⟩
          cases cleanup with
          | none =>
            have hs₃ := hnone rfl
            exact leaves_return (.of_names (hreserved.released hs₃) ⟨by simp, by simp⟩)
          | some e =>
            exact leaves_return ((hreserved.becomes (hsome e rfl)).failed.restored hlast hc)
    · exact leaves_return (.of_names hs₁.names ⟨by simp, by simp⟩)

end Executor

/-- In folders nobody else writes, whatever fails, an executed entry leaves the names it had found
or these without the entry's; a target that was not removed is named, and other names are not
touched. -/
theorem executed_entry_restored (host : Host) (names : Names) (objects : Nat) (root : Handle)
    (entry : PlannedEntry) (isolation : Executor.Isolation) (calls : List (Answers ⊕ Empty))
    {s' : FolderState} {x : Executor.Executed}
    (hrun : (folderWorld.machine Executor.Executed).run (FolderState.start names objects,
      Executor.executeUnixEntry host Executor.tryClaim Executor.tryBegin root entry isolation)
        calls = (s', .done x)) : Restored names entry x.outcome s' := by
  have hdone := (Executor.leaves_executeUnixEntry host (FolderState.start names objects) root entry
    isolation).run calls
  rw [hrun] at hdone
  exact (hdone s' (.refl s')).2

/-- The claim is granted, and every call works but the removal of a file. -/
def removalRefused : Answers
  | .tryClaim | .tryBegin => true
  | .removeFile .. => some ⟨.Other, "not permitted"⟩
  | c => oneFileAnswers true c

/-- The file of the entry and another. -/
def twoFiles : Names := fun p =>
  if p = (0, [0x61]) then some 0 else if p = (0, [0x62]) then some 1 else none

/-- The entry was isolated and the names are put back. -/
theorem executed_entry_restored_removalRefused :
    let run := (folderWorld.machine Executor.Executed).run
      (FolderState.start twoFiles 2, Executor.executeUnixEntry plainHost Executor.tryClaim
        Executor.tryBegin 0 oneFile ⟨false, false, false⟩)
      (List.replicate 24 (.inl removalRefused))
    run.1.drawn = [[]] ∧ run.1.removed = [] ∧
      [[0x61], [0x62], []].map (fun name => run.1.names (0, name)) = [some 0, some 1, none] ∧
      ∃ x, run.2 = .done x ∧ x.outcome = .Failed "not permitted" ∧
        Restored twoFiles oneFile x.outcome run.1 := by
  intro run
  have hdone : ∃ x, run.2 = .done x ∧ x.outcome = .Failed "not permitted" := ⟨_, rfl, rfl⟩
  obtain ⟨x, hx, houtcome⟩ := hdone
  refine ⟨by decide +kernel, by decide +kernel, by decide +kernel, x, hx, houtcome, ?_⟩
  exact executed_entry_restored plainHost _ 2 0 oneFile ⟨false, false, false⟩
    (List.replicate 24 (.inl removalRefused)) (Prod.ext rfl hx)

end Excise
