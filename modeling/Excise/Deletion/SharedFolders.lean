import Excise.Deletion.Restoration
import Excise.Lib.LinkTable

/-!
# Folders that others write too

The calls of the executor on names that other processes make, move and remove between any two of
them. The system tells the truth of an object and refuses whatever it likes. A `respectful` world is
one in which nobody else touches the executor's private names.
-/

namespace Excise
set_option autoImplicit false

/-- A name in a folder. An object is its identity, which no other object gets. -/
abbrev FolderName := FileId × OsString

abbrev FolderTable := LinkTable FolderName FileId

/-- What the system can tell of an object. -/
structure ObjectTable where
  reparsePoint : FileId → Bool
  kind : FileId → PlannedKind

namespace ObjectTable

def isObject (objects : ObjectTable) (x : FileId) (identity : NativeIdentity) : Bool :=
  decide (identity.fileId = x) && decide (identity.reparsePoint = objects.reparsePoint x)

/-- A snapshot that the system may give of an object. A folder counts its own links. -/
def tells (objects : ObjectTable) (x : FileId) (links : Nat) (snapshot : PlannedSnapshot) : Bool :=
  objects.isObject x snapshot.identity && decide (snapshot.kind = objects.kind x) &&
    (!snapshot.kind.isFileOrLink || snapshot.identity.linkCount.all fun n => decide (n = links))

end ObjectTable

/-- A removal by the executor: what was removed, for which entry, what had been looked at last, and
how many links were left. -/
structure Removal where
  object : FileId
  placeholder : Bool
  planned : Option PlannedEntry
  seen : Option (FileId × PlannedSnapshot)
  linksLeft : Nat

/-- The names, what the open handles stand for, and what the executor did: the private names it
took, the placeholders it made, the entry at hand, the object it looked at last, its removals and
the objects it counted no links of. -/
structure SharedState where
  table : FolderTable
  handles : Handle → Option FileId
  privates : List FolderName
  placeholders : List FileId
  planned : Option PlannedEntry
  seen : Option (FileId × PlannedSnapshot)
  removals : List Removal
  unlinked : List FileId

namespace SharedState

def start (table : FolderTable) : SharedState :=
  ⟨table, fun _ => none, [], [], none, none, [], []⟩

def place (s : SharedState) (d : Handle) (n : OsString) : Option FolderName :=
  (s.handles d).map fun folder => (folder, n)

def holds (s : SharedState) (d : Handle) (n : OsString) : Option FileId :=
  (s.place d n).bind s.table.names

/-- A handle that is not in use yet, to an object. -/
def opens {ε : Type} (s : SharedState) (x : Option FileId) :
    Except ε Handle → SharedState × Option (Except ε Handle)
  | .ok h =>
    match x, s.handles h with
    | some x, none => ({ s with handles := Function.update s.handles h (some x) }, some (.ok h))
    | _, _ => (s, none)
  | .error e => (s, some (.error e))

/-- A file that did not exist before, under a name that was free. -/
def creates (s : SharedState) (fresh : FileId) (d : Handle) (n : OsString) :
    Except IoError Handle → SharedState × Option (Except IoError Handle)
  | .ok h =>
    match s.place d n, s.handles h with
    | some p, none =>
      if s.table.names p = none ∧ fresh ∉ s.table.used then
        ({ s with
          table := s.table.create p fresh
          handles := Function.update s.handles h (some fresh)
          privates := p :: s.privates
          placeholders := fresh :: s.placeholders }, some (.ok h))
      else (s, none)
    | _, _ => (s, none)
  | .error e => (s, some (.error e))

/-- A look at an object. -/
def sees (s : SharedState) (objects : ObjectTable) (x : Option FileId)
    (snapshot : PlannedSnapshot) : Option SharedState :=
  match x with
  | some x =>
    if objects.tells x (s.table.links x) snapshot then some { s with seen := some (x, snapshot) }
    else none
  | none => none

def statAt (s : SharedState) (objects : ObjectTable) (d : Handle) (n : OsString) :
    Except IoError (Except String PlannedSnapshot) →
      SharedState × Option (Except IoError (Except String PlannedSnapshot))
  | .ok (.ok snapshot) =>
    match s.sees objects (s.holds d n) snapshot with
    | some s' => (s', some (.ok (.ok snapshot)))
    | none => (s, none)
  | answer => (s, some answer)

def statOpen (s : SharedState) (objects : ObjectTable) (h : Handle) :
    Except IoError PlannedSnapshot → SharedState × Option (Except IoError PlannedSnapshot)
  | .ok snapshot =>
    match s.sees objects (s.handles h) snapshot with
    | some s' => (s', some (.ok snapshot))
    | none => (s, none)
  | .error e => (s, some (.error e))

def exchanged (s : SharedState) (d : Handle) (a b : OsString) : Option SharedState :=
  (s.place d a).bind fun p => (s.place d b).bind fun q =>
    (s.table.exchange p q).map fun t => { s with table := t }

/-- The executor renames to private names only. -/
def renamed (s : SharedState) (d : Handle) (a b : OsString) : Option SharedState :=
  (s.place d a).bind fun p => (s.place d b).bind fun q =>
    (s.table.rename p q).map fun t => { s with table := t, privates := q :: s.privates }

def removes (s : SharedState) (placeholder : Bool) (d : Handle) (n : OsString) :
    Option SharedState :=
  (s.place d n).bind fun p => (s.table.names p).map fun x =>
    { s with
      table := s.table.clear p
      removals := s.removals ++
        [⟨x, placeholder, s.planned, s.seen, (s.table.clear p).links x⟩] }

/-- A call that changes names, if it can. -/
def changes (s : SharedState) (changed : Option SharedState) :
    Option IoError → SharedState × Option (Option IoError)
  | none =>
    match changed with
    | some s' => (s', some none)
    | none => (s, none)
  | some e => (s, some (some e))

/-- A reference is to the object that was expected. -/
def refers (s : SharedState) (objects : ObjectTable) (d : Handle) (n : OsString)
    (expected : NativeIdentity) : Option Handle → SharedState × Option (Option Handle)
  | some h =>
    match s.holds d n, s.handles h with
    | some x, none =>
      if objects.isObject x expected then
        ({ s with handles := Function.update s.handles h (some x) }, some (some h))
      else (s, none)
    | _, _ => (s, none)
  | none => (s, some none)

/-- An object that exists and has no links left is noted. -/
def notesUnlinked (s : SharedState) (x : FileId) : SharedState :=
  if s.table.links x = 0 ∧ x ∈ s.table.used then { s with unlinked := x :: s.unlinked } else s

def countsLinks (s : SharedState) (h : Handle) : Option Nat → SharedState × Option (Option Nat)
  | some n =>
    match s.handles h with
    | some x => if n = s.table.links x then (s.notesUnlinked x, some (some n)) else (s, none)
    | none => (s, none)
  | none => (s, some none)

end SharedState

/-- An answer that is not true of the names is not given. A new file would get the identity
`fresh`. -/
def sharedStep (objects : ObjectTable) (root : FileId) (answers : Answers) (fresh : FileId) :
    (c : ExecutorCall) → SharedState → SharedState × Option c.Answer
  | .openRoot, s => s.opens (some root) (answers .openRoot)
  | .popReverse entry, s => ({ s with planned := entry }, some (answers (.popReverse entry)))
  | .cloneRoot h, s => s.opens (s.handles h) (answers (.cloneRoot h))
  | .openDirNofollow d n, s => s.opens (s.holds d n) (answers (.openDirNofollow d n))
  | .createNew d n, s => s.creates fresh d n (answers (.createNew d n))
  | .fileMetadata h, s => s.statOpen objects h (answers (.fileMetadata h))
  | .statAt d n, s => s.statAt objects d n (answers (.statAt d n))
  | .statOpen h, s => s.statOpen objects h (answers (.statOpen h))
  | .exchange d a b, s => s.changes (s.exchanged d a b) (answers (.exchange d a b))
  | .renameNoreplace d a b, s => s.changes (s.renamed d a b) (answers (.renameNoreplace d a b))
  | .removeFile d n, s => s.changes (s.removes false d n) (answers (.removeFile d n))
  | .removeDir d n, s => s.changes (s.removes false d n) (answers (.removeDir d n))
  | .removePlaceholder d n, s => s.changes (s.removes true d n) (answers (.removePlaceholder d n))
  | .openReference d n expected, s =>
    s.refers objects d n expected (answers (.openReference d n expected))
  | .referenceLinks h, s => s.countsLinks h (answers (.referenceLinks h))
  | c, s => (s, some (answers c))

/-- What another process does to a name. A rename is a link and an unlink, an exchange two of
them over a third name. -/
inductive OtherAction where
  | link (p q : FolderName)
  | unlink (p : FolderName)
  | create (p : FolderName) (x : FileId)

namespace OtherAction

/-- The name that is written. -/
def target : OtherAction → FolderName
  | link _ q => q
  | unlink p | create p _ => p

def act : OtherAction → FolderTable → FolderTable
  | link p q, t => t.link p q
  | unlink p, t => t.clear p
  | create p x, t => if x ∈ t.used then t else t.create p x

end OtherAction

def sharedWorld (objects : ObjectTable) (root : FileId) (respectful : Bool) :
    World executorSignature SharedState (Answers × FileId) OtherAction where
  perform c e s := sharedStep objects root e.1 e.2 c s
  others a s :=
    if respectful && decide (a.target ∈ s.privates) then s else { s with table := a.act s.table }

/-! ## What may change -/

/-- What no step takes back. An object without a name does not get one again. -/
structure Onward (s s' : SharedState) : Prop where
  handles : ∀ h x, s.handles h = some x → s'.handles h = some x
  privates : ∀ p ∈ s.privates, p ∈ s'.privates
  placeholders : ∀ x ∈ s.placeholders, x ∈ s'.placeholders
  planned : s'.planned = s.planned
  used : ∀ x ∈ s.table.used, x ∈ s'.table.used
  unlinked : ∀ x ∈ s.unlinked, x ∈ s'.unlinked
  named : ∀ x, s'.table.Named x → s.table.Named x ∨ x ∉ s.table.used

/-- Nothing is removed but placeholders. -/
structure Cleans (s s' : SharedState) : Prop extends Onward s s' where
  removals : ∃ rs, s'.removals = s.removals ++ rs ∧ ∀ r ∈ rs, r.placeholder = true

/-- No name is changed but by others, who leave the private ones alone if they are respectful. -/
structure Looks (respectful : Bool) (s s' : SharedState) : Prop extends Onward s s' where
  private_eq : s'.privates = s.privates
  removals : s'.removals = s.removals
  kept : respectful = true → ∀ p ∈ s.privates, s'.table.names p = s.table.names p

/-- Only others act. -/
structure Waits (respectful : Bool) (s s' : SharedState) : Prop extends Looks respectful s s' where
  handle_eq : s'.handles = s.handles
  placeholder_eq : s'.placeholders = s.placeholders
  seen : s'.seen = s.seen

section
variable {respectful : Bool} {s s' s'' : SharedState}

theorem Onward.refl (s : SharedState) : Onward s s :=
  ⟨fun _ _ h => h, fun _ h => h, fun _ h => h, rfl, fun _ h => h, fun _ h => h, fun _ h => Or.inl h⟩

theorem Onward.trans (h : Onward s s') (h' : Onward s' s'') : Onward s s'' where
  handles k x hk := h'.handles k x (h.handles k x hk)
  privates p hp := h'.privates p (h.privates p hp)
  placeholders x hx := h'.placeholders x (h.placeholders x hx)
  planned := h'.planned.trans h.planned
  used x hx := h'.used x (h.used x hx)
  unlinked x hx := h'.unlinked x (h.unlinked x hx)
  named x hx := by
    rcases h'.named x hx with hnamed | hnew
    · exact h.named x hnamed
    · exact Or.inr fun hx => hnew (h.used x hx)

theorem Onward.dead (h : Onward s s') {x : FileId} (hx : x ∈ s.table.used)
    (hnamed : ¬s.table.Named x) : ¬s'.table.Named x := by
  intro hs
  rcases h.named x hs with halive | hnew
  · exact hnamed halive
  · exact hnew hx

/-- An object whose links were counted when it had none left, and which has none now. -/
structure SharedState.Gone (s : SharedState) (x : FileId) : Prop where
  counted : x ∈ s.unlinked
  known : x ∈ s.table.used
  unnamed : ¬s.table.Named x

theorem SharedState.Gone.onward {x : FileId} (h : s.Gone x) (hs : Onward s s') : s'.Gone x :=
  ⟨hs.unlinked x h.counted, hs.used x h.known, hs.dead h.known h.unnamed⟩

theorem Looks.refl (s : SharedState) : Looks respectful s s :=
  ⟨.refl s, rfl, rfl, fun _ _ _ => rfl⟩

theorem Looks.trans (h : Looks respectful s s') (h' : Looks respectful s' s'') :
    Looks respectful s s'' where
  toOnward := h.toOnward.trans h'.toOnward
  private_eq := h'.private_eq.trans h.private_eq
  removals := h'.removals.trans h.removals
  kept hrespect p hp :=
    (h'.kept hrespect p (h.privates p hp)).trans (h.kept hrespect p hp)

theorem Waits.refl (s : SharedState) : Waits respectful s s := ⟨.refl s, rfl, rfl, rfl⟩

theorem waits_notesUnlinked (s : SharedState) (x : FileId) :
    Waits respectful s (s.notesUnlinked x) := by
  unfold SharedState.notesUnlinked
  split
  · exact ⟨⟨⟨fun _ _ h => h, fun _ h => h, fun _ h => h, rfl, fun _ h => h,
      fun _ h => List.mem_cons_of_mem x h, fun _ h => Or.inl h⟩, rfl, rfl, fun _ _ _ => rfl⟩, rfl,
      rfl, rfl⟩
  · exact .refl s

theorem Waits.trans (h : Waits respectful s s') (h' : Waits respectful s' s'') :
    Waits respectful s s'' :=
  ⟨h.toLooks.trans h'.toLooks, h'.handle_eq.trans h.handle_eq,
    h'.placeholder_eq.trans h.placeholder_eq, h'.seen.trans h.seen⟩

theorem Looks.cleans (h : Looks respectful s s') : Cleans s s' :=
  ⟨h.toOnward, [], by rw [h.removals, List.append_nil], fun _ hr => nomatch hr⟩

theorem Cleans.trans (h : Cleans s s') (h' : Cleans s' s'') : Cleans s s'' := by
  obtain ⟨rs, hrs, hplaceholder⟩ := h.removals
  obtain ⟨rs', hrs', hplaceholder'⟩ := h'.removals
  refine ⟨h.toOnward.trans h'.toOnward, rs ++ rs', ?_, fun r hr => ?_⟩
  · rw [hrs', hrs, List.append_assoc]
  · exact (List.mem_append.mp hr).elim (hplaceholder r) (hplaceholder' r)

/-- The names of a table that others write: only what has a name gets another one. -/
theorem named_act {a : OtherAction} {t : FolderTable} {x : FileId} (h : (a.act t).Named x) :
    t.Named x ∨ x ∉ t.used := by
  cases a with
  | link p q => exact Or.inl h.of_link
  | unlink p => exact Or.inl h.of_clear
  | create p y =>
    unfold OtherAction.act at h
    dsimp only at h
    split at h
    · exact Or.inl h
    · rename_i hfresh
      rcases h.of_create with rfl | hnamed
      · exact Or.inr hfresh
      · exact Or.inl hnamed

theorem names_act {a : OtherAction} {t : FolderTable} {p : FolderName}
    (hp : p ≠ a.target) : (a.act t).names p = t.names p := by
  cases a with
  | link q r =>
    unfold OtherAction.act LinkTable.link
    dsimp only
    split
    · rfl
    · exact Function.update_of_ne hp _ _
  | unlink q => exact Function.update_of_ne hp _ _
  | create q y =>
    unfold OtherAction.act
    dsimp only
    split
    · rfl
    · exact Function.update_of_ne hp _ _

theorem used_act {a : OtherAction} {t : FolderTable} {x : FileId} (h : x ∈ t.used) :
    x ∈ (a.act t).used := by
  cases a with
  | link p q =>
    unfold OtherAction.act LinkTable.link
    dsimp only
    split
    · exact h
    · exact h
  | unlink p => exact h
  | create p y =>
    unfold OtherAction.act
    dsimp only
    split
    · exact h
    · exact List.mem_cons_of_mem _ h

theorem waits_others (objects : ObjectTable) (root : FileId) (a : OtherAction) :
    Waits respectful s ((sharedWorld objects root respectful).others a s) := by
  show Waits respectful s (if _ then s else _)
  split
  · exact .refl s
  · rename_i hallowed
    refine ⟨⟨⟨fun _ _ h => h, fun _ h => h, fun _ h => h, rfl, fun x => used_act, fun _ h => h,
      fun x => named_act⟩,
      rfl, rfl, fun hrespect p hp => names_act ?_⟩, rfl, rfl, rfl⟩
    rintro rfl
    exact hallowed (Bool.and_eq_true_iff.mpr ⟨hrespect, decide_eq_true hp⟩)

end

end Excise
