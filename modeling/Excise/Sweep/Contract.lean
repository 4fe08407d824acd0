import Excise.Sweep.Programs

/-!
# What processes owe one another in the scratch parent

`Inv` is what holds of the parent between any two calls; `Rely` what one process may count on
while the others act. Each call a process makes is shown to give the others that much.
-/

namespace Excise.Sweep
set_option autoImplicit false

section Lookup
variable {κ β : Type} [BEq κ] [LawfulBEq κ] {l : List (κ × β)} {k a : κ} {b : β}

theorem lookup_filter_ne [DecidableEq κ] :
    (l.filter fun e => e.1 ≠ k).lookup a = if a = k then none else l.lookup a := by
  induction l with
  | nil => simp
  | cons e l ih =>
    obtain ⟨x, y⟩ := e
    by_cases hx : x = k
    · subst hx
      rw [List.filter_cons_of_neg (by simp), ih]
      by_cases ha : a = x
      · simp [ha]
      · have hne : (a == x) = false := by simpa using ha
        simp [ha, List.lookup_cons, hne]
    · rw [List.filter_cons_of_pos (by simpa using hx), List.lookup_cons, List.lookup_cons, ih]
      by_cases ha : a = x
      · simp [ha, hx]
      · have hne : (a == x) = false := by simpa using ha
        simp [hne]

theorem mem_of_lookup (h : l.lookup a = some b) : (a, b) ∈ l := by
  obtain ⟨l₁, l₂, rfl, -⟩ := List.lookup_eq_some_iff.mp h
  simp

end Lookup

namespace Scratch
variable (s : Scratch)

/-- The process is through with its session: it let go of the lock, or died. -/
def Gone (q : Nat) : Prop := s.phase q = .released ∨ s.phase q = .dead

def Marked (q : Nat) : Prop := s.contents q = ownerMarker

/-- What a sweep may touch. -/
def Doomed (q : Nat) : Prop := s.Gone q ∧ s.Marked q

def InUse (d : Nat) : Prop :=
  (s.dirs d).top = true ∧ ((∃ name, s.lookup name = some d) ∨ ∃ pid, (pid, d) ∈ s.opened)

/-- A session directory that carries the marker shows its lock file, unless a sweep is just
removing it or the session removed its lock file itself. -/
def Kept : Prop := ∀ name d, s.lookup name = some d → s.Marked (s.dirs d).owner →
  s.entry d lockFileName = some .lock ∨ (∃ pid, s.window pid = some d) ∨
    s.stripped (s.dirs d).owner = true

end Scratch

structure Inv (s : Scratch) : Prop where
  held : ∀ q, s.Marked q → ¬ s.Gone q → s.holder q = some q
  unborn : ∀ q, s.phase q = .fresh → s.contents q = [] ∧ ∀ d < s.nextDir, (s.dirs d).owner ≠ q
  tree : ∀ d < s.nextDir, ∀ name c, (name, Node.dir c) ∈ (s.dirs d).entries →
    c < s.nextDir ∧ (s.dirs c).owner = (s.dirs d).owner ∧ (s.dirs c).top = false
  locks : ∀ d < s.nextDir, ∀ name, (name, Node.lock) ∈ (s.dirs d).entries →
    (s.dirs d).top = true ∧ name = lockFileName
  linked : ∀ name d, s.lookup name = some d →
    d < s.nextDir ∧ (s.dirs d).top = true ∧ (s.dirs d).name = name
  single : ∀ d < s.nextDir, ∀ d' < s.nextDir, (s.dirs d).top = true → (s.dirs d').top = true →
    (s.dirs d).owner = (s.dirs d').owner → d = d'
  opened : ∀ o ∈ s.opened, o.2 < s.nextDir
  inodes : ∀ d d', s.InUse d → s.InUse d' → (s.dirs d).stat.ino = (s.dirs d').stat.ino → d = d'
  kept : s.Kept

theorem inv_empty : Inv Scratch.empty := by
  refine ⟨?_, ?_, ?_, ?_, ?_, ?_, ?_, ?_, ?_⟩
  · intro q hmarked
    cases hmarked
  · intro q _
    exact ⟨rfl, fun d hd => absurd hd (Nat.not_lt_zero d)⟩
  · intro d hd
    exact absurd hd (Nat.not_lt_zero d)
  · intro d hd
    exact absurd hd (Nat.not_lt_zero d)
  · intro name d h
    cases h
  · intro d hd
    exact absurd hd (Nat.not_lt_zero d)
  · intro o ho
    cases ho
  · intro d d' h
    cases h.1
  · intro name d h
    cases h

/-- What `pid` sees of a step of somebody else. -/
structure Rely (pid : Nat) (s s' : Scratch) : Prop where
  inv : Inv s'
  grows : s.nextDir ≤ s'.nextDir
  fixed : ∀ d < s.nextDir, s'.dirs d = { s.dirs d with entries := (s'.dirs d).entries }
  gone : ∀ q, s.Gone q → s'.Gone q
  marked : ∀ q, s.Marked q → s'.Marked q
  shrinks : ∀ d < s.nextDir, s.Doomed (s.dirs d).owner → (s'.dirs d).entries ⊆ (s.dirs d).entries
  phase : s'.phase pid = s.phase pid
  contents : s'.contents pid = s.contents pid
  closing : s'.closing pid = s.closing pid
  window : s'.window pid = s.window pid
  holds : ∀ q, s.holder q = some pid → s'.holder q = some pid
  opened : ∀ d, (pid, d) ∈ s.opened → (pid, d) ∈ s'.opened
  unbound : ∀ left, s.closing pid = some left → left.directory < s.nextDir →
    ∀ d, s'.lookup left.name = some d → s.lookup left.name = some d ∨
      left.looked = false ∧ (s'.dirs d).stat.ino ≠ (s.dirs left.directory).stat.ino
  spared : ¬ s.Doomed pid → ∀ d < s.nextDir, (s.dirs d).owner = pid →
    (s'.dirs d).entries = (s.dirs d).entries ∧
      ∀ name, s'.lookup name = some d ↔ s.lookup name = some d

/-- The turns the contract is about. No session directory is created under a name that a sweep is
about to remove: after the sweep looked at the name, or before with the number of the directory it
let go of. And a sweep that has unlinked a lock file neither fails nor dies before it has removed
the directory. -/
def sweepContract : Contract scratchCalls Scratch Chance where
  rely := Rely
  admits pid c e s :=
    match c with
    | .makeSession => ∀ q, ∀ left ∈ s.closing q, left.name = sessionPrefix ++ e.suffix →
        left.looked = false ∧ e.stat.ino ≠ (s.dirs left.directory).stat.ino
    | .statName _ | .removeName _ => s.window pid ≠ none → e.fault = none
    | _ => True
  mayCrash pid s := s.window pid = none

/-! ## What each call leaves to the others -/

variable {pid : Nat} {s : Scratch}

theorem rely_refl (h : Inv s) (q : Nat) : Rely q s s where
  inv := h
  grows := Nat.le_refl _
  fixed _ _ := rfl
  gone _ hq := hq
  marked _ hq := hq
  shrinks _ _ _ := List.Subset.refl _
  phase := rfl
  contents := rfl
  closing := rfl
  window := rfl
  holds _ hq := hq
  opened _ hd := hd
  unbound _ _ _ _ hd := Or.inl hd
  spared _ _ _ _ := ⟨rfl, fun _ => Iff.rfl⟩

theorem guarantees_refl (h : Inv s) : sweepContract.Guarantees pid s s :=
  fun other _ => rely_refl h other

/-- Directories opened and closed. -/
theorem guarantees_opened (h : Inv s) {opened : List (Nat × Nat)}
    (hnew : ∀ o ∈ opened, o ∈ s.opened ∨ o.2 < s.nextDir ∧
      ((s.dirs o.2).top = true → ∃ name, s.lookup name = some o.2))
    (hothers : ∀ o ∈ s.opened, o.1 ≠ pid → o ∈ opened) :
    sweepContract.Guarantees pid s { s with opened := opened } := by
  have hinUse : ∀ d, { s with opened := opened }.InUse d → s.InUse d := by
    rintro d ⟨htop, hname | ⟨p, hp⟩⟩
    · exact ⟨htop, Or.inl hname⟩
    · rcases hnew _ hp with hold | ⟨-, hname⟩
      · exact ⟨htop, Or.inr ⟨p, hold⟩⟩
      · exact ⟨htop, Or.inl (hname htop)⟩
  have hinv : Inv { s with opened := opened } := by
    refine ⟨h.held, h.unborn, h.tree, h.locks, h.linked, h.single, ?_, ?_, h.kept⟩
    · intro o ho
      rcases hnew o ho with hold | ⟨hlt, -⟩
      · exact h.opened o hold
      · exact hlt
    · intro d d' hd hd' hino
      exact h.inodes d d' (hinUse d hd) (hinUse d' hd') hino
  intro other hother
  exact { rely_refl h other with
    inv := hinv
    opened := fun d hd => hothers _ hd hother }

theorem guarantees_holder (h : Inv s) {holder : Nat → Option Nat}
    (hheld : ∀ q, s.Marked q → ¬ s.Gone q → holder q = some q)
    (hothers : ∀ q other, other ≠ pid → s.holder q = some other → holder q = some other) :
    sweepContract.Guarantees pid s { s with holder := holder } := by
  intro other hother
  exact { rely_refl h other with
    inv := ⟨hheld, h.unborn, h.tree, h.locks, h.linked, h.single, h.opened, h.inodes, h.kept⟩
    holds := fun q hq => hothers q other hother hq }

/-- Directories with other entries, everything else about them the same. -/
def Scratch.withEntries (s : Scratch) (entries : Nat → List (OsString × Node))
    (stripped : Nat → Bool) (window : Nat → Option Nat) : Scratch :=
  { s with
    dirs := fun d => { s.dirs d with entries := entries d }
    stripped := stripped
    window := window }

/-- The entries after those of one directory are replaced. -/
def Scratch.entriesWith (s : Scratch) (d : Nat) (l : List (OsString × Node)) (x : Nat) :
    List (OsString × Node) := if x = d then l else (s.dirs x).entries

theorem setEntries_eq (d : Nat) (l : List (OsString × Node)) :
    s.setEntries d l = s.withEntries (s.entriesWith d l) s.stripped s.window := by
  have hdirs : Function.update s.dirs d { s.dirs d with entries := l } =
      fun x => { s.dirs x with entries := s.entriesWith d l x } := by
    funext x
    by_cases hx : x = d
    · subst hx
      simp [Scratch.entriesWith]
    · simp [Scratch.entriesWith, hx]
  unfold Scratch.setEntries Scratch.setDir Scratch.withEntries
  rw [hdirs]

/-- Entries removed: by a sweep from the directories of a doomed session, or by the session from
its own. -/
theorem guarantees_shrink (h : Inv s) {entries : Nat → List (OsString × Node)}
    {stripped : Nat → Bool} {window : Nat → Option Nat}
    (hsub : ∀ d < s.nextDir, entries d ⊆ (s.dirs d).entries)
    (hmine : ∀ d < s.nextDir, (s.dirs d).owner = pid ∨ s.Doomed (s.dirs d).owner ∨
      entries d = (s.dirs d).entries)
    (hwindow : ∀ other, other ≠ pid → window other = s.window other)
    (hkept : (s.withEntries entries stripped window).Kept) :
    sweepContract.Guarantees pid s (s.withEntries entries stripped window) := by
  have hinv : Inv (s.withEntries entries stripped window) := by
    refine ⟨h.held, h.unborn, ?_, ?_, h.linked, h.single, h.opened, h.inodes, hkept⟩
    · intro d hd name c hc
      exact h.tree d hd name c (hsub d hd hc)
    · intro d hd name hlock
      exact h.locks d hd name (hsub d hd hlock)
  intro other hother
  refine { rely_refl h other with
    inv := hinv, fixed := fun _ _ => rfl, shrinks := fun d hd _ => hsub d hd
    window := hwindow other hother, spared := ?_ }
  intro hlive d hd howner
  refine ⟨?_, fun _ => Iff.rfl⟩
  rcases hmine d hd with hpid | hdoomed | hsame
  · exact absurd (howner.symm.trans hpid) hother
  · exact absurd (howner ▸ hdoomed) hlive
  · exact hsame

theorem dropEntry_eq (d : Nat) (name : OsString) : s.dropEntry d name =
    s.withEntries (s.entriesWith d ((s.dirs d).entries.filter fun e => e.1 ≠ name))
      s.stripped s.window := setEntries_eq d _

theorem entriesWith_filter_subset {d : Nat} {name : OsString} (x : Nat) :
    s.entriesWith d ((s.dirs d).entries.filter fun e => e.1 ≠ name) x ⊆ (s.dirs x).entries := by
  by_cases hx : x = d
  · subst hx
    simp [Scratch.entriesWith]
  · simp [Scratch.entriesWith, hx]

theorem entriesWith_of_ne {d x : Nat} {l : List (OsString × Node)} (h : x ≠ d) :
    s.entriesWith d l x = (s.dirs x).entries := if_neg h

/-- What is left of a directory's lock file when a name is dropped from some directory. -/
theorem lookup_lock_dropEntry {d x : Nat} {name : OsString}
    (hlock : s.entry x lockFileName = some .lock) (hname : x = d → name ≠ lockFileName) :
    (s.entriesWith d ((s.dirs d).entries.filter fun e => e.1 ≠ name) x).lookup lockFileName =
      some .lock := by
  by_cases hx : x = d
  · subst hx
    have hne := hname rfl
    simp only [Scratch.entriesWith, if_true]
    rw [lookup_filter_ne, if_neg hne.symm]
    exact hlock
  · rw [entriesWith_of_ne hx]
    exact hlock

theorem guarantees_drop (h : Inv s) {d : Nat}
    (howner : (s.dirs d).owner = pid ∨ s.Doomed (s.dirs d).owner) {name : OsString}
    (hnode : s.entry d name ≠ some .lock) :
    sweepContract.Guarantees pid s (s.dropEntry d name) := by
  rw [dropEntry_eq]
  refine guarantees_shrink h (fun x _ => entriesWith_filter_subset x) ?_ (fun _ _ => rfl) ?_
  · intro x _
    by_cases hx : x = d
    · subst hx
      exact howner.imp_right Or.inl
    · exact Or.inr (Or.inr (entriesWith_of_ne hx))
  · intro n x hx hmarked
    rcases h.kept n x hx hmarked with hlock | hrest
    · refine Or.inl (lookup_lock_dropEntry hlock ?_)
      rintro rfl rfl
      exact hnode hlock
    · exact Or.inr hrest

/-- A lock file is unlinked: by the session itself, or by a sweep that enters its window. -/
theorem guarantees_dropLock (h : Inv s) {d : Nat}
    (howner : (s.dirs d).owner = pid ∨ s.Doomed (s.dirs d).owner)
    (hquiet : (s.dirs d).owner = pid ∨ s.window pid = none) (name : OsString) :
    sweepContract.Guarantees pid s ((s.noteLock pid d .lock).dropEntry d name) := by
  have hmine : ∀ x < s.nextDir, (s.dirs x).owner = pid ∨ s.Doomed (s.dirs x).owner ∨
      s.entriesWith d ((s.dirs d).entries.filter fun e => e.1 ≠ name) x = (s.dirs x).entries := by
    intro x _
    by_cases hx : x = d
    · subst hx
      exact howner.imp_right Or.inl
    · exact Or.inr (Or.inr (entriesWith_of_ne hx))
  by_cases hpid : (s.dirs d).owner = pid
  · have hnote : (s.noteLock pid d .lock).dropEntry d name =
        s.withEntries (s.entriesWith d ((s.dirs d).entries.filter fun e => e.1 ≠ name))
          (Function.update s.stripped pid true) s.window := by
      simp only [Scratch.noteLock, hpid, if_true]
      exact dropEntry_eq d name
    rw [hnote]
    refine guarantees_shrink h (fun x _ => entriesWith_filter_subset x) hmine (fun _ _ => rfl) ?_
    intro n x hx hmarked
    by_cases howns : (s.dirs x).owner = pid
    · refine Or.inr (Or.inr ?_)
      show Function.update s.stripped pid true (s.dirs x).owner = true
      rw [howns, Function.update_self]
    · rcases h.kept n x hx hmarked with hlock | hwindow | hstripped
      · refine Or.inl (lookup_lock_dropEntry hlock ?_)
        rintro rfl
        exact absurd hpid howns
      · exact Or.inr (Or.inl hwindow)
      · refine Or.inr (Or.inr ?_)
        show Function.update s.stripped pid true (s.dirs x).owner = true
        rw [Function.update_of_ne howns]
        exact hstripped
  · have hnote : (s.noteLock pid d .lock).dropEntry d name =
        s.withEntries (s.entriesWith d ((s.dirs d).entries.filter fun e => e.1 ≠ name))
          s.stripped (Function.update s.window pid (some d)) := by
      simp only [Scratch.noteLock, hpid, if_false]
      exact dropEntry_eq d name
    have hidle : s.window pid = none := hquiet.resolve_left hpid
    rw [hnote]
    refine guarantees_shrink h (fun x _ => entriesWith_filter_subset x) hmine
      (fun other hother => Function.update_of_ne hother _ _) ?_
    intro n x hx hmarked
    by_cases hxd : x = d
    · subst hxd
      exact Or.inr (Or.inl ⟨pid, Function.update_self _ _ _⟩)
    · rcases h.kept n x hx hmarked with hlock | ⟨p, hp⟩ | hstripped
      · exact Or.inl (lookup_lock_dropEntry hlock fun heq => absurd heq hxd)
      · refine Or.inr (Or.inl ⟨p, ?_⟩)
        have hne : p ≠ pid := by
          rintro rfl
          rw [hidle] at hp
          cases hp
        exact (Function.update_of_ne hne _ _).trans hp
      · exact Or.inr (Or.inr hstripped)

/-- Something new in a directory of a session that is still at work. -/
theorem guarantees_grow (h : Inv s) {d : Nat} (howner : (s.dirs d).owner = pid)
    (hworking : s.phase pid = .working) (name : OsString) (node : Node)
    (hnode : match node with
      | .lock => (s.dirs d).top = true ∧ name = lockFileName
      | .file => True
      | .dir c => c < s.nextDir ∧ (s.dirs c).owner = pid ∧ (s.dirs c).top = false) :
    sweepContract.Guarantees pid s (s.setEntries d ((s.dirs d).entries ++ [(name, node)])) := by
  have hentries : ∀ x, (s.dirs x).entries ⊆
      s.entriesWith d ((s.dirs d).entries ++ [(name, node)]) x := by
    intro x
    by_cases hx : x = d
    · subst hx
      simp [Scratch.entriesWith]
    · simp [Scratch.entriesWith, hx]
  have hcases : ∀ x e, e ∈ s.entriesWith d ((s.dirs d).entries ++ [(name, node)]) x →
      e ∈ (s.dirs x).entries ∨ x = d ∧ e = (name, node) := by
    intro x e he
    by_cases hx : x = d
    · subst hx
      simpa [Scratch.entriesWith] using he
    · simp only [Scratch.entriesWith, hx, if_false] at he
      exact Or.inl he
  have hlive : ¬ s.Gone pid := by
    rintro (hphase | hphase)
    all_goals
      rw [hworking] at hphase
      cases hphase
  rw [setEntries_eq]
  have hinv : Inv (s.withEntries (s.entriesWith d ((s.dirs d).entries ++ [(name, node)]))
      s.stripped s.window) := by
    refine ⟨h.held, h.unborn, ?_, ?_, h.linked, h.single, h.opened, h.inodes, ?_⟩
    · intro x hx name' c hc
      rcases hcases x _ hc with hold | ⟨rfl, hnew⟩
      · exact h.tree x hx name' c hold
      · obtain ⟨rfl, rfl⟩ := Prod.mk.inj hnew
        exact ⟨hnode.1, hnode.2.1.trans howner.symm, hnode.2.2⟩
    · intro x hx name' hc
      rcases hcases x _ hc with hold | ⟨rfl, hnew⟩
      · exact h.locks x hx name' hold
      · obtain ⟨rfl, rfl⟩ := Prod.mk.inj hnew
        exact hnode
    · intro name' x hx hmarked
      rcases h.kept name' x hx hmarked with hlock | hrest
      · refine Or.inl ?_
        by_cases hxd : x = d
        · subst hxd
          simp only [Scratch.entry, Scratch.withEntries, Scratch.entriesWith, if_true] at hlock ⊢
          rw [List.lookup_append, hlock]
          rfl
        · simp only [Scratch.entry, Scratch.withEntries, Scratch.entriesWith, hxd, if_false] at hlock ⊢
          exact hlock
      · exact Or.inr hrest
  intro other hother
  refine { rely_refl h other with
    inv := hinv, fixed := fun _ _ => rfl, shrinks := ?_, spared := ?_ }
  · intro x _ hdoomed e he
    rcases hcases x e he with hold | ⟨rfl, -⟩
    · exact hold
    · exact absurd (howner ▸ hdoomed.1) hlive
  · intro _ x _ hx
    refine ⟨?_, fun _ => Iff.rfl⟩
    have hxd : x ≠ d := by
      rintro rfl
      exact hother (hx.symm.trans howner)
    simp [Scratch.withEntries, Scratch.entriesWith, hxd]

theorem dirs_addDir_of_lt {directory : Directory} {d : Nat} (hd : d < s.nextDir) :
    (s.addDir directory).dirs d = s.dirs d :=
  Function.update_of_ne (Nat.ne_of_lt hd) _ _

theorem dirs_addDir_self {directory : Directory} :
    (s.addDir directory).dirs s.nextDir = directory := Function.update_self _ _ _

theorem rely_trans {q : Nat} {s' s'' : Scratch} (h : Rely q s s') (h' : Rely q s' s'')
    (hlive : s'.Doomed q → s.Doomed q) : Rely q s s'' where
  inv := h'.inv
  grows := Nat.le_trans h.grows h'.grows
  fixed d hd := by
    rw [h'.fixed d (Nat.lt_of_lt_of_le hd h.grows), h.fixed d hd]
  gone p hp := h'.gone p (h.gone p hp)
  marked p hp := h'.marked p (h.marked p hp)
  shrinks d hd hdoomed := by
    have howner : (s'.dirs d).owner = (s.dirs d).owner := by rw [h.fixed d hd]
    refine List.Subset.trans (h'.shrinks d (Nat.lt_of_lt_of_le hd h.grows) ?_)
      (h.shrinks d hd hdoomed)
    rw [howner]
    exact ⟨h.gone _ hdoomed.1, h.marked _ hdoomed.2⟩
  phase := h'.phase.trans h.phase
  contents := h'.contents.trans h.contents
  closing := h'.closing.trans h.closing
  window := h'.window.trans h.window
  holds p hp := h'.holds p (h.holds p hp)
  opened d hd := h'.opened d (h.opened d hd)
  unbound left hclosing hknown d hd := by
    have hknown' := Nat.lt_of_lt_of_le hknown h.grows
    rcases h'.unbound left (h.closing.trans hclosing) hknown' d hd with hd | ⟨hlooked, hino⟩
    · refine (h.unbound left hclosing hknown d hd).imp_right fun ⟨hlooked, hino⟩ => ⟨hlooked, ?_⟩
      rw [h'.fixed d (h.inv.linked left.name d hd).1]
      exact hino
    · rw [h.fixed left.directory hknown] at hino
      exact Or.inr ⟨hlooked, hino⟩
  spared hq d hd howner := by
    have howner' : (s'.dirs d).owner = q := by rw [h.fixed d hd]; exact howner
    obtain ⟨hentries, hbound⟩ := h.spared hq d hd howner
    obtain ⟨hentries', hbound'⟩ :=
      h'.spared (fun hd => hq (hlive hd)) d (Nat.lt_of_lt_of_le hd h.grows) howner'
    exact ⟨hentries'.trans hentries, fun name => (hbound' name).trans (hbound name)⟩

theorem guarantees_trans {s' s'' : Scratch} (h : sweepContract.Guarantees pid s s')
    (h' : sweepContract.Guarantees pid s' s'') (hlive : ∀ q, s'.Doomed q → s.Doomed q) :
    sweepContract.Guarantees pid s s'' :=
  fun other hother => rely_trans (h other hother) (h' other hother) (hlive other)

/-- A directory that is not linked anywhere yet. -/
theorem guarantees_addDir (h : Inv s) (directory : Directory) (howner : directory.owner = pid)
    (htop : directory.top = false) (hentries : directory.entries = [])
    (hphase : s.phase pid ≠ .fresh) :
    sweepContract.Guarantees pid s (s.addDir directory) := by
  have hcases : ∀ d < s.nextDir + 1, d < s.nextDir ∨ d = s.nextDir := fun d hd => by omega
  have hlinked : ∀ name d, s.lookup name = some d → (s.addDir directory).dirs d = s.dirs d :=
    fun name d hd => dirs_addDir_of_lt (h.linked name d hd).1
  have hinUse : ∀ d, (s.addDir directory).InUse d →
      s.InUse d ∧ (s.addDir directory).dirs d = s.dirs d := by
    rintro d ⟨hd, hname | ⟨p, hp⟩⟩
    · obtain ⟨name, hname⟩ := hname
      have hsame := hlinked name d hname
      rw [hsame] at hd
      exact ⟨⟨hd, Or.inl ⟨name, hname⟩⟩, hsame⟩
    · have hsame : (s.addDir directory).dirs d = s.dirs d :=
        dirs_addDir_of_lt (h.opened _ hp)
      rw [hsame] at hd
      exact ⟨⟨hd, Or.inr ⟨p, hp⟩⟩, hsame⟩
  have hinv : Inv (s.addDir directory) := by
    refine ⟨h.held, ?_, ?_, ?_, ?_, ?_, ?_, ?_, ?_⟩
    · intro q hq
      refine ⟨(h.unborn q hq).1, ?_⟩
      intro d hd
      rcases hcases d hd with hlt | rfl
      · rw [dirs_addDir_of_lt hlt]
        exact (h.unborn q hq).2 d hlt
      · rw [dirs_addDir_self, howner]
        rintro rfl
        exact hphase hq
    · intro d hd name c hc
      rcases hcases d hd with hlt | rfl
      · rw [dirs_addDir_of_lt hlt] at hc ⊢
        obtain ⟨hc₁, hc₂, hc₃⟩ := h.tree d hlt name c hc
        rw [dirs_addDir_of_lt hc₁]
        exact ⟨Nat.lt_succ_of_lt hc₁, hc₂, hc₃⟩
      · rw [dirs_addDir_self, hentries] at hc
        cases hc
    · intro d hd name hlock
      rcases hcases d hd with hlt | rfl
      · rw [dirs_addDir_of_lt hlt] at hlock ⊢
        exact h.locks d hlt name hlock
      · rw [dirs_addDir_self, hentries] at hlock
        cases hlock
    · intro name d hd
      obtain ⟨hlt, hrest⟩ := h.linked name d hd
      rw [dirs_addDir_of_lt hlt]
      exact ⟨Nat.lt_succ_of_lt hlt, hrest⟩
    · intro d hd d' hd' htopd htopd'
      rcases hcases d hd with hlt | rfl
      · rcases hcases d' hd' with hlt' | rfl
        · rw [dirs_addDir_of_lt hlt] at htopd ⊢
          rw [dirs_addDir_of_lt hlt'] at htopd' ⊢
          exact h.single d hlt d' hlt' htopd htopd'
        · rw [dirs_addDir_self, htop] at htopd'
          cases htopd'
      · rw [dirs_addDir_self, htop] at htopd
        cases htopd
    · intro o ho
      exact Nat.lt_succ_of_lt (h.opened o ho)
    · intro d d' hd hd' hino
      obtain ⟨hd, hsame⟩ := hinUse d hd
      obtain ⟨hd', hsame'⟩ := hinUse d' hd'
      rw [hsame, hsame'] at hino
      exact h.inodes d d' hd hd' hino
    · intro name d hd hmarked
      have hsame := hlinked name d hd
      rw [hsame] at hmarked ⊢
      simp only [Scratch.entry, hsame]
      exact h.kept name d hd hmarked
  intro other _
  exact { rely_refl h other with
    inv := hinv
    grows := Nat.le_succ _
    fixed := fun d hd => by rw [dirs_addDir_of_lt hd]
    shrinks := fun d hd _ => by
      rw [dirs_addDir_of_lt hd]
      exact List.Subset.refl _
    unbound := fun _ _ _ _ hd => Or.inl hd
    spared := fun _ d hd _ => by
      rw [dirs_addDir_of_lt hd]
      exact ⟨rfl, fun _ => Iff.rfl⟩ }

theorem not_marked_of_nil {q : Nat} (h : s.contents q = []) : ¬ s.Marked q := by
  intro hmarked
  rw [Scratch.Marked, h] at hmarked
  cases hmarked

/-- The parent and the directories after a session directory was made. -/
def Scratch.withSession (s : Scratch) (pid : Nat) (name : OsString) (stat : Stat) : Scratch :=
  { s.addDir ⟨pid, true, name, stat, []⟩ with
    parent := s.parent ++ [(name, s.nextDir)]
    phase := Function.update s.phase pid .working }

section NewSession
variable {name : OsString} {stat : Stat}

theorem lookup_withSession (hunused : s.lookup name = none) {n : OsString} {d : Nat} :
    (s.withSession pid name stat).lookup n = some d ↔
      s.lookup n = some d ∨ n = name ∧ d = s.nextDir := by
  show List.lookup n (s.parent ++ [(name, s.nextDir)]) = some d ↔ _
  rw [List.lookup_append, List.lookup_cons, List.lookup_nil]
  show (s.lookup n).or _ = some d ↔ _
  by_cases hn : n = name
  · subst hn
    rw [hunused]
    simp [eq_comm]
  · have hne : (n == name) = false := by simpa using hn
    simp [hn, hne]

theorem inUse_withSession (h : Inv s) (hunused : s.lookup name = none) {d : Nat}
    (hd : (s.withSession pid name stat).InUse d) : d < s.nextDir ∧ s.InUse d ∨ d = s.nextDir := by
  have hold : d < s.nextDir → ((∃ n, s.lookup n = some d) ∨ ∃ p, (p, d) ∈ s.opened) →
      d < s.nextDir ∧ s.InUse d := by
    intro hlt huse
    have htop : ((s.addDir ⟨pid, true, name, stat, []⟩).dirs d).top = true := hd.1
    rw [dirs_addDir_of_lt hlt] at htop
    exact ⟨hlt, htop, huse⟩
  rcases hd.2 with ⟨n, hn⟩ | ⟨p, hp⟩
  · rcases (lookup_withSession hunused).mp hn with hn | ⟨-, rfl⟩
    · exact Or.inl (hold (h.linked n d hn).1 (Or.inl ⟨n, hn⟩))
    · exact Or.inr rfl
  · exact Or.inl (hold (h.opened _ hp) (Or.inr ⟨p, hp⟩))

theorem ino_ne_of_inUse {d : Nat} (hd : s.InUse d) (hino : s.inodeInUse stat.ino = false) :
    (s.dirs d).stat.ino ≠ stat.ino := by
  intro heq
  simp only [Scratch.inodeInUse, List.any_eq_false, List.mem_append, List.mem_map,
    decide_eq_true_eq] at hino
  rcases hd.2 with ⟨n, hn⟩ | ⟨p, hp⟩
  · exact hino d (Or.inl ⟨(n, d), mem_of_lookup hn, rfl⟩) heq
  · exact hino d (Or.inr ⟨(p, d), hp, rfl⟩) heq

theorem inv_withSession (h : Inv s) (hphase : s.phase pid = .fresh)
    (hunused : s.lookup name = none) (hino : s.inodeInUse stat.ino = false) :
    Inv (s.withSession pid name stat) := by
  have hcases : ∀ d < s.nextDir + 1, d < s.nextDir ∨ d = s.nextDir := fun d hd => by omega
  have hlt : ∀ {d}, d < s.nextDir → (s.withSession pid name stat).dirs d = s.dirs d :=
    fun hd => dirs_addDir_of_lt hd
  have hself : (s.withSession pid name stat).dirs s.nextDir = ⟨pid, true, name, stat, []⟩ :=
    dirs_addDir_self
  have hothers : ∀ q, q ≠ pid → (s.withSession pid name stat).phase q = s.phase q :=
    fun q hq => Function.update_of_ne hq _ _
  have hmine : (s.withSession pid name stat).phase pid = .working := Function.update_self _ _ _
  obtain ⟨hcontents, hnone⟩ := h.unborn pid hphase
  refine ⟨?_, ?_, ?_, ?_, ?_, ?_, ?_, ?_, ?_⟩
  · intro q hmarked hlive
    by_cases hq : q = pid
    · subst hq
      exact absurd hmarked (not_marked_of_nil hcontents)
    · refine h.held q hmarked fun hgone => hlive ?_
      unfold Scratch.Gone
      rw [hothers q hq]
      exact hgone
  · intro q hq
    have hne : q ≠ pid := by
      rintro rfl
      rw [hmine] at hq
      cases hq
    rw [hothers q hne] at hq
    refine ⟨(h.unborn q hq).1, ?_⟩
    intro d hd
    rcases hcases d hd with hd | rfl
    · rw [hlt hd]
      exact (h.unborn q hq).2 d hd
    · rw [hself]
      exact fun heq => hne heq.symm
  · intro d hd n c hc
    rcases hcases d hd with hd | rfl
    · rw [hlt hd] at hc ⊢
      obtain ⟨hc₁, hc₂, hc₃⟩ := h.tree d hd n c hc
      rw [hlt hc₁]
      exact ⟨Nat.lt_succ_of_lt hc₁, hc₂, hc₃⟩
    · rw [hself] at hc
      cases hc
  · intro d hd n hlock
    rcases hcases d hd with hd | rfl
    · rw [hlt hd] at hlock ⊢
      exact h.locks d hd n hlock
    · rw [hself] at hlock
      cases hlock
  · intro n d hd
    rcases (lookup_withSession hunused).mp hd with hd | ⟨rfl, rfl⟩
    · obtain ⟨hd, hrest⟩ := h.linked n d hd
      rw [hlt hd]
      exact ⟨Nat.lt_succ_of_lt hd, hrest⟩
    · rw [hself]
      exact ⟨Nat.lt_succ_self _, rfl, rfl⟩
  · intro d hd d' hd' htop htop' howner
    rcases hcases d hd with hd | rfl <;> rcases hcases d' hd' with hd' | rfl
    · rw [hlt hd] at htop howner
      rw [hlt hd'] at htop' howner
      exact h.single d hd d' hd' htop htop' howner
    · rw [hlt hd, hself] at howner
      exact absurd howner (hnone d hd)
    · rw [hlt hd', hself] at howner
      exact absurd howner.symm (hnone d' hd')
    · rfl
  · intro o ho
    exact Nat.lt_succ_of_lt (h.opened o ho)
  · intro d d' hd hd' hsame
    rcases inUse_withSession h hunused hd with ⟨hd, huse⟩ | rfl <;>
      rcases inUse_withSession h hunused hd' with ⟨hd', huse'⟩ | rfl
    · rw [hlt hd, hlt hd'] at hsame
      exact h.inodes d d' huse huse' hsame
    · rw [hlt hd, hself] at hsame
      exact absurd hsame (ino_ne_of_inUse huse hino)
    · rw [hlt hd', hself] at hsame
      exact absurd hsame.symm (ino_ne_of_inUse huse' hino)
    · rfl
  · intro n d hd hmarked
    rcases (lookup_withSession hunused).mp hd with hd | ⟨rfl, rfl⟩
    · have hsame := hlt (h.linked n d hd).1
      rw [hsame] at hmarked ⊢
      simp only [Scratch.entry, hsame]
      exact h.kept n d hd hmarked
    · rw [hself] at hmarked
      exact absurd hmarked (not_marked_of_nil hcontents)

theorem guarantees_withSession (h : Inv s) (hphase : s.phase pid = .fresh)
    (hunused : s.lookup name = none) (hino : s.inodeInUse stat.ino = false)
    (hname : ∀ q, ∀ left ∈ s.closing q, left.name = name →
      left.looked = false ∧ stat.ino ≠ (s.dirs left.directory).stat.ino) :
    sweepContract.Guarantees pid s (s.withSession pid name stat) := by
  have hlt : ∀ {d}, d < s.nextDir → (s.withSession pid name stat).dirs d = s.dirs d :=
    fun hd => dirs_addDir_of_lt hd
  have hothers : ∀ q, q ≠ pid → (s.withSession pid name stat).phase q = s.phase q :=
    fun q hq => Function.update_of_ne hq _ _
  intro other hother
  refine { rely_refl h other with
    inv := inv_withSession h hphase hunused hino
    grows := Nat.le_succ _
    fixed := fun d hd => by rw [hlt hd]
    gone := ?_
    shrinks := fun d hd _ => by
      rw [hlt hd]
      exact List.Subset.refl _
    phase := hothers other hother
    unbound := ?_
    spared := ?_ }
  · intro q hgone
    have hq : q ≠ pid := by
      rintro rfl
      rcases hgone with hgone | hgone
      all_goals
        rw [hphase] at hgone
        cases hgone
    unfold Scratch.Gone
    rw [hothers q hq]
    exact hgone
  · intro left hclosing _ d hd
    rcases (lookup_withSession hunused).mp hd with hd | ⟨hsame, rfl⟩
    · exact Or.inl hd
    · rw [show (s.withSession pid name stat).dirs s.nextDir = ⟨pid, true, name, stat, []⟩ from
        dirs_addDir_self]
      exact Or.inr (hname other left hclosing hsame)
  · intro _ d hd _
    rw [hlt hd]
    refine ⟨rfl, fun n => ⟨?_, ?_⟩⟩
    · intro hn
      rcases (lookup_withSession hunused).mp hn with hn | ⟨-, rfl⟩
      · exact hn
      · exact absurd hd (Nat.lt_irrefl _)
    · intro hn
      exact (lookup_withSession hunused).mpr (Or.inl hn)

end NewSession

/-! ## Removing from the parent -/

theorem lookup_unbind {name n : OsString} :
    (s.unbind name).lookup n = if n = name then none else s.lookup n := lookup_filter_ne

theorem lookup_of_unbind {name n : OsString} {d : Nat} (h : (s.unbind name).lookup n = some d) :
    n ≠ name ∧ s.lookup n = some d := by
  rw [lookup_unbind] at h
  split at h
  · cases h
  · rename_i hne
    exact ⟨hne, h⟩

theorem guarantees_unbind (h : Inv s) {name : OsString}
    (hname : ∀ d, s.lookup name = some d → (s.dirs d).owner = pid ∨ s.Doomed (s.dirs d).owner) :
    sweepContract.Guarantees pid s (s.unbind name) := by
  have hinUse : ∀ d, (s.unbind name).InUse d → s.InUse d := by
    rintro d ⟨htop, ⟨n, hn⟩ | hopened⟩
    · exact ⟨htop, Or.inl ⟨n, (lookup_of_unbind hn).2⟩⟩
    · exact ⟨htop, Or.inr hopened⟩
  have hinv : Inv (s.unbind name) := by
    refine ⟨h.held, h.unborn, h.tree, h.locks, ?_, h.single, h.opened, ?_, ?_⟩
    · intro n d hd
      exact h.linked n d (lookup_of_unbind hd).2
    · intro d d' hd hd' hino
      exact h.inodes d d' (hinUse d hd) (hinUse d' hd') hino
    · intro n d hd hmarked
      exact h.kept n d (lookup_of_unbind hd).2 hmarked
  intro other hother
  refine { rely_refl h other with inv := hinv, unbound := ?_, spared := ?_ }
  · intro left _ _ d hd
    exact Or.inl (lookup_of_unbind hd).2
  · intro hlive d hd howner
    refine ⟨rfl, fun n => ⟨fun hn => (lookup_of_unbind hn).2, ?_⟩⟩
    intro hn
    rw [lookup_unbind, if_neg]
    · exact hn
    · rintro rfl
      rcases hname d hn with hmine | hdoomed
      · exact hother (howner.symm.trans hmine)
      · exact hlive (howner ▸ hdoomed)

/-- A sweep moves on with a name, or is through with it. -/
theorem guarantees_window (h : Inv s) (closing : Nat → Option LeftName)
    (window : Nat → Option Nat) (hclosing : ∀ other, other ≠ pid → closing other = s.closing other)
    (hothers : ∀ other, other ≠ pid → window other = s.window other)
    (hmine : ∀ name d, s.lookup name = some d → s.window pid = some d → window pid = some d) :
    sweepContract.Guarantees pid s { s with closing := closing, window := window } := by
  have hkept : { s with closing := closing, window := window }.Kept := by
    intro name d hd hmarked
    rcases h.kept name d hd hmarked with hlock | ⟨p, hp⟩ | hstripped
    · exact Or.inl hlock
    · refine Or.inr (Or.inl ⟨p, ?_⟩)
      by_cases hpid : p = pid
      · subst hpid
        exact hmine name d hd hp
      · exact (hothers p hpid).trans hp
    · exact Or.inr (Or.inr hstripped)
  intro other hother
  exact { rely_refl h other with
    inv := ⟨h.held, h.unborn, h.tree, h.locks, h.linked, h.single, h.opened, h.inodes, hkept⟩
    closing := hclosing other hother
    window := hothers other hother }

theorem guarantees_leave (h : Inv s)
    (hwindow : ∀ name d, s.lookup name = some d → s.window pid ≠ some d) :
    sweepContract.Guarantees pid s (s.leave pid) := by
  refine guarantees_window h _ _ ?_ ?_ ?_
  · exact fun other hother => Function.update_of_ne hother _ _
  · exact fun other hother => Function.update_of_ne hother _ _
  · exact fun name d hd hp => absurd hp (hwindow name d hd)

/-! ## The marker and the end of a session -/

theorem guarantees_write (h : Inv s) (hphase : s.phase pid = .working)
    (hholder : s.holder pid = some pid) (hunmarked : ¬ s.Marked pid)
    (hlock : ∀ name d, s.lookup name = some d → (s.dirs d).owner = pid →
      s.entry d lockFileName = some .lock) (contents : List UInt8) :
    sweepContract.Guarantees pid s
      { s with contents := Function.update s.contents pid contents } := by
  have hothers : ∀ q, q ≠ pid → Function.update s.contents pid contents q = s.contents q :=
    fun q hq => Function.update_of_ne hq _ _
  have hmarked : ∀ q, q ≠ pid →
      { s with contents := Function.update s.contents pid contents }.Marked q → s.Marked q :=
    fun q hq hm => (hothers q hq).symm.trans hm
  have hinv : Inv { s with contents := Function.update s.contents pid contents } := by
    refine ⟨?_, ?_, h.tree, h.locks, h.linked, h.single, h.opened, h.inodes, ?_⟩
    · intro q hm hlive
      by_cases hq : q = pid
      · subst hq
        exact hholder
      · exact h.held q (hmarked q hq hm) hlive
    · intro q hq
      have hne : q ≠ pid := by
        rintro rfl
        have hworking := hphase.symm.trans hq
        cases hworking
      exact ⟨(hothers q hne).trans (h.unborn q hq).1, (h.unborn q hq).2⟩
    · intro name d hd hm
      by_cases hq : (s.dirs d).owner = pid
      · exact Or.inl (hlock name d hd hq)
      · exact h.kept name d hd (hmarked _ hq hm)
  intro other hother
  refine { rely_refl h other with
    inv := hinv, marked := ?_, contents := hothers other hother }
  intro q hm
  have hq : q ≠ pid := by
    rintro rfl
    exact hunmarked hm
  exact (hothers q hq).trans hm

/-- A process lets go of its own lock and of all others it holds. -/
theorem guarantees_end (h : Inv s) (phase : Phase) (hphase : phase = .released ∨ phase = .dead)
    (holder : Nat → Option Nat) (hholder : ∀ q, s.holder q ≠ some pid → holder q = s.holder q) :
    sweepContract.Guarantees pid s
      { s with holder := holder, phase := Function.update s.phase pid phase } := by
  have hothers : ∀ q, q ≠ pid → Function.update s.phase pid phase q = s.phase q :=
    fun q hq => Function.update_of_ne hq _ _
  have hgone : { s with holder := holder, phase := Function.update s.phase pid phase }.Gone pid := by
    simpa [Scratch.Gone] using hphase
  have hinv : Inv { s with holder := holder, phase := Function.update s.phase pid phase } := by
    refine ⟨?_, ?_, h.tree, h.locks, h.linked, h.single, h.opened, h.inodes, h.kept⟩
    · intro q hm hlive
      have hq : q ≠ pid := by
        rintro rfl
        exact hlive hgone
      have hheld := h.held q hm fun hg => hlive (by simpa [Scratch.Gone, hothers q hq] using hg)
      refine (hholder q ?_).trans hheld
      rw [hheld]
      exact fun heq => hq (Option.some.inj heq)
    · intro q hq
      have hne : q ≠ pid := by
        rintro rfl
        rcases hgone with hg | hg
        all_goals
          have hfresh := hq.symm.trans hg
          cases hfresh
      exact h.unborn q ((hothers q hne).symm.trans hq)
  intro other hother
  refine { rely_refl h other with
    inv := hinv, gone := ?_, phase := hothers other hother, holds := ?_ }
  · intro q hg
    by_cases hq : q = pid
    · subst hq
      exact hgone
    · simpa [Scratch.Gone, hothers q hq] using hg
  · intro q hq
    refine (hholder q ?_).trans hq
    rw [hq]
    exact fun heq => hother (Option.some.inj heq)

theorem guarantees_crash (h : Inv s) (hwindow : s.window pid = none) :
    sweepContract.Guarantees pid s (crash pid s) := by
  have hleave : sweepContract.Guarantees pid s (s.leave pid) := by
    refine guarantees_leave h ?_
    intro name d _ hd
    rw [hwindow] at hd
    cases hd
  have hinv : Inv (s.leave pid) := (hleave (pid + 1) (Nat.succ_ne_self pid)).inv
  have hclosed : sweepContract.Guarantees pid (s.leave pid)
      { s.leave pid with opened := s.opened.filter fun o => o.1 ≠ pid } := by
    refine guarantees_opened hinv ?_ ?_
    · intro o ho
      exact Or.inl (List.mem_of_mem_filter ho)
    · intro o ho hne
      exact List.mem_filter.mpr ⟨ho, by simpa using hne⟩
  refine guarantees_trans hleave (guarantees_trans hclosed ?_ fun _ hq => hq) fun _ hq => hq
  refine guarantees_end (hclosed (pid + 1) (Nat.succ_ne_self pid)).inv .dead (Or.inr rfl) _ ?_
  intro q hq
  exact if_neg hq

end Excise.Sweep
