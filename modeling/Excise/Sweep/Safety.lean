import Excise.Sweep.Removal

/-!
# Sessions and sweeps together

A session keeps the contract too: it marks its lock file only while it holds the lock, and acts on
nothing but its own directories. So any number of processes keep it together.
-/

namespace Excise.Sweep
set_option autoImplicit false

variable {pid : Nat} {s s' : Scratch} {α : Type} {root : Nat}

/-- Directories that are the process's own. -/
structure Owning (pid : Nat) (phase : Phase) (dirs : List Nat) (s : Scratch) : Prop where
  inv : Inv s
  atPhase : s.phase pid = phase
  own : ∀ d ∈ dirs, d < s.nextDir ∧ (s.dirs d).owner = pid

theorem owning_stable {phase : Phase} {dirs : List Nat} : Steady pid (Owning pid phase dirs) := by
  intro s s' h hs
  refine ⟨h.inv, h.phase.trans hs.atPhase, ?_⟩
  intro d hd
  obtain ⟨hlt, howner⟩ := hs.own d hd
  rw [h.owner_eq hlt]
  exact ⟨Nat.lt_of_lt_of_le hlt h.grows, howner⟩

theorem not_doomed_of_working (h : s.phase pid = .working) : ¬ s.Doomed pid := by
  rintro ⟨hgone | hgone, -⟩
  all_goals
    rw [h] at hgone
    cases hgone

/-! ## Work -/

section Work
variable {phase : Phase} {dirs : List Nat} {d : Nat} {name : OsString} {Q : α → Scratch → Prop}

theorem unlink_owning {f : Except Errno Unit → ScratchProgram α} (h : Owning pid phase dirs s)
    (hd : d ∈ dirs) (hnext : ∀ a s, Owning pid phase dirs s → Secured pid Q (f a) s) :
    Secured pid Q (call (.unlink d name) >>= f) s := by
  refine secured_call h owning_stable ?_
  intro s e h _
  have howner := (h.own d hd).2
  refine leads_faulty h.inv (fun _ => hnext _ s h) ?_
  unfold Scratch.unlinkAt
  split
  · exact leads_same h.inv (hnext _ s h)
  · exact leads_same h.inv (hnext _ s h)
  · rename_i node hdir hnode
    cases node with
    | dir c => exact absurd rfl (hdir c)
    | file =>
      have hlock : s.entry d name ≠ some .lock := by
        rw [hnode]
        simp
      have hguarantee := guarantees_drop h.inv (Or.inl howner) hlock
      refine ⟨hguarantee, hnext _ _ ?_⟩
      have hinv := inv_of_guarantees hguarantee
      show Owning pid phase dirs (s.dropEntry d name)
      rw [dropEntry_eq] at hinv ⊢
      exact ⟨hinv, h.atPhase, h.own⟩
    | lock =>
      have hguarantee := guarantees_dropLock h.inv (Or.inl howner) (Or.inl howner) name
      refine ⟨hguarantee, hnext _ _ ?_⟩
      have hinv := inv_of_guarantees hguarantee
      have hnote : s.noteLock pid d .lock =
          { s with stripped := Function.update s.stripped pid true } := if_pos howner
      show Owning pid phase dirs ((s.noteLock pid d .lock).dropEntry d name)
      rw [hnote, dropEntry_eq] at hinv ⊢
      exact ⟨hinv, h.atPhase, h.own⟩

theorem unlinkDir_owning {f : Except Errno Unit → ScratchProgram α} (h : Owning pid phase dirs s)
    (hd : d ∈ dirs) (hnext : ∀ a s, Owning pid phase dirs s → Secured pid Q (f a) s) :
    Secured pid Q (call (.unlinkDir d name) >>= f) s := by
  refine secured_call h owning_stable ?_
  intro s e h _
  refine leads_faulty h.inv (fun _ => hnext _ s h) ?_
  unfold Scratch.unlinkDirAt
  split
  · exact leads_same h.inv (hnext _ s h)
  · rename_i child hnode
    split
    · have hlock : s.entry d name ≠ some .lock := by
        rw [hnode]
        simp
      have hguarantee := guarantees_drop h.inv (Or.inl (h.own d hd).2) hlock
      refine ⟨hguarantee, hnext _ _ ?_⟩
      have hinv := inv_of_guarantees hguarantee
      show Owning pid phase dirs (s.dropEntry d name)
      rw [dropEntry_eq] at hinv ⊢
      exact ⟨hinv, h.atPhase, h.own⟩
    · exact leads_same h.inv (hnext _ s h)
  · exact leads_same h.inv (hnext _ s h)

theorem owning_setEntries {l : List (OsString × Node)} (hinv : Inv (s.setEntries d l))
    (h : Owning pid phase dirs s) : Owning pid phase dirs (s.setEntries d l) := by
  rw [setEntries_eq] at hinv ⊢
  exact ⟨hinv, h.atPhase, h.own⟩

theorem createFile_owning {f : Except Errno Unit → ScratchProgram α}
    (h : Owning pid .working dirs s) (hd : d ∈ dirs)
    (hnext : ∀ a s, Owning pid .working dirs s → Secured pid Q (f a) s) :
    Secured pid Q (call (.createFile d name) >>= f) s := by
  refine secured_call h owning_stable ?_
  intro s e h _
  refine leads_faulty h.inv (fun _ => hnext _ s h) ?_
  split
  · exact leads_same h.inv (hnext _ s h)
  · have hguarantee := guarantees_grow h.inv (h.own d hd).2 h.atPhase name .file trivial
    exact ⟨hguarantee, hnext _ _ (owning_setEntries (inv_of_guarantees hguarantee) h)⟩

theorem makeDir_owning {f : Except Errno Nat → ScratchProgram α}
    (h : Owning pid .working dirs s) (hd : d ∈ dirs)
    (herror : ∀ errno s, Owning pid .working dirs s → Secured pid Q (f (.error errno)) s)
    (hok : ∀ child s, Owning pid .working (dirs ++ [child]) s → Secured pid Q (f (.ok child)) s) :
    Secured pid Q (call (.makeDir d name) >>= f) s := by
  refine secured_call h owning_stable ?_
  intro s e h _
  refine leads_faulty h.inv (fun _ => herror _ s h) ?_
  unfold Scratch.makeDirAt
  split
  · exact leads_same h.inv (herror _ s h)
  · obtain ⟨hlt, howner⟩ := h.own d hd
    have hphase : s.phase pid ≠ .fresh := by
      rw [h.atPhase]
      simp
    have hadded := guarantees_addDir h.inv ⟨(s.dirs d).owner, false, name, e.stat, []⟩
      howner rfl rfl hphase
    generalize hdirectory : (⟨(s.dirs d).owner, false, name, e.stat, []⟩ : Directory) = directory
      at hadded ⊢
    have hsame : (s.addDir directory).dirs d = s.dirs d := dirs_addDir_of_lt hlt
    have hnew : (s.addDir directory).dirs s.nextDir = directory := dirs_addDir_self
    have hown : ∀ x ∈ dirs ++ [s.nextDir], x < (s.addDir directory).nextDir ∧
        ((s.addDir directory).dirs x).owner = pid := by
      intro x hx
      rcases List.mem_append.mp hx with hx | hx
      · obtain ⟨hxlt, hxowner⟩ := h.own x hx
        rw [dirs_addDir_of_lt hxlt]
        exact ⟨Nat.lt_succ_of_lt hxlt, hxowner⟩
      · obtain rfl := List.mem_singleton.mp hx
        rw [hnew, ← hdirectory]
        exact ⟨Nat.lt_succ_self _, howner⟩
    have howning : Owning pid .working (dirs ++ [s.nextDir]) (s.addDir directory) :=
      ⟨inv_of_guarantees hadded, h.atPhase, hown⟩
    have hgrown := guarantees_grow howning.inv (d := d) (by rw [hsame]; exact howner) h.atPhase
      name (.dir s.nextDir) (by
        refine ⟨Nat.lt_succ_self _, ?_, ?_⟩
        · rw [hnew, ← hdirectory]
          exact howner
        · rw [hnew, ← hdirectory])
    rw [hsame] at hgrown
    refine ⟨guarantees_trans hadded hgrown fun _ hq => hq, hok _ _ ?_⟩
    exact owning_setEntries (inv_of_guarantees hgrown) howning

/-- Whatever a session does, it does in its own directories. -/
theorem work_owning {ops : List Work} (h : Owning pid phase dirs s)
    (hops : phase = .working ∨ ∀ op ∈ ops, op.removes = true) :
    Secured pid (fun dirs' s => Owning pid phase dirs' s ∧ dirs ⊆ dirs') (work dirs ops) s := by
  induction ops generalizing dirs s with
  | nil => exact secured_pure h owning_stable fun s h => ⟨h, List.Subset.refl dirs⟩
  | cons op ops ih =>
    have hrest : phase = .working ∨ ∀ op ∈ ops, op.removes = true :=
      hops.imp_right fun hall op hop => hall op (List.mem_cons_of_mem _ hop)
    have hskip := ih h hrest
    have hstep : ∀ s, Owning pid phase dirs s → Secured pid (fun dirs' s =>
        Owning pid phase dirs' s ∧ dirs ⊆ dirs') (work dirs ops) s := fun s h => ih h hrest
    cases op with
    | makeDir k name =>
      obtain rfl : phase = .working := hops.resolve_right fun hall =>
        absurd (hall _ List.mem_cons_self) (by simp [Work.removes])
      unfold work
      split
      · exact hskip
      · rename_i d hk
        refine makeDir_owning h (List.mem_of_getElem? hk) (fun _ s h => hstep s h) ?_
        intro child s h
        refine Shared.Secure.mono (ih h hrest) ?_
        rintro dirs' s ⟨h, hsub⟩
        exact ⟨h, fun x hx => hsub (List.mem_append_left _ hx)⟩
    | createFile k name =>
      obtain rfl : phase = .working := hops.resolve_right fun hall =>
        absurd (hall _ List.mem_cons_self) (by simp [Work.removes])
      unfold work
      split
      · exact hskip
      · rename_i d hk
        exact createFile_owning h (List.mem_of_getElem? hk) fun _ s h => hstep s h
    | unlink k name =>
      unfold work
      split
      · exact hskip
      · rename_i d hk
        exact unlink_owning h (List.mem_of_getElem? hk) fun _ s h => hstep s h
    | unlinkDir k name =>
      unfold work
      split
      · exact hskip
      · rename_i d hk
        exact unlinkDir_owning h (List.mem_of_getElem? hk) fun _ s h => hstep s h

end Work

/-! ## Setting up -/

/-- The session directory while its lock file is made, locked and marked: what is in the file and
what is still to be written make up the marker. -/
structure Marking (pid root : Nat) (rest : List UInt8) (s : Scratch) : Prop
    extends Owning pid .working [root] s where
  isTop : (s.dirs root).top = true
  toWrite : s.contents pid ++ rest = ownerMarker

/-- The lock file exists. -/
structure Shown (pid root : Nat) (rest : List UInt8) (s : Scratch) : Prop
    extends Marking pid root rest s where
  shown : s.entry root lockFileName = some .lock

section Marking
variable {rest : List UInt8}

theorem marking_stable : Steady pid (Marking pid root rest) := by
  intro s s' h hs
  refine ⟨owning_stable s s' h hs.toOwning, ?_, ?_⟩
  · rw [h.top_eq (hs.own root List.mem_cons_self).1]
    exact hs.isTop
  · rw [h.contents]
    exact hs.toWrite

theorem shown_stable : Steady pid (Shown pid root rest) := by
  intro s s' h hs
  refine ⟨marking_stable s s' h hs.toMarking, ?_⟩
  obtain ⟨hlt, howner⟩ := hs.own root List.mem_cons_self
  have hsame := (h.spared (not_doomed_of_working hs.atPhase) root hlt howner).1
  unfold Scratch.entry
  rw [hsame]
  exact hs.shown

theorem locked_stable :
    Steady pid fun s => Shown pid root rest s ∧ s.holder pid = some pid := by
  rintro s s' h ⟨hs, hholder⟩
  exact ⟨shown_stable s s' h hs, h.holds pid hholder⟩

theorem Marking.not_marked (h : Marking pid root rest s) (hrest : rest ≠ []) : ¬ s.Marked pid := by
  intro hmarked
  have hwhole := h.toWrite
  rw [hmarked] at hwhole
  exact hrest (List.append_cancel_left (hwhole.trans (List.append_nil _).symm))

/-- The one directory in the parent that is the session's has the lock file. -/
theorem Shown.lock_linked (h : Shown pid root rest s) (name : OsString) (d : Nat)
    (hd : s.lookup name = some d) (howner : (s.dirs d).owner = pid) :
    s.entry d lockFileName = some .lock := by
  obtain ⟨hlt, htop, -⟩ := h.inv.linked name d hd
  obtain ⟨hrootLt, hroot⟩ := h.own root List.mem_cons_self
  rw [h.inv.single d hlt root hrootLt htop h.isTop (howner.trans hroot.symm)]
  exact h.shown

theorem writeAll_marking {fuel : Nat} {bytes : List UInt8}
    (h : Shown pid root bytes s ∧ s.holder pid = some pid) :
    Secured pid (fun marked s => Owning pid .working [root] s ∧ (marked = false → ¬ s.Marked pid))
      (writeAll pid fuel bytes) s := by
  induction fuel generalizing s bytes with
  | zero =>
    cases bytes with
    | nil =>
      refine secured_pure h locked_stable ?_
      exact fun s h => ⟨h.1.toOwning, nofun⟩
    | cons b bytes =>
      refine secured_pure h locked_stable ?_
      exact fun s h => ⟨h.1.toOwning, fun _ => h.1.not_marked (by simp)⟩
  | succ fuel ih =>
    cases bytes with
    | nil =>
      refine secured_pure h locked_stable ?_
      exact fun s h => ⟨h.1.toOwning, nofun⟩
    | cons b bytes =>
      refine secured_call h locked_stable ?_
      rintro s e ⟨h, hholder⟩ _
      have hfail : ∀ s, Shown pid root (b :: bytes) s ∧ s.holder pid = some pid →
          Secured pid (fun marked s => Owning pid .working [root] s ∧
            (marked = false → ¬ s.Marked pid)) (pure false) s := by
        intro s h
        refine secured_pure h locked_stable ?_
        exact fun s h => ⟨h.1.toOwning, fun _ => h.1.not_marked (by simp)⟩
      refine leads_faulty h.inv (fun _ => hfail s ⟨h, hholder⟩) ?_
      have hguarantee := guarantees_write h.inv h.atPhase hholder (h.not_marked (by simp))
        h.lock_linked (s.contents pid ++ (b :: bytes).take e.count)
      refine ⟨hguarantee, ?_⟩
      have hrest : (s.contents pid ++ (b :: bytes).take e.count) ++
          (b :: bytes).drop ((b :: bytes).take e.count).length = ownerMarker := by
        rw [List.append_assoc, List.length_take, ← h.toWrite]
        congr 1
        rcases Nat.le_total e.count (b :: bytes).length with hle | hle
        · rw [Nat.min_eq_left hle, List.take_append_drop]
        · rw [Nat.min_eq_right hle, List.take_of_length_le hle, List.drop_length, List.append_nil]
      show Secured pid _ _ { s with contents := _ }
      dsimp only
      generalize ((b :: bytes).take e.count).length = count at hrest ⊢
      generalize s.contents pid ++ (b :: bytes).take e.count = contents at hguarantee hrest ⊢
      have hshown : Shown pid root ((b :: bytes).drop count)
          { s with contents := Function.update s.contents pid contents } := by
        refine ⟨⟨⟨inv_of_guarantees hguarantee, h.atPhase, h.own⟩, h.isTop, ?_⟩, h.shown⟩
        show Function.update s.contents pid contents pid ++ _ = ownerMarker
        rw [Function.update_self]
        exact hrest
      cases count with
      | zero => exact hfail _ ⟨hshown, hholder⟩
      | succ count => exact ih ⟨hshown, hholder⟩

/-- A lock file is marked only under its lock. -/
theorem establish_owning (h : Marking pid root ownerMarker s) :
    Secured pid (fun lock s => Owning pid .working [root] s ∧ ∀ file, lock = some file → file = pid)
      (establish root) s := by
  have hnone : ∀ s, Owning pid .working [root] s → Secured pid (fun lock s =>
      Owning pid .working [root] s ∧ ∀ file, lock = some file → file = pid) (pure none) s := by
    intro s h
    exact secured_pure h owning_stable fun s h => ⟨h, nofun⟩
  refine secured_call h marking_stable ?_
  intro s e h _
  refine leads_faulty h.inv (fun _ => hnone s h.toOwning) ?_
  split
  · exact leads_same h.inv (hnone s h.toOwning)
  rename_i hfree
  obtain ⟨hlt, howner⟩ := h.own root List.mem_cons_self
  have hguarantee := guarantees_grow h.inv howner h.atPhase lockFileName .lock
    ⟨h.isTop, rfl⟩
  refine ⟨hguarantee, ?_⟩
  have hshown : Shown pid root ownerMarker
      (s.setEntries root ((s.dirs root).entries ++ [(lockFileName, .lock)])) := by
    have hinv := inv_of_guarantees hguarantee
    rw [setEntries_eq] at hinv ⊢
    refine ⟨⟨⟨hinv, h.atPhase, h.own⟩, h.isTop, h.toWrite⟩, ?_⟩
    have hunused : s.entry root lockFileName = none := by simpa using hfree
    show (s.entriesWith root _ root).lookup lockFileName = some .lock
    rw [Scratch.entriesWith, if_pos rfl, List.lookup_append]
    show (s.entry root lockFileName).or _ = some .lock
    rw [hunused]
    rfl
  dsimp only
  rw [howner]
  refine secured_call hshown shown_stable ?_
  intro s e h _
  refine leads_faulty h.inv (fun _ => hnone s h.toOwning) ?_
  split
  · exact leads_same h.inv (hnone s h.toOwning)
  rename_i hholder
  have hlocked : sweepContract.Guarantees pid s
      { s with holder := Function.update s.holder pid (some pid) } := by
    refine guarantees_holder h.inv ?_ ?_
    · intro q hq hlive
      by_cases hpid : q = pid
      · subst hpid
        exact Function.update_self _ _ _
      · exact (Function.update_of_ne hpid _ _).trans (h.inv.held q hq hlive)
    · intro q other _ hq
      have hne : q ≠ pid := by
        rintro rfl
        rw [hholder] at hq
        cases hq
      exact (Function.update_of_ne hne _ _).trans hq
  refine ⟨hlocked, ?_⟩
  have hmine : Shown pid root ownerMarker
      { s with holder := Function.update s.holder pid (some pid) } :=
    ⟨⟨⟨inv_of_guarantees hlocked, h.atPhase, h.own⟩, h.isTop, h.toWrite⟩, h.shown⟩
  refine Shared.secure_bind (Shared.Secure.mono
    (writeAll_marking ⟨hmine, Function.update_self _ _ _⟩) ?_)
  rintro marked s ⟨h, hunmarked⟩
  cases marked with
  | true =>
    refine secured_pure h owning_stable fun s h => ⟨h, ?_⟩
    intro file hfile
    exact (Option.some.inj hfile).symm
  | false =>
    have hstable : Steady pid fun s => Owning pid .working [root] s ∧ ¬ s.Marked pid := by
      rintro s s' hrely ⟨hs, hunmarked⟩
      refine ⟨owning_stable s s' hrely hs, ?_⟩
      unfold Scratch.Marked
      rw [hrely.contents]
      exact hunmarked
    refine secured_call ⟨h, hunmarked rfl⟩ hstable ?_
    rintro s e ⟨h, hunmarked⟩ _
    have hguarantee := guarantees_unlock h.inv hunmarked pid
    refine ⟨hguarantee, hnone _ ?_⟩
    have hinv := inv_of_guarantees hguarantee
    show Owning pid .working [root] (if s.holder pid = some pid then
      { s with holder := Function.update s.holder pid none } else s)
    split
    · rename_i hholder
      rw [if_pos hholder] at hinv
      exact ⟨hinv, h.atPhase, h.own⟩
    · exact h

end Marking

/-! ## The end of a session -/

theorem releaseLock_owning {lock : Option Nat} {dirs : List Nat}
    (h : Owning pid .working dirs s) (hlock : ∀ file, lock = some file → file = pid) :
    Secured pid (fun _ s => ∃ phase, Owning pid phase dirs s) (releaseLock lock) s := by
  cases lock with
  | none => exact secured_pure h owning_stable fun s h => ⟨_, h⟩
  | some file =>
    obtain rfl := hlock file rfl
    refine secured_call (f := pure) h owning_stable ?_
    intro s e h _
    have hothers : ∀ q, s.holder q ≠ some file →
        (if s.holder file = some file then Function.update s.holder file none else s.holder) q =
          s.holder q := by
      intro q hq
      split
      · rename_i hholder
        have hne : q ≠ file := by
          rintro rfl
          exact hq hholder
        exact Function.update_of_ne hne _ _
      · rfl
    have hguarantee := guarantees_end h.inv .released (Or.inl rfl) _ hothers
    refine ⟨hguarantee, secured_pure (P := Owning file .released dirs) ?_ owning_stable
      fun s h => ⟨_, h⟩⟩
    exact ⟨inv_of_guarantees hguarantee, Function.update_self _ _ _, h.own⟩

theorem removeRoot_secured {phase : Phase} {dirs : List Nat} (h : Owning pid phase dirs s)
    (hroot : root ∈ dirs) :
    Secured pid (fun _ _ => True) (do let _ ← call (.removeRoot root); pure ()) s := by
  have htrue : ∀ s : Scratch, Secured pid (fun _ _ => True) (pure () : ScratchProgram Unit) s :=
    fun s _ _ => trivial
  refine secured_call h owning_stable ?_
  intro s e h _
  refine leads_faulty h.inv (fun _ => htrue s) ?_
  split
  · exact leads_same h.inv (htrue s)
  rename_i hlinked
  split
  · refine ⟨guarantees_unbind h.inv ?_, htrue _⟩
    intro d hd
    rw [not_not.mp hlinked] at hd
    obtain rfl := Option.some.inj hd
    exact Or.inl (h.own root hroot).2
  · exact leads_same h.inv (htrue s)

theorem tearDown_secured {lock : Option Nat} {dirs : List Nat} {removals : List Work}
    (h : Owning pid .working dirs s) (hroot : root ∈ dirs)
    (hlock : ∀ file, lock = some file → file = pid) :
    Secured pid (fun _ _ => True) (tearDown root dirs lock removals) s := by
  refine Shared.secure_bind (Shared.Secure.mono (releaseLock_owning h hlock) ?_)
  rintro - s ⟨phase, h⟩
  have hremovals : ∀ op ∈ removals.filter Work.removes, op.removes = true :=
    fun op hop => (List.mem_filter.mp hop).2
  refine Shared.secure_bind (Shared.Secure.mono (work_owning h (Or.inr hremovals)) ?_)
  rintro dirs' s ⟨h, hsub⟩
  exact removeRoot_secured h (hsub hroot)

theorem process_secured {plan : Plan} (h : Idle pid s) :
    Secured pid (fun _ _ => True) (process plan) s := by
  have htrue : ∀ s : Scratch, Secured pid (fun _ _ => True) (pure () : ScratchProgram Unit) s :=
    fun s _ _ => trivial
  refine Shared.secure_bind (Shared.Secure.mono (sweep_idle h) ?_)
  intro _ s h
  refine secured_call h idle_stable ?_
  intro s e h hadmitted
  refine leads_faulty h.inv (fun _ => htrue s) ?_
  unfold Scratch.makeSessionAt
  dsimp only
  split
  · exact leads_same h.inv (htrue s)
  split
  · exact leads_same h.inv (htrue s)
  rename_i hfree
  obtain ⟨hunused, hino⟩ : s.lookup (sessionPrefix ++ e.suffix) = none ∧
      s.inodeInUse e.stat.ino = false := by
    simpa using hfree
  have hguarantee := guarantees_withSession h.inv h.fresh hunused hino hadmitted
  refine ⟨hguarantee, ?_⟩
  have hself : (s.withSession pid (sessionPrefix ++ e.suffix) e.stat).dirs s.nextDir =
      ⟨pid, true, sessionPrefix ++ e.suffix, e.stat, []⟩ := dirs_addDir_self
  have hmarking : Marking pid s.nextDir ownerMarker
      (s.withSession pid (sessionPrefix ++ e.suffix) e.stat) := by
    refine ⟨⟨inv_of_guarantees hguarantee, Function.update_self _ _ _, ?_⟩, ?_, ?_⟩
    · intro d hd
      obtain rfl := List.mem_singleton.mp hd
      rw [hself]
      exact ⟨Nat.lt_succ_self _, rfl⟩
    · rw [hself]
    · show s.contents pid ++ ownerMarker = ownerMarker
      rw [(h.inv.unborn pid h.fresh).1]
      rfl
  refine Shared.secure_bind (Shared.Secure.mono (establish_owning hmarking) ?_)
  rintro lock s ⟨h, hlock⟩
  refine Shared.secure_bind (Shared.Secure.mono (work_owning h (Or.inl rfl)) ?_)
  rintro dirs s ⟨h, hsub⟩
  exact tearDown_secured h (hsub List.mem_cons_self) hlock

/-! ## All processes together -/

/-- Every process at its start. -/
def start (plans : Nat → Plan) : Scratch × (Nat → ScratchProgram Unit) :=
  (Scratch.empty, fun pid => process (plans pid))

/-- Nothing of the session of `q` is removed or changed. -/
def Untouched (q : Nat) (s s' : Scratch) : Prop :=
  ∀ d < s.nextDir, (s.dirs d).owner = q → (s'.dirs d).entries = (s.dirs d).entries ∧
    ∀ name, s'.lookup name = some d ↔ s.lookup name = some d

/-- A turn leaves alone the sessions of all others that are alive and hold their lock, and all
others that are not marked. -/
def Spares (s : Scratch × (Nat → ScratchProgram Unit)) (t : Turn Chance) : Prop :=
  ∀ q, q ≠ t.pid → ¬ s.1.Gone q ∨ ¬ s.1.Marked q →
    Untouched q s.1 (scratchSystem.step s t).1

/-- The directory of a session that is over still shows its marked lock file, unless the session
removed it itself or a sweep is between unlinking it and removing the directory. -/
def Recognised (s : Scratch) : Prop :=
  ∀ name d, s.lookup name = some d → s.Gone (s.dirs d).owner → s.Marked (s.dirs d).owner →
    s.stripped (s.dirs d).owner = false → (∀ pid, s.window pid ≠ some d) →
      s.entry d lockFileName = some .lock

theorem recognised_of_inv (h : Inv s) : Recognised s := by
  intro name d hd _ hmarked hstripped hwindow
  rcases h.kept name d hd hmarked with hlock | ⟨p, hp⟩ | hown
  · exact hlock
  · exact absurd hp (hwindow p)
  · rw [hstripped] at hown
    cases hown

theorem start_secure (plans : Nat → Plan) : scratchSystem.AllSecure sweepContract (start plans) :=
  fun _ => process_secured ⟨inv_empty, rfl, rfl⟩

/-- Sweeps are safe, and what they leave stays recognisable, in every run in which no sweep fails
or dies between unlinking a lock file and removing the directory, and no session directory is
created under a name that a sweep is about to remove, after the sweep looked at the name or with the
number of the directory it let go of. -/
theorem session_sweep_safety (plans : Nat → Plan) (turns : List (Turn Chance))
    (h : scratchSystem.machine.Along sweepContract.Admitted (start plans) turns) :
    scratchSystem.machine.Along (fun s t => Spares s t ∧ Recognised s.1) (start plans) turns ∧
      Recognised (scratchSystem.machine.run (start plans) turns).1 := by
  have hsame : ∀ s t, Inv s.1 → scratchSystem.step s t = s → Spares s t ∧ Recognised s.1 := by
    intro s t hinv hsame
    refine ⟨?_, recognised_of_inv hinv⟩
    intro q _ _ d _ _
    rw [hsame]
    exact ⟨rfl, fun _ => Iff.rfl⟩
  have hstep : ∀ s t, Inv s.1 →
      sweepContract.Guarantees t.pid s.1 (scratchSystem.step s t).1 →
      Spares s t ∧ Recognised s.1 := by
    intro s t hinv hguarantee
    refine ⟨?_, recognised_of_inv hinv⟩
    intro q hq hlive
    refine (hguarantee q hq).spared ?_
    rintro ⟨hgone, hmarked⟩
    rcases hlive with hlive | hlive
    · exact hlive hgone
    · exact hlive hmarked
  obtain ⟨halong, hinv⟩ := Shared.secure_run (start_secure plans) inv_empty
    (fun _ _ _ hrely => hrely.inv) (fun _ _ hinv hwindow => guarantees_crash hinv hwindow)
    hsame hstep h
  exact ⟨halong, recognised_of_inv hinv⟩

/-! ## Runs with one dead session -/

def quiet (_ : Nat) : Plan := ⟨0, 256, [], []⟩

/-- A turn in which nothing fails; `kind` and `ino` are of what the call shows or makes. -/
def turn (pid : Nat) (kind : FileType) (ino : Nat) : Turn Chance :=
  .call pid ⟨none, false, ⟨kind, 0, 0, 0, ino, 0⟩, [], ownerMarker.length⟩

/-- A start whose sweep cannot open the parent. -/
def unswept (pid : Nat) : Turn Chance :=
  .call pid ⟨some 0, false, ⟨.Directory, 0, 0, 0, 0, 0⟩, [], 0⟩

/-- Process 0 sets up its session and dies. -/
def deadSession : List (Turn Chance) :=
  [unswept 0, turn 0 .Directory 1, turn 0 .RegularFile 0, turn 0 .RegularFile 0,
    turn 0 .RegularFile 0, .crash 0]

/-- The calls of a sweep that removes an empty session, from call `a` to call `b`. -/
def swept (pid a b : Nat) : List (Turn Chance) :=
  ((List.replicate 6 (turn pid .Directory 0) ++
    List.replicate 9 (turn pid .RegularFile 0)).drop a).take (b - a)

/-- A call that is not the creation of a session, and no failure next to its removal. -/
def plain (s : Scratch × (Nat → ScratchProgram Unit)) : Turn Chance → Bool
  | .crash pid => s.1.window pid = none
  | .call pid e =>
    match s.2 pid with
    | .done _ => true
    | .call .makeSession _ => false
    | .call (.statName _) _ | .call (.removeName _) _ => e.fault = none
    | .call _ _ => true

theorem admitted_of_plain {s : Scratch × (Nat → ScratchProgram Unit)} {t : Turn Chance}
    (h : plain s t = true) : sweepContract.Admitted s t := by
  cases t with
  | crash pid =>
    show s.1.window pid = none
    simpa [plain] using h
  | call pid e =>
    intro c next hcall
    rw [plain, hcall] at h
    cases c with
    | makeSession => cases h
    | statName _ | removeName _ => exact fun _ => by simpa using h
    | _ => exact trivial

/-- Processes 1 and 2 sweep the dead session. Process 1 has let go of the directory when process 2
removes it. -/
def sweptTwice : List (Turn Chance) :=
  deadSession ++ swept 2 0 8 ++ swept 1 0 13 ++ swept 2 8 15

/-- Process 2 sets up the session it made under that name; process 1 looks at the name, and process
4 sweeps. -/
def liveSession : List (Turn Chance) :=
  List.replicate 3 (turn 2 .RegularFile 0) ++ turn 1 .RegularFile 0 :: swept 4 0 10

theorem sweptTwice_admitted :
    scratchSystem.machine.Along sweepContract.Admitted (start quiet) sweptTwice := by
  refine ⟨admitted_of_plain (by decide +kernel), ?_, ?_⟩
  · intro c next hcall
    cases hcall
    intro q left hleft
    cases hleft
  · refine scratchSystem.machine.along_of_invariant (I := fun _ => True)
      (C := fun s t => plain s t = true) (fun s t _ h => ⟨trivial, admitted_of_plain h⟩) trivial ?_
    decide +kernel

theorem newSession_admitted :
    sweepContract.Admitted (scratchSystem.machine.run (start quiet) sweptTwice)
      (turn 2 .Directory 2) := by
  intro c next hcall
  have hmakes : (scratchSystem.machine.run (start quiet) sweptTwice).2 2 = .call .makeSession _ :=
    rfl
  rw [hmakes] at hcall
  cases hcall
  intro q left hleft _
  have hclosing : (scratchSystem.machine.run (start quiet) sweptTwice).1.closing =
      Function.update (Function.update (Function.update (Function.update (Function.update
        (fun _ => none) 0 none) 1 (some ⟨sessionPrefix, 0, false⟩)) 2
          (some ⟨sessionPrefix, 0, false⟩)) 2 (some ⟨sessionPrefix, 0, true⟩)) 2 none := rfl
  rw [hclosing, Function.update_idem, Function.update_idem] at hleft
  by_cases htwo : q = 2
  · rw [htwo, Function.update_self] at hleft
    cases hleft
  rw [Function.update_of_ne htwo] at hleft
  by_cases hone : q = 1
  · rw [hone, Function.update_self] at hleft
    obtain rfl := Option.some.inj hleft
    exact ⟨rfl, by decide +kernel⟩
  rw [Function.update_of_ne hone] at hleft
  by_cases hzero : q = 0
  · rw [hzero, Function.update_self] at hleft
    cases hleft
  · rw [Function.update_of_ne hzero] at hleft
    cases hleft

theorem session_sweep_safety_liveSession :
    scratchSystem.machine.Along (fun s t => Spares s t ∧ Recognised s.1) (start quiet)
        (sweptTwice ++ turn 2 .Directory 2 :: liveSession) ∧
      (scratchSystem.machine.run (start quiet)
        (sweptTwice ++ turn 2 .Directory 2 :: liveSession)).1.holder 2 = some 2 ∧
      (scratchSystem.machine.run (start quiet)
        (sweptTwice ++ turn 2 .Directory 2 :: liveSession)).1.lookup sessionPrefix = some 1 := by
  have hadmitted : scratchSystem.machine.Along sweepContract.Admitted (start quiet)
      (sweptTwice ++ turn 2 .Directory 2 :: liveSession) := by
    refine scratchSystem.machine.along_append.mpr ⟨sweptTwice_admitted, newSession_admitted, ?_⟩
    refine scratchSystem.machine.along_of_invariant (I := fun _ => True)
      (C := fun s t => plain s t = true) (fun s t _ h => ⟨trivial, admitted_of_plain h⟩) trivial ?_
    decide +kernel
  exact ⟨(session_sweep_safety quiet _ hadmitted).1, by decide +kernel, by decide +kernel⟩

/-- Process 1 dies between the lock file and the directory of a dead session. -/
def killedSweep : List (Turn Chance) := deadSession ++ swept 1 0 12 ++ [.crash 1]

/-- Processes 1 and 2 sweep the same dead session. Process 1 is about to remove the directory by
its name when process 2 has done so and made its own session under that name. -/
def reusedName : List (Turn Chance) :=
  deadSession ++ swept 2 0 8 ++ swept 1 0 14 ++ swept 2 8 15 ++ [turn 2 .Directory 2]

theorem killed_and_overtaken_sweeps :
    ¬ Recognised (scratchSystem.machine.run (start quiet) killedSweep).1 ∧
      ¬ Spares (scratchSystem.machine.run (start quiet) reusedName) (turn 1 .RegularFile 0) := by
  constructor
  · intro h
    have hwindow : (scratchSystem.machine.run (start quiet) killedSweep).1.window =
        Function.update (Function.update (Function.update (fun _ => none) 0 none) 1 (some 0)) 1
          none := rfl
    have hlock := h sessionPrefix 0 (by decide +kernel) (Or.inr (by decide +kernel))
      (by unfold Scratch.Marked; decide +kernel) (by decide +kernel) (by
        intro pid
        rw [hwindow, Function.update_idem]
        by_cases hpid : pid = 1
        · simp [hpid]
        · rw [Function.update_of_ne hpid]
          by_cases hzero : pid = 0 <;> simp [hzero])
    have hnone : (scratchSystem.machine.run (start quiet) killedSweep).1.entry 0 lockFileName =
        none := by decide +kernel
    rw [hnone] at hlock
    cases hlock
  · intro h
    have hlive : ¬ (scratchSystem.machine.run (start quiet) reusedName).1.Gone 2 := by
      unfold Scratch.Gone
      decide +kernel
    have hbound := ((h 2 (by decide) (Or.inl hlive) 1 (by decide +kernel) (by decide +kernel)).2
      sessionPrefix).mpr (by decide +kernel)
    have hnone : (scratchSystem.step (scratchSystem.machine.run (start quiet) reusedName)
        (turn 1 .RegularFile 0)).1.lookup sessionPrefix = none := by decide +kernel
    rw [hnone] at hbound
    cases hbound

end Excise.Sweep
