import Excise.Sweep.Contract

/-!
# The sweep keeps the contract

A sweep reads the marker before it takes the lock. Once it holds the lock of a marked session the
session is over, and from there on everything it removes belongs to that session.
-/

namespace Excise.Sweep
set_option autoImplicit false

variable {pid : Nat} {s s' : Scratch} {α : Type}

namespace Rely
variable {d : Nat} (h : Rely pid s s')
include h

theorem owner_eq (hd : d < s.nextDir) : (s'.dirs d).owner = (s.dirs d).owner := by
  rw [h.fixed d hd]

theorem top_eq (hd : d < s.nextDir) : (s'.dirs d).top = (s.dirs d).top := by
  rw [h.fixed d hd]

theorem name_eq (hd : d < s.nextDir) : (s'.dirs d).name = (s.dirs d).name := by
  rw [h.fixed d hd]

theorem stat_eq (hd : d < s.nextDir) : (s'.dirs d).stat = (s.dirs d).stat := by
  rw [h.fixed d hd]

theorem doomed {q : Nat} (hq : s.Doomed q) : s'.Doomed q := ⟨h.gone q hq.1, h.marked q hq.2⟩

end Rely

/-- Security under the sweep's contract. -/
abbrev Secured (pid : Nat) (Q : α → Scratch → Prop) (p : ScratchProgram α) (s : Scratch) : Prop :=
  scratchSystem.Secure sweepContract pid Q p s

abbrev Steady (pid : Nat) (P : Scratch → Prop) : Prop := Shared.Stable sweepContract pid P

/-- What a call owes: its effect to the others, its answer to the rest of the program. -/
def Leads {β : Type} (pid : Nat) (Q : α → Scratch → Prop) (f : β → ScratchProgram α) (s : Scratch)
    (result : Scratch × β) : Prop :=
  sweepContract.Guarantees pid s result.1 ∧ Secured pid Q (f result.2) result.1

section Rules
variable {P : Scratch → Prop} {Q : α → Scratch → Prop} {c : ScratchCall}

theorem secured_call {f : scratchCalls.Answer c → ScratchProgram α} (hs : P s) (hP : Steady pid P)
    (hstep : ∀ s e, P s → sweepContract.admits pid c e s → Leads pid Q f s (perform pid c e s)) :
    Secured pid Q (call c >>= f) s := Shared.secure_call hs hP hstep

theorem secured_pure {a : α} (hs : P s) (hP : Steady pid P) (hQ : ∀ s, P s → Q a s) :
    Secured pid Q (pure a) s := Shared.secure_pure hs hP hQ

theorem leads_same {β : Type} {f : β → ScratchProgram α} {a : β} (h : Inv s)
    (hnext : Secured pid Q (f a) s) : Leads pid Q f s (s, a) := ⟨guarantees_refl h, hnext⟩

theorem leads_faulty {β : Type} {f : Except Errno β → ScratchProgram α} {e : Chance}
    {next : Scratch × Except Errno β} (h : Inv s)
    (hfault : ∀ code, Secured pid Q (f (.error (.fault code))) s)
    (hnext : Leads pid Q f s next) : Leads pid Q f s (faulty s e next) := by
  unfold faulty
  split
  · exact leads_same h (hfault _)
  · exact hnext

end Rules

/-! ## What a sweep knows -/

/-- Between two candidates. -/
structure Idle (pid : Nat) (s : Scratch) : Prop where
  inv : Inv s
  fresh : s.phase pid = .fresh
  quiet : s.window pid = none

/-- A candidate that is held open. -/
structure Holding (pid session : Nat) (name : OsString) (s : Scratch) : Prop extends Idle pid s where
  known : session < s.nextDir
  isTop : (s.dirs session).top = true
  named : (s.dirs session).name = name
  isOpen : (pid, session) ∈ s.opened

/-- A session that is over and marked, `within` directories of it. -/
structure Emptying (pid session : Nat) (name : OsString) (stat : Stat) (within : List Nat)
    (s : Scratch) : Prop extends Holding pid session name s where
  examined : (s.dirs session).stat = stat
  doomed : s.Doomed (s.dirs session).owner
  inside : ∀ d ∈ within, d < s.nextDir ∧ (s.dirs d).owner = (s.dirs session).owner ∧
    ((s.dirs d).top = true → d = session)

section Stability
variable {session : Nat} {name : OsString} {stat : Stat} {within : List Nat}

theorem idle_stable : Steady pid (Idle pid) := by
  intro s s' h hs
  exact ⟨h.inv, h.phase.trans hs.fresh, h.window.trans hs.quiet⟩

theorem holding_stable : Steady pid (Holding pid session name) := by
  intro s s' h hs
  refine ⟨idle_stable s s' h hs.toIdle, Nat.lt_of_lt_of_le hs.known h.grows, ?_, ?_, ?_⟩
  · rw [h.top_eq hs.known]
    exact hs.isTop
  · rw [h.name_eq hs.known]
    exact hs.named
  · exact h.opened session hs.isOpen

theorem emptying_stable : Steady pid (Emptying pid session name stat within) := by
  intro s s' h hs
  refine ⟨holding_stable s s' h hs.toHolding, ?_, ?_, ?_⟩
  · rw [h.stat_eq hs.known]
    exact hs.examined
  · rw [h.owner_eq hs.known]
    exact h.doomed hs.doomed
  · intro d hd
    obtain ⟨hlt, howner, htop⟩ := hs.inside d hd
    rw [h.owner_eq hlt, h.top_eq hlt, h.owner_eq hs.known]
    exact ⟨Nat.lt_of_lt_of_le hlt h.grows, howner, htop⟩

end Stability

theorem inv_of_guarantees (h : sweepContract.Guarantees pid s s') : Inv s' :=
  (h (pid + 1) (Nat.succ_ne_self pid)).inv

/-! ## Emptying a directory -/

section Emptying
variable {session : Nat} {name : OsString} {stat : Stat} {within : List Nat} {d : Nat}
  {entry : OsString}

theorem Emptying.owner_ne (h : Emptying pid session name stat within s) :
    (s.dirs session).owner ≠ pid := by
  intro heq
  rcases h.doomed.1 with hgone | hgone
  all_goals
    rw [heq, h.fresh] at hgone
    cases hgone

theorem Emptying.owner_doomed (h : Emptying pid session name stat within s) (hd : d ∈ within) :
    s.Doomed (s.dirs d).owner := by
  rw [(h.inside d hd).2.1]
  exact h.doomed

theorem emptying_drop (h : Emptying pid session name stat within s) (hd : d ∈ within)
    (hnode : s.entry d entry ≠ some .lock) :
    sweepContract.Guarantees pid s (s.dropEntry d entry) ∧
      Emptying pid session name stat within (s.dropEntry d entry) := by
  have hguarantee : sweepContract.Guarantees pid s (s.dropEntry d entry) :=
    guarantees_drop h.inv (Or.inr (h.owner_doomed hd)) hnode
  have hinv := inv_of_guarantees hguarantee
  refine ⟨hguarantee, ?_⟩
  rw [dropEntry_eq] at hinv ⊢
  exact ⟨⟨⟨hinv, h.fresh, h.quiet⟩, h.known, h.isTop, h.named, h.isOpen⟩, h.examined, h.doomed,
    h.inside⟩

theorem Emptying.not_lock (h : Emptying pid session name stat within s) (hd : d ∈ within)
    (hentry : d = session → entry ≠ lockFileName) : s.entry d entry ≠ some .lock := by
  intro hlock
  obtain ⟨hlt, -, htop⟩ := h.inside d hd
  obtain ⟨hdtop, hname⟩ := h.inv.locks d hlt entry (mem_of_lookup hlock)
  exact hentry (htop hdtop) hname

theorem pure_emptying {β : Type} (a : β) (h : Emptying pid session name stat within s) :
    Secured pid (fun _ => Emptying pid session name stat within) (pure a) s :=
  secured_pure h emptying_stable fun _ h => h

theorem unlink_emptying (h : Emptying pid session name stat within s) (hd : d ∈ within)
    (hentry : d = session → entry ≠ lockFileName) :
    Secured pid (fun _ => Emptying pid session name stat within) (unlink d entry) s := by
  refine secured_call h emptying_stable ?_
  intro s e h _
  refine leads_faulty h.inv (fun _ => pure_emptying _ h) ?_
  have hlock := h.not_lock hd hentry
  unfold Scratch.unlinkAt
  split
  · exact leads_same h.inv (pure_emptying _ h)
  · exact leads_same h.inv (pure_emptying _ h)
  · rename_i node hdir hnode
    cases node with
    | lock => exact absurd hnode hlock
    | dir c => exact absurd rfl (hdir c)
    | file =>
      obtain ⟨hguarantee, hdropped⟩ := emptying_drop h hd hlock
      exact ⟨hguarantee, pure_emptying _ hdropped⟩

theorem unlinkDir_emptying (h : Emptying pid session name stat within s) (hd : d ∈ within) :
    Secured pid (fun _ => Emptying pid session name stat within) (unlinkDir d entry) s := by
  refine secured_call h emptying_stable ?_
  intro s e h _
  refine leads_faulty h.inv (fun _ => pure_emptying _ h) ?_
  unfold Scratch.unlinkDirAt
  split
  · exact leads_same h.inv (pure_emptying _ h)
  · rename_i child hnode
    split
    · have hlock : s.entry d entry ≠ some .lock := by
        rw [hnode]
        simp
      obtain ⟨hguarantee, hdropped⟩ := emptying_drop h hd hlock
      exact ⟨hguarantee, pure_emptying _ hdropped⟩
    · exact leads_same h.inv (pure_emptying _ h)
  · exact leads_same h.inv (pure_emptying _ h)

theorem closeEntry_emptying {f : Unit → ScratchProgram α} {Q : α → Scratch → Prop} {child : Nat}
    (h : Emptying pid session name stat within s) (hchild : child ≠ session)
    (hnext : ∀ s, Emptying pid session name stat within s → Secured pid Q (f ()) s) :
    Secured pid Q (call (.closeEntry child) >>= f) s := by
  refine secured_call h emptying_stable ?_
  intro s e h _
  have hguarantee : sweepContract.Guarantees pid s
      { s with opened := s.opened.erase (pid, child) } := by
    refine guarantees_opened h.inv (fun o ho => Or.inl (List.mem_of_mem_erase ho)) ?_
    intro o ho hne
    refine (List.mem_erase_of_ne ?_).mpr ho
    rintro rfl
    exact hne rfl
  refine ⟨hguarantee, hnext _ ?_⟩
  refine ⟨⟨⟨inv_of_guarantees hguarantee, h.fresh, h.quiet⟩, h.known, h.isTop, h.named, ?_⟩,
    h.examined, h.doomed, h.inside⟩
  refine (List.mem_erase_of_ne ?_).mpr h.isOpen
  intro heq
  exact hchild (Prod.mk.inj heq).2.symm

theorem openEntry_emptying {f : Except Errno Nat → ScratchProgram α} {Q : α → Scratch → Prop}
    (h : Emptying pid session name stat within s) (hd : d ∈ within)
    (herror : ∀ errno s, Emptying pid session name stat within s →
      Secured pid Q (f (.error errno)) s)
    (hok : ∀ child s, child ≠ session → Emptying pid session name stat (child :: within) s →
      Secured pid Q (f (.ok child)) s) :
    Secured pid Q (call (.openEntry d entry) >>= f) s := by
  refine secured_call h emptying_stable ?_
  intro s e h _
  refine leads_faulty h.inv (fun _ => herror _ s h) ?_
  split
  · exact leads_same h.inv (herror _ s h)
  · rename_i child hnode
    obtain ⟨hlt, howner, -⟩ := h.inside d hd
    obtain ⟨hchild, hchildOwner, hnotTop⟩ := h.inv.tree d hlt entry child (mem_of_lookup hnode)
    have hguarantee : sweepContract.Guarantees pid s
        { s with opened := (pid, child) :: s.opened } := by
      refine guarantees_opened h.inv ?_ fun o ho _ => List.mem_cons_of_mem _ ho
      intro o ho
      rcases List.mem_cons.mp ho with rfl | ho
      · refine Or.inr ⟨hchild, fun htop => ?_⟩
        rw [hnotTop] at htop
        cases htop
      · exact Or.inl ho
    refine ⟨hguarantee, hok child _ ?_ ?_⟩
    · rintro rfl
      have htop := h.isTop
      rw [hnotTop] at htop
      cases htop
    · refine ⟨⟨⟨inv_of_guarantees hguarantee, h.fresh, h.quiet⟩, h.known, h.isTop, h.named,
        List.mem_cons_of_mem _ h.isOpen⟩, h.examined, h.doomed, ?_⟩
      intro x hx
      rcases List.mem_cons.mp hx with rfl | hx
      · refine ⟨hchild, hchildOwner.trans howner, fun htop => ?_⟩
        exact absurd (hnotTop.symm.trans htop) (by simp)
      · exact h.inside x hx
  · exact leads_same h.inv (herror _ s h)

theorem Emptying.mono {within' : List Nat} (h : Emptying pid session name stat within s)
    (hsub : within' ⊆ within) : Emptying pid session name stat within' s :=
  ⟨h.toHolding, h.examined, h.doomed, fun d hd => h.inside d (hsub hd)⟩

variable {root : Stat} {descend : Nat → ScratchProgram (Except SweepError Unit)}

/-- What going deeper must keep. -/
def Descends (pid session : Nat) (name : OsString) (stat : Stat)
    (descend : Nat → ScratchProgram (Except SweepError Unit)) : Prop :=
  ∀ within child s, child ∈ within → child ≠ session → Emptying pid session name stat within s →
    Secured pid (fun _ => Emptying pid session name stat within) (descend child) s

theorem removeChild_emptying (hdescend : Descends pid session name stat descend) {child : Nat}
    (hchild : child ≠ session) (h : Emptying pid session name stat (child :: within) s)
    (hd : d ∈ within) :
    Secured pid (fun _ => Emptying pid session name stat within)
      (removeChild descend d entry root child) s := by
  have hstop : ∀ (o : Except SweepError Unit) (s : Scratch),
      Emptying pid session name stat (child :: within) s →
      Secured pid (fun _ => Emptying pid session name stat within) (pure o) s :=
    fun o s h => pure_emptying o (h.mono (List.subset_cons_self child within))
  refine secured_call h emptying_stable ?_
  intro s e h _
  refine leads_faulty h.inv (fun _ => closeEntry_emptying h hchild fun s h => hstop _ s h) ?_
  refine leads_same h.inv ?_
  dsimp only
  split
  · exact closeEntry_emptying h hchild fun s h => hstop _ s h
  · refine Shared.secure_bind ?_
    refine Shared.Secure.mono (hdescend _ child s List.mem_cons_self hchild h) ?_
    intro outcome s h
    refine closeEntry_emptying h hchild ?_
    intro s h
    cases outcome with
    | error error => exact hstop _ s h
    | ok =>
      exact unlinkDir_emptying (h.mono (List.subset_cons_self child within)) hd

theorem entryType_emptying {listed : FileType} (h : Emptying pid session name stat within s) :
    Secured pid (fun _ => Emptying pid session name stat within) (entryType d entry listed) s := by
  unfold entryType
  split
  · refine secured_call h emptying_stable ?_
    intro s e h _
    refine leads_faulty h.inv (fun _ => pure_emptying _ h) ?_
    split
    · exact leads_same h.inv (pure_emptying _ h)
    · exact leads_same h.inv (pure_emptying _ h)
  · exact pure_emptying _ h

theorem removeEntry_emptying (hdescend : Descends pid session name stat descend)
    (h : Emptying pid session name stat within s) (hd : d ∈ within)
    (hentry : d = session → entry ≠ lockFileName) {listed : FileType} :
    Secured pid (fun _ => Emptying pid session name stat within)
      (removeEntry descend d entry listed root) s := by
  refine Shared.secure_bind (Shared.Secure.mono (entryType_emptying h) ?_)
  intro fileType s h
  match fileType with
  | .error error => exact pure_emptying _ h
  | .ok none => exact pure_emptying _ h
  | .ok (some fileType) =>
    dsimp only
    split
    · exact unlink_emptying h hd hentry
    · refine openEntry_emptying h hd ?_ ?_
      · intro errno s h
        cases errno with
        | NOENT => exact pure_emptying _ h
        | NOTDIR => exact unlink_emptying h hd hentry
        | EXIST => exact pure_emptying _ h
        | NOTEMPTY => exact pure_emptying _ h
        | fault code => exact pure_emptying _ h
      · intro child s hchild h
        exact removeChild_emptying hdescend hchild h hd

theorem removeBatch_emptying (hdescend : Descends pid session name stat descend) (hd : d ∈ within)
    {batch : List (OsString × FileType)} (hbatch : d = session → ∀ e ∈ batch, e.1 ≠ lockFileName)
    {progress : Bool} {failure : Option SweepError}
    (h : Emptying pid session name stat within s) :
    Secured pid (fun _ => Emptying pid session name stat within)
      (removeBatch descend d root batch progress failure) s := by
  induction batch generalizing s progress failure with
  | nil => exact pure_emptying _ h
  | cons e batch ih =>
    have hrest : d = session → ∀ e ∈ batch, e.1 ≠ lockFileName :=
      fun hds e he => hbatch hds e (List.mem_cons_of_mem _ he)
    refine Shared.secure_bind (Shared.Secure.mono (removeEntry_emptying hdescend h hd
      fun hds => hbatch hds e List.mem_cons_self) ?_)
    intro outcome s h
    cases outcome with
    | ok => exact ih hrest h
    | error error => exact ih hrest h

/-- The directory has nothing left but what is kept. -/
def Cleared (d : Nat) (keep : List OsString) (s : Scratch) : Prop :=
  ∀ e ∈ (s.dirs d).entries, e.1 ∈ keep

variable {keep : List OsString}

theorem cleared_stable (hd : d ∈ within) :
    Steady pid fun s => Emptying pid session name stat within s ∧ Cleared d keep s := by
  rintro s s' h ⟨hs, hcleared⟩
  refine ⟨emptying_stable s s' h hs, ?_⟩
  intro e he
  exact hcleared e (h.shrinks d (hs.inside d hd).1 (hs.owner_doomed hd) he)

/-- A batch leaves out what is kept; it is empty when nothing else is there. -/
def Batched (d : Nat) (keep : List OsString)
    (batch : Except SweepError (List (OsString × FileType))) (s : Scratch) : Prop :=
  ∀ b, batch = .ok b → (∀ e ∈ b, e.1 ∉ keep) ∧ (b = [] → Cleared d keep s)

theorem readBatch_emptying (h : Emptying pid session name stat within s) (hd : d ∈ within) :
    Secured pid (fun batch s => Emptying pid session name stat within s ∧ Batched d keep batch s)
      (readBatch d keep) s := by
  refine secured_call h emptying_stable ?_
  intro s e h _
  refine leads_faulty h.inv (fun _ => secured_pure h emptying_stable fun s h => ⟨h, nofun⟩) ?_
  refine leads_same h.inv ?_
  have hout : ∀ x ∈ ((Scratch.listed e.untyped (s.dirs d).entries).filter
      fun x => x.1 ∉ keep).take batchSize, x.1 ∉ keep := by
    intro x hx
    simpa using (List.mem_filter.mp (List.mem_of_mem_take hx)).2
  have hempty : ((Scratch.listed e.untyped (s.dirs d).entries).filter
      fun x => x.1 ∉ keep).take batchSize = [] → Cleared d keep s := by
    intro hnil x hx
    by_contra hkeep
    have hmem : (x.1, if e.untyped then FileType.Unknown else Scratch.nodeType x.2) ∈
        (Scratch.listed e.untyped (s.dirs d).entries).filter fun x => x.1 ∉ keep :=
      List.mem_filter.mpr ⟨List.mem_map_of_mem hx, by simpa using hkeep⟩
    rcases List.take_eq_nil_iff.mp hnil with hzero | hnil
    · cases hzero
    · rw [hnil] at hmem
      cases hmem
  by_cases hcleared : Cleared d keep s
  · refine secured_pure (P := fun s => Emptying pid session name stat within s ∧ Cleared d keep s)
      ⟨h, hcleared⟩ (cleared_stable hd) ?_
    rintro s ⟨h, hcleared⟩
    refine ⟨h, ?_⟩
    rintro b hb
    cases hb
    exact ⟨hout, fun _ => hcleared⟩
  · refine secured_pure h emptying_stable fun s h => ⟨h, ?_⟩
    rintro b hb
    cases hb
    exact ⟨hout, fun hnil => absurd (hempty hnil) hcleared⟩

theorem removePasses_emptying (hdescend : Descends pid session name stat descend)
    (hd : d ∈ within) (hkeep : d = session → lockFileName ∈ keep) {passes : Nat}
    (h : Emptying pid session name stat within s) :
    Secured pid (fun outcome s => Emptying pid session name stat within s ∧
        (outcome = .ok () → Cleared d keep s))
      (removePasses descend d root keep passes) s := by
  induction passes generalizing s with
  | zero => exact secured_pure h emptying_stable fun s h => ⟨h, nofun⟩
  | succ passes ih =>
    refine Shared.secure_bind (Shared.Secure.mono (readBatch_emptying h hd) ?_)
    rintro batch s ⟨h, hbatched⟩
    match batch with
    | .error error => exact secured_pure h emptying_stable fun s h => ⟨h, nofun⟩
    | .ok [] =>
      refine secured_pure ⟨h, (hbatched [] rfl).2 rfl⟩ (cleared_stable hd) ?_
      rintro s ⟨h, hcleared⟩
      exact ⟨h, fun _ => hcleared⟩
    | .ok (e :: batch) =>
      have hnames : d = session → ∀ x ∈ e :: batch, x.1 ≠ lockFileName := by
        intro hds x hx heq
        exact (hbatched _ rfl).1 x hx (heq ▸ hkeep hds)
      refine Shared.secure_bind (Shared.Secure.mono (removeBatch_emptying hdescend hd hnames h) ?_)
      intro outcome s h
      split
      · exact ih h
      · exact secured_pure h emptying_stable fun s h => ⟨h, nofun⟩

theorem removeContents_descends {left : Nat} :
    Descends pid session name stat fun child => removeContents left child root [] := by
  induction left with
  | zero =>
    intro within child s _ _ h
    exact pure_emptying _ h
  | succ left ih =>
    intro within child s hmem hne h
    refine Shared.Secure.mono
      (removePasses_emptying ih hmem (fun heq => absurd heq hne) h) ?_
    exact fun _ _ h => h.1

theorem removeContents_emptying {left : Nat} (hd : d ∈ within)
    (hkeep : d = session → lockFileName ∈ keep) (h : Emptying pid session name stat within s) :
    Secured pid (fun outcome s => Emptying pid session name stat within s ∧
        (outcome = .ok () → Cleared d keep s))
      (removeContents left d root keep) s := by
  cases left with
  | zero => exact secured_pure h emptying_stable fun s h => ⟨h, nofun⟩
  | succ left => exact removePasses_emptying removeContents_descends hd hkeep h

end Emptying

/-! ## Removing a session -/

section Session
variable {session : Nat} {name : OsString} {stat : Stat}

theorem pure_idle {β : Type} (a : β) (h : Idle pid s) : Secured pid (fun _ => Idle pid) (pure a) s :=
  secured_pure h idle_stable fun _ h => h

theorem closeEntry_idle {β : Type} {a : β} {d : Nat} (h : Idle pid s) :
    Secured pid (fun _ => Idle pid) (do call (.closeEntry d); pure a) s := by
  refine secured_call h idle_stable ?_
  intro s e h _
  have hguarantee : sweepContract.Guarantees pid s { s with opened := s.opened.erase (pid, d) } := by
    refine guarantees_opened h.inv (fun o ho => Or.inl (List.mem_of_mem_erase ho)) ?_
    intro o ho hne
    refine (List.mem_erase_of_ne ?_).mpr ho
    rintro rfl
    exact hne rfl
  exact ⟨hguarantee, pure_idle a ⟨inv_of_guarantees hguarantee, h.fresh, h.quiet⟩⟩

/-- The lock file is gone and with it everything that was in the directory. -/
structure Bared (pid session : Nat) (name : OsString) (stat : Stat) (s : Scratch) : Prop where
  inv : Inv s
  fresh : s.phase pid = .fresh
  known : session < s.nextDir
  isTop : (s.dirs session).top = true
  named : (s.dirs session).name = name
  examined : (s.dirs session).stat = stat
  doomed : s.Doomed (s.dirs session).owner
  bare : (s.dirs session).entries = []
  window : s.window pid = none ∨ s.window pid = some session

/-- The directory was let go of; if its name still refers to one with its number, it is the same. -/
structure Closing (pid session : Nat) (name : OsString) (stat : Stat) (s : Scratch) : Prop
    extends Bared pid session name stat s where
  closing : s.closing pid = some ⟨name, session, false⟩
  same : ∀ d, s.lookup name = some d → (s.dirs d).stat.ino = stat.ino → d = session

theorem bared_stable : Steady pid (Bared pid session name stat) := by
  intro s s' h hs
  refine ⟨h.inv, h.phase.trans hs.fresh, Nat.lt_of_lt_of_le hs.known h.grows, ?_, ?_, ?_, ?_, ?_, ?_⟩
  · rw [h.top_eq hs.known]
    exact hs.isTop
  · rw [h.name_eq hs.known]
    exact hs.named
  · rw [h.stat_eq hs.known]
    exact hs.examined
  · rw [h.owner_eq hs.known]
    exact h.doomed hs.doomed
  · have hsub := h.shrinks session hs.known hs.doomed
    rw [hs.bare] at hsub
    exact List.subset_nil.mp hsub
  · rw [h.window]
    exact hs.window

theorem closing_stable : Steady pid (Closing pid session name stat) := by
  intro s s' h hs
  refine ⟨bared_stable s s' h hs.toBared, h.closing.trans hs.closing, ?_⟩
  intro d hd hino
  rcases h.unbound _ hs.closing hs.known d hd with hold | ⟨-, hother⟩
  · rw [h.stat_eq (hs.inv.linked name d hold).1] at hino
    exact hs.same d hold hino
  · rw [hs.examined] at hother
    exact absurd hino hother

/-- The name was looked at: what it refers to now, if anything, is the directory. -/
structure Looked (pid session : Nat) (name : OsString) (stat : Stat) (s : Scratch) : Prop
    extends Bared pid session name stat s where
  closing : s.closing pid = some ⟨name, session, true⟩
  same : ∀ d, s.lookup name = some d → d = session

theorem looked_stable : Steady pid (Looked pid session name stat) := by
  intro s s' h hs
  refine ⟨bared_stable s s' h hs.toBared, h.closing.trans hs.closing, ?_⟩
  intro d hd
  rcases h.unbound _ hs.closing hs.known d hd with hold | ⟨hno, -⟩
  · exact hs.same d hold
  · cases hno

/-- Where the window of a sweep is on a directory that is linked, it is linked by its name. -/
theorem Bared.not_window (h : Bared pid session name stat s) (hname : s.lookup name ≠ some session)
    (n : OsString) (d : Nat) (hd : s.lookup n = some d) : s.window pid ≠ some d := by
  intro hwindow
  rcases h.window with hnone | hsome
  · rw [hnone] at hwindow
    cases hwindow
  · rw [hsome] at hwindow
    obtain rfl : session = d := Option.some.inj hwindow
    have hn : n = name := (h.inv.linked n session hd).2.2.symm.trans h.named
    exact hname (hn ▸ hd)

theorem Bared.not_window_of_none (h : s.window pid = none) (n : OsString) (d : Nat)
    (_ : s.lookup n = some d) : s.window pid ≠ some d := by
  rw [h]
  simp

theorem leave_idle {β : Type} {Q : α → Scratch → Prop} {f : β → ScratchProgram α} {a : β}
    (h : Inv s) (hfresh : s.phase pid = .fresh)
    (hwindow : ∀ n d, s.lookup n = some d → s.window pid ≠ some d)
    (hnext : ∀ s, Idle pid s → Secured pid Q (f a) s) : Leads pid Q f s (s.leave pid, a) := by
  have hguarantee := guarantees_leave h hwindow
  exact ⟨hguarantee, hnext _ ⟨inv_of_guarantees hguarantee, hfresh, Function.update_self _ _ _⟩⟩

theorem removeName_idle {f : Except Errno Unit → ScratchProgram α}
    (h : Looked pid session name stat s) {Q : α → Scratch → Prop}
    (hnext : ∀ a s, Idle pid s → Secured pid Q (f a) s) :
    Secured pid Q (call (.removeName name) >>= f) s := by
  refine secured_call h looked_stable ?_
  intro s e h hadmitted
  cases hfault : e.fault with
  | some code =>
    have hnone : s.window pid = none := by
      by_contra hwindow
      have hno := hadmitted hwindow
      rw [hfault] at hno
      cases hno
    simp only [perform, hfault]
    exact leave_idle h.inv h.fresh (Bared.not_window_of_none hnone) fun s h => hnext _ s h
  | none =>
    simp only [perform, hfault]
    unfold Scratch.removeNameAt
    split
    · rename_i hlookup
      refine leave_idle h.inv h.fresh (h.not_window ?_) fun s h => hnext _ s h
      rw [hlookup]
      simp
    · rename_i d hlookup
      rw [h.same d hlookup, if_pos h.bare]
      have hunbind : sweepContract.Guarantees pid s (s.unbind name) := by
        refine guarantees_unbind h.inv ?_
        intro x hx
        rw [h.same x hx]
        exact Or.inr h.doomed
      have hbared : Bared pid session name stat (s.unbind name) :=
        { h.toBared with inv := inv_of_guarantees hunbind }
      have hgone : (s.unbind name).lookup name ≠ some session := by
        rw [lookup_unbind, if_pos rfl]
        simp
      have hleave := guarantees_leave hbared.inv (hbared.not_window hgone)
      refine ⟨guarantees_trans hunbind hleave fun _ hq => hq, hnext _ _ ?_⟩
      exact ⟨inv_of_guarantees hleave, h.fresh, Function.update_self _ _ _⟩

theorem removeSession_idle (h : Closing pid session name stat s) :
    Secured pid (fun _ => Idle pid) (removeSession stat name) s := by
  refine secured_call h closing_stable ?_
  intro s e h hadmitted
  cases hfault : e.fault with
  | some code =>
    have hnone : s.window pid = none := by
      by_contra hwindow
      have hno := hadmitted hwindow
      rw [hfault] at hno
      cases hno
    simp only [perform, hfault]
    exact leave_idle h.inv h.fresh (Bared.not_window_of_none hnone) fun s h => pure_idle _ h
  | none =>
    simp only [perform, hfault]
    unfold Scratch.statNameAt
    split
    · rename_i hlookup
      refine leave_idle h.inv h.fresh (h.not_window ?_) fun s h => pure_idle _ h
      rw [hlookup]
      simp
    · rename_i d hlookup
      split
      · rename_i hcheck
        obtain ⟨hino, -⟩ : (s.dirs session).stat.ino = (s.dirs d).stat.ino ∧
            (s.dirs session).stat.dev = (s.dirs d).stat.dev := by
          simpa [h.closing] using hcheck
        have hsame : ∀ x, s.lookup name = some x → x = session := by
          intro x hx
          rw [hlookup] at hx
          obtain rfl := Option.some.inj hx
          refine h.same d hlookup ?_
          rw [← hino, h.examined]
        have hguarantee : sweepContract.Guarantees pid s (s.look pid) := guarantees_window h.inv _ _
          (fun other hother => Function.update_of_ne hother _ _) (fun _ _ => rfl)
          (fun _ _ _ hw => hw)
        have hlooked : Looked pid session name stat (s.look pid) := by
          refine ⟨{ h.toBared with inv := inv_of_guarantees hguarantee }, ?_, hsame⟩
          rw [Scratch.look, h.closing]
          exact Function.update_self _ _ _
        refine ⟨hguarantee, ?_⟩
        dsimp only
        split
        · rename_i hdiffers
          exfalso
          obtain rfl := hsame d hlookup
          rw [h.examined] at hdiffers
          simp at hdiffers
        · refine removeName_idle hlooked ?_
          intro outcome s h
          cases outcome with
          | ok _ => exact pure_idle _ h
          | error code =>
            cases code with
            | NOENT => exact pure_idle _ h
            | EXIST => exact pure_idle _ h
            | NOTDIR => exact pure_idle _ h
            | NOTEMPTY => exact pure_idle _ h
            | fault code => exact pure_idle _ h
      · rename_i hcheck
        have hother : s.lookup name ≠ some session := by
          intro heq
          rw [hlookup] at heq
          obtain rfl := Option.some.inj heq
          exact hcheck (by simp [h.closing])
        have hguarantee := guarantees_leave h.inv (h.not_window hother)
        refine ⟨hguarantee, ?_⟩
        have hidle : Idle pid (s.leave pid) :=
          ⟨inv_of_guarantees hguarantee, h.fresh, Function.update_self _ _ _⟩
        dsimp only
        split
        · exact pure_idle _ hidle
        · rename_i hsame
          refine absurd ?_ hother
          rw [hlookup, h.same d hlookup]
          by_contra hino
          exact hsame (Or.inr hino)

/-- Everything but the lock file is gone. -/
def Ready (pid session : Nat) (name : OsString) (stat : Stat) (s : Scratch) : Prop :=
  Emptying pid session name stat [session] s ∧ Cleared session [lockFileName] s

theorem ready_stable : Steady pid (Ready pid session name stat) :=
  cleared_stable List.mem_cons_self

theorem filter_lock_nil (h : Cleared session [lockFileName] s) :
    (s.dirs session).entries.filter (fun e => e.1 ≠ lockFileName) = [] := by
  refine List.filter_eq_nil_iff.mpr ?_
  intro e he
  simpa using h e he

/-- The lock file goes last: what follows has nothing left to remove but the directory. -/
theorem unlinkLock_secured {Q : α → Scratch → Prop}
    {f : Except SweepError Unit → ScratchProgram α} (h : Ready pid session name stat s)
    (hok : ∀ s, Bared pid session name stat s → (pid, session) ∈ s.opened →
      Secured pid Q (f (.ok ())) s)
    (herror : ∀ error s, Idle pid s → Secured pid Q (f (.error error)) s) :
    Secured pid Q (unlink session lockFileName >>= f) s := by
  refine Shared.secure_bind (secured_call h ready_stable ?_)
  rintro s e ⟨h, hcleared⟩ _
  have hstable : Steady pid fun s => Bared pid session name stat s ∧ (pid, session) ∈ s.opened := by
    rintro s s' hrely ⟨hs, hopen⟩
    exact ⟨bared_stable s s' hrely hs, hrely.opened session hopen⟩
  have hfail : ∀ errno, errno ≠ .NOENT → Secured pid (fun a => Secured pid Q (f a))
      (pure (removed (.error errno))) s := by
    intro errno hne
    have herrno : removed (.error errno) = .error (.os errno) := by
      cases errno with
      | NOENT => exact absurd rfl hne
      | EXIST => rfl
      | NOTDIR => rfl
      | NOTEMPTY => rfl
      | fault code => rfl
    rw [herrno]
    exact secured_pure h.toIdle idle_stable fun s h => herror _ s h
  have hdone : ∀ s, Bared pid session name stat s → (pid, session) ∈ s.opened →
      Secured pid (fun a => Secured pid Q (f a)) (pure (.ok ())) s :=
    fun s hs hopen => secured_pure ⟨hs, hopen⟩ hstable fun s h => hok s h.1 h.2
  refine leads_faulty h.inv (fun code => hfail _ (by simp)) ?_
  unfold Scratch.unlinkAt
  split
  · rename_i hnone
    have hbare : (s.dirs session).entries = [] := by
      refine List.eq_nil_iff_forall_not_mem.mpr ?_
      intro x hx
      have hname : x.1 = lockFileName := by simpa using hcleared x hx
      have hno := List.lookup_eq_none_iff.mp hnone x hx
      simp [hname] at hno
    refine leads_same h.inv (hdone s ?_ h.isOpen)
    exact ⟨h.inv, h.fresh, h.known, h.isTop, h.named, h.examined, h.doomed, hbare, Or.inl h.quiet⟩
  · exact leads_same h.inv (hfail _ (by simp))
  · rename_i node hdir hnode
    have hbare : ∀ t : Scratch, (t.dirs session).entries = (s.dirs session).entries →
        ((t.dropEntry session lockFileName).dirs session).entries = [] := by
      intro t ht
      rw [dropEntry_eq]
      show t.entriesWith session _ session = []
      rw [Scratch.entriesWith, if_pos rfl, ht]
      exact filter_lock_nil hcleared
    cases node with
    | dir c => exact absurd rfl (hdir c)
    | file =>
      have hlock : s.entry session lockFileName ≠ some .lock := by
        rw [hnode]
        simp
      obtain ⟨hguarantee, hdropped⟩ := emptying_drop h List.mem_cons_self hlock
      refine ⟨hguarantee, hdone _ ?_ hdropped.isOpen⟩
      exact ⟨hdropped.inv, hdropped.fresh, hdropped.known, hdropped.isTop, hdropped.named,
        hdropped.examined, hdropped.doomed, hbare s rfl, Or.inl hdropped.quiet⟩
    | lock =>
      have hguarantee := guarantees_dropLock h.inv (Or.inr h.doomed) (Or.inr h.quiet)
        lockFileName
      have hnote : s.noteLock pid session .lock =
          { s with window := Function.update s.window pid (some session) } :=
        if_neg h.owner_ne
      have hinv := inv_of_guarantees hguarantee
      have hbare := hbare (s.noteLock pid session .lock) (by rw [hnote])
      refine ⟨hguarantee, hdone _ ?_ ?_⟩
      · rw [hnote, dropEntry_eq] at hinv hbare
        dsimp only
        rw [hnote, dropEntry_eq]
        exact ⟨hinv, h.fresh, h.known, h.isTop, h.named, h.examined, h.doomed, hbare,
          Or.inr (Function.update_self _ _ _)⟩
      · dsimp only
        rw [hnote, dropEntry_eq]
        exact h.isOpen

theorem closeSession_closing {Q : α → Scratch → Prop} {f : Unit → ScratchProgram α}
    (h : Bared pid session name stat s) (hopen : (pid, session) ∈ s.opened)
    (hnext : ∀ s, Closing pid session name stat s → Secured pid Q (f ()) s) :
    Secured pid Q (call (.closeSession session name) >>= f) s := by
  have hstable : Steady pid fun s => Bared pid session name stat s ∧ (pid, session) ∈ s.opened := by
    rintro s s' hrely ⟨hs, hopen⟩
    exact ⟨bared_stable s s' hrely hs, hrely.opened session hopen⟩
  refine secured_call ⟨h, hopen⟩ hstable ?_
  rintro s e ⟨h, hopen⟩ _
  have hclosed : sweepContract.Guarantees pid s
      { s with opened := s.opened.erase (pid, session) } := by
    refine guarantees_opened h.inv (fun o ho => Or.inl (List.mem_of_mem_erase ho)) ?_
    intro o ho hne
    refine (List.mem_erase_of_ne ?_).mpr ho
    rintro rfl
    exact hne rfl
  have hmarked := guarantees_window (inv_of_guarantees hclosed)
    (Function.update s.closing pid (some ⟨name, session, false⟩)) s.window
    (fun other hother => Function.update_of_ne hother _ _) (fun _ _ => rfl) (fun _ _ _ hw => hw)
  refine ⟨guarantees_trans hclosed hmarked fun _ hq => hq, hnext _ ?_⟩
  refine ⟨⟨inv_of_guarantees hmarked, h.fresh, h.known, h.isTop, h.named, h.examined, h.doomed,
    h.bare, h.window⟩, Function.update_self _ _ _, ?_⟩
  intro d hd hino
  -- the directory was held open until now, so no other one in use has its number
  have hlinked := h.inv.linked name d hd
  refine h.inv.inodes d session ⟨hlinked.2.1, Or.inl ⟨name, hd⟩⟩ ⟨h.isTop, Or.inr ⟨pid, hopen⟩⟩ ?_
  rw [h.examined]
  exact hino

/-- A process without a session holds no lock that a session counts on. -/
theorem guarantees_unlock (h : Inv s) (hunmarked : ¬ s.Marked pid) (q : Nat) :
    sweepContract.Guarantees pid s (if s.holder q = some pid then
      { s with holder := Function.update s.holder q none } else s) := by
  split
  · rename_i hholder
    refine guarantees_holder h ?_ ?_
    · intro p hmarked hlive
      have hheld := h.held p hmarked hlive
      have hne : p ≠ q := by
        rintro rfl
        rw [hheld] at hholder
        obtain rfl := Option.some.inj hholder
        exact hunmarked hmarked
      exact (Function.update_of_ne hne _ _).trans hheld
    · intro p other hother hp
      have hne : p ≠ q := by
        rintro rfl
        rw [hp] at hholder
        exact hother (Option.some.inj hholder)
      exact (Function.update_of_ne hne _ _).trans hp
  · exact guarantees_refl h

theorem Idle.not_marked (h : Idle pid s) : ¬ s.Marked pid :=
  not_marked_of_nil (h.inv.unborn pid h.fresh).1

theorem unlock_emptying {Q : α → Scratch → Prop} {f : Unit → ScratchProgram α} {file : Nat}
    {outcome : Except SweepError Unit}
    (h : Emptying pid session name stat [session] s ∧
      (outcome = .ok () → Cleared session [lockFileName] s))
    (hnext : ∀ s, Emptying pid session name stat [session] s →
      (outcome = .ok () → Cleared session [lockFileName] s) → Secured pid Q (f ()) s) :
    Secured pid Q (call (.unlock file) >>= f) s := by
  have hstable : Steady pid fun s => Emptying pid session name stat [session] s ∧
      (outcome = .ok () → Cleared session [lockFileName] s) := by
    rintro s s' hrely ⟨hs, hcleared⟩
    refine ⟨emptying_stable s s' hrely hs, fun hok => ?_⟩
    exact (ready_stable s s' hrely ⟨hs, hcleared hok⟩).2
  refine secured_call h hstable ?_
  rintro s e ⟨h, hcleared⟩ _
  have hguarantee := guarantees_unlock h.inv h.not_marked file
  refine ⟨hguarantee, ?_⟩
  have hinv := inv_of_guarantees hguarantee
  show Secured pid Q (f ()) (if s.holder file = some pid then
    { s with holder := Function.update s.holder file none } else s)
  split
  · rename_i hholder
    rw [if_pos hholder] at hinv
    exact hnext _ ⟨⟨⟨hinv, h.fresh, h.quiet⟩, h.known, h.isTop, h.named, h.isOpen⟩, h.examined,
      h.doomed, h.inside⟩ hcleared
  · exact hnext s h hcleared

theorem removeLocked_idle {file : Nat} (h : Emptying pid session name stat [session] s) :
    Secured pid (fun _ => Idle pid) (removeLocked session file stat name) s := by
  have hkeep : session = session → lockFileName ∈ [lockFileName] := fun _ => List.mem_cons_self
  refine Shared.secure_bind (Shared.Secure.mono
    (removeContents_emptying List.mem_cons_self hkeep h) ?_)
  intro emptied s hemptied
  refine unlock_emptying hemptied ?_
  intro s h hcleared
  cases emptied with
  | error error => exact closeEntry_idle h.toIdle
  | ok =>
    refine unlinkLock_secured ⟨h, hcleared rfl⟩ ?_ ?_
    · intro s h hopen
      exact closeSession_closing h hopen fun s h => removeSession_idle h
    · intro error s h
      exact closeEntry_idle h

/-- A candidate whose attributes were looked at. -/
structure Examined (pid session : Nat) (name : OsString) (stat : Stat) (s : Scratch) : Prop
    extends Holding pid session name s where
  examined : (s.dirs session).stat = stat

theorem examined_stable : Steady pid (Examined pid session name stat) := by
  intro s s' h hs
  refine ⟨holding_stable s s' h hs.toHolding, ?_⟩
  rw [h.stat_eq hs.known]
  exact hs.examined

/-- The lock of a marked session could be taken: the session is over. -/
theorem tryLock_emptying {Q : α → Scratch → Prop} {f : Except Errno Bool → ScratchProgram α}
    {file : Nat} (h : Examined pid session name stat s) (hfile : (s.dirs session).owner = file)
    (hmarked : s.Marked file)
    (hno : ∀ a s, a ≠ .ok true → Idle pid s → Secured pid Q (f a) s)
    (hyes : ∀ s, Emptying pid session name stat [session] s → Secured pid Q (f (.ok true)) s) :
    Secured pid Q (call (.tryLock file) >>= f) s := by
  have hstable : Steady pid fun s => Examined pid session name stat s ∧
      (s.dirs session).owner = file ∧ s.Marked file := by
    rintro s s' hrely ⟨hs, hfile, hmarked⟩
    refine ⟨examined_stable s s' hrely hs, ?_, hrely.marked file hmarked⟩
    rw [hrely.owner_eq hs.known]
    exact hfile
  refine secured_call ⟨h, hfile, hmarked⟩ hstable ?_
  rintro s e ⟨h, hfile, hmarked⟩ _
  refine leads_faulty h.inv (fun code => hno _ s (by simp) h.toIdle) ?_
  split
  · exact leads_same h.inv (hno _ s (by simp) h.toIdle)
  · rename_i hfree
    have hgone : s.Gone file := by
      by_contra hlive
      have hheld := h.inv.held file hmarked hlive
      rw [hfree] at hheld
      cases hheld
    have hguarantee : sweepContract.Guarantees pid s
        { s with holder := Function.update s.holder file (some pid) } := by
      refine guarantees_holder h.inv ?_ ?_
      · intro q hq hlive
        have hne : q ≠ file := by
          rintro rfl
          exact hlive hgone
        exact (Function.update_of_ne hne _ _).trans (h.inv.held q hq hlive)
      · intro q other _ hq
        have hne : q ≠ file := by
          rintro rfl
          rw [hfree] at hq
          cases hq
        exact (Function.update_of_ne hne _ _).trans hq
    refine ⟨hguarantee, hyes _ ?_⟩
    refine ⟨⟨⟨inv_of_guarantees hguarantee, h.fresh, h.quiet⟩, h.known, h.isTop, h.named,
      h.isOpen⟩, h.examined, ⟨?_, ?_⟩, ?_⟩
    · exact hfile ▸ hgone
    · exact hfile ▸ hmarked
    · intro d hd
      obtain rfl := List.mem_singleton.mp hd
      exact ⟨h.known, rfl, fun _ => rfl⟩

theorem removeMarked_idle {file user : Nat} (h : Examined pid session name stat s)
    (hfile : (s.dirs session).owner = file) :
    Secured pid (fun _ => Idle pid) (removeMarked session file stat name user) s := by
  have hstable : Steady pid fun s => Examined pid session name stat s ∧
      (s.dirs session).owner = file := by
    rintro s s' hrely ⟨hs, hfile⟩
    refine ⟨examined_stable s s' hrely hs, ?_⟩
    rw [hrely.owner_eq hs.known]
    exact hfile
  refine secured_call ⟨h, hfile⟩ hstable ?_
  rintro s e ⟨h, hfile⟩ _
  refine leads_faulty h.inv (fun _ => closeEntry_idle h.toIdle) (leads_same h.inv ?_)
  dsimp only
  split
  · exact closeEntry_idle h.toIdle
  · refine secured_call ⟨h, hfile⟩ hstable ?_
    rintro s e ⟨h, hfile⟩ _
    refine leads_faulty h.inv (fun _ => closeEntry_idle h.toIdle) (leads_same h.inv ?_)
    dsimp only
    split
    · exact closeEntry_idle h.toIdle
    · rename_i hmarked
      refine tryLock_emptying h hfile (not_not.mp hmarked) ?_ ?_
      · intro a s ha h
        match a with
        | .error errno => exact closeEntry_idle h
        | .ok false => exact closeEntry_idle h
        | .ok true => exact absurd rfl ha
      · intro s h
        exact removeLocked_idle h

theorem removeIfDead_idle {parentStat : Stat} {user : Nat} (h : Idle pid s) :
    Secured pid (fun _ => Idle pid) (removeIfDead parentStat name user) s := by
  refine secured_call h idle_stable ?_
  intro s e h _
  refine leads_faulty h.inv (fun _ => pure_idle _ h) ?_
  split
  · exact leads_same h.inv (pure_idle _ h)
  · rename_i session hlookup
    obtain ⟨hknown, htop, hnamed⟩ := h.inv.linked name session hlookup
    have hguarantee : sweepContract.Guarantees pid s
        { s with opened := (pid, session) :: s.opened } := by
      refine guarantees_opened h.inv ?_ fun o ho _ => List.mem_cons_of_mem _ ho
      intro o ho
      rcases List.mem_cons.mp ho with rfl | ho
      · exact Or.inr ⟨hknown, fun _ => ⟨name, hlookup⟩⟩
      · exact Or.inl ho
    have hholding : Holding pid session name { s with opened := (pid, session) :: s.opened } :=
      ⟨⟨inv_of_guarantees hguarantee, h.fresh, h.quiet⟩, hknown, htop, hnamed,
        List.mem_cons_self⟩
    refine ⟨hguarantee, ?_⟩
    refine secured_call hholding holding_stable ?_
    intro s e h _
    refine leads_faulty h.inv (fun _ => closeEntry_idle h.toIdle) (leads_same h.inv ?_)
    dsimp only
    split
    · exact closeEntry_idle h.toIdle
    · have hexamined : Examined pid session name (s.dirs session).stat s := ⟨h, rfl⟩
      refine secured_call hexamined examined_stable ?_
      intro s e h _
      refine leads_faulty h.inv (fun _ => closeEntry_idle h.toIdle) ?_
      split
      · exact leads_same h.inv (removeMarked_idle h rfl)
      · exact leads_same h.inv (closeEntry_idle h.toIdle)
      · exact leads_same h.inv (closeEntry_idle h.toIdle)

end Session

/-! ## The whole sweep -/

theorem sweepEach_idle {parentStat : Stat} {user : Nat} {names : List OsString} {count : Nat}
    (h : Idle pid s) :
    Secured pid (fun _ => Idle pid) (sweepEach parentStat user names count) s := by
  induction names generalizing s count with
  | nil => exact pure_idle _ h
  | cons name names ih =>
    refine Shared.secure_bind (Shared.Secure.mono (removeIfDead_idle h) ?_)
    intro outcome s h
    exact ih h

theorem sweep_idle {user limit : Nat} (h : Idle pid s) :
    Secured pid (fun _ => Idle pid) (sweep user limit) s := by
  refine secured_call h idle_stable ?_
  intro s e h _
  refine leads_faulty h.inv (fun _ => pure_idle _ h) (leads_same h.inv ?_)
  refine secured_call h idle_stable ?_
  intro s e h _
  refine leads_faulty h.inv (fun _ => pure_idle _ h) (leads_same h.inv ?_)
  refine Shared.secure_bind (secured_call h idle_stable ?_)
  intro s e h _
  refine leads_same h.inv (secured_pure h idle_stable ?_)
  intro s h
  exact sweepEach_idle h

end Excise.Sweep
