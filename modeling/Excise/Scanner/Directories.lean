import Excise.Scanner.Moves

/-!
# No directory is lost, none is scanned twice at once

Runs of the scheduler that nothing disturbs: no cancellation, no replaced root, no worker that
leaves. The record of a run is what its steps let others see; a directory announced in it is
completed later in it, or still waits in the journal, with a worker or in a channel.
-/

namespace Excise.Scheduler
set_option autoImplicit false

variable {n : Nat} {s s' : Scheduler n} {a : Action n} {notices : List (Notice n)}

def record (h : List (Action n × List (Notice n))) : List (Notice n) := h.flatMap Prod.snd

theorem record_append (h : List (Action n × List (Notice n))) (a : Action n)
    (notices : List (Notice n)) : record (h ++ [(a, notices)]) = record h ++ notices := by
  simp [record]

def handsOut (path : NativePath) : Notice n → Bool
  | .handed _ path' _ => path' = path
  | _ => false

def Completes (path : NativePath) (x : Notice n) : Prop := ∃ i l, x = .completed i path l

/-- A directory announced and not yet completed: journalled, handed out or on its way. -/
def Waiting (s : Scheduler n) (path : NativePath) : Prop :=
  path ∈ s.queue.paths ∨ (∃ i l, s.active i = some l ∧ l.key.path.below s.root = path) ∨
    ∃ i task, .Enqueue task ∈ (s.workers i).outbox ∧ task.path = path

/-! ## Moves and the record -/

theorem move_frame (hm : Move s a s' notices) :
    (∃ error, s'.place = .failed error) ∨
      (s'.root = s.root ∧ s'.session = s.session ∧ s'.generation = s.generation) := by
  cases hm with
  | fault s' error notices hplace hactive herror hquiet => exact Or.inl ⟨error, hplace⟩
  | _ => exact Or.inr ⟨rfl, rfl, rfl⟩

theorem count_move (hm : Move s a s' notices) (hplace : ∀ error, s'.place ≠ .failed error)
    (path : NativePath) :
    notices.countP (handsOut path) + s'.queue.paths.count path ≤
      notices.count (.received path) + s.queue.paths.count path := by
  cases hm with
  | hand i l task q hi hrunning hl hscan hhanded htask hgains hpending =>
    have hcount := hgains.paths.count_eq path
    rw [List.count_cons] at hcount
    simp only [List.countP_cons, List.countP_nil, handsOut, htask, List.count_cons, List.count_nil,
      decide_eq_true_eq]
    simp only [beq_iff_eq] at hcount
    rw [hcount]
    simp
    omega
  | known i task rest p hbox htask hout hold =>
    simp [handsOut]
  | spawn i task rest p q hbox htask hout hgains hpending =>
    have hcount := hgains.paths.count_eq path
    rw [List.count_cons] at hcount
    simp [handsOut, hcount, List.count_cons]
    omega
  | complete i l completion hbox hi hidle hout =>
    simp [handsOut, List.countP_map, Function.comp_def, TaskQueue.complete, TaskQueue.paths]
  | work i w notices hw =>
    cases hw <;> simp [handsOut, setWorker]
  | fault s' error notices hfailed hactive herror hquiet => exact absurd hfailed (hplace error)
  | forward i event rest hev => simp [handsOut]
  | _ => simp [setWorker]

theorem waiting_of_kept {path : NativePath} (h : s.Waiting path) (hroot : s'.root = s.root)
    (hqueue : ∀ p ∈ s.queue.paths, p ∈ s'.queue.paths)
    (hactive : ∀ i l, s.active i = some l → s'.active i = some l)
    (houtbox : ∀ i task, .Enqueue task ∈ (s.workers i).outbox →
      .Enqueue task ∈ (s'.workers i).outbox) : s'.Waiting path := by
  rcases h with h | ⟨i, l, hl, hpath⟩ | ⟨i, task, htask, hpath⟩
  · exact Or.inl (hqueue path h)
  · exact Or.inr (Or.inl ⟨i, l, hactive i l hl, by rw [hroot]; exact hpath⟩)
  · exact Or.inr (Or.inr ⟨i, task, houtbox i task htask, hpath⟩)

theorem outbox_update {workers : Fin n → Worker} {i : Fin n} {w : Worker}
    (hw : ∀ task, .Enqueue task ∈ (workers i).outbox → .Enqueue task ∈ w.outbox) :
    ∀ j task, .Enqueue task ∈ (workers j).outbox →
      .Enqueue task ∈ (Function.update workers i w j).outbox := by
  intro j task htask
  by_cases hj : j = i
  · subst hj
    rw [Function.update_self]
    exact hw task htask
  · rw [Function.update_of_ne hj]
    exact htask

/-- A task leaves a channel: it waits elsewhere now, everything else where it was. -/
theorem waiting_of_taken {path : NativePath} {i : Fin n} {task : DirectoryTask}
    {rest : List SchedulerCommand} (h : s.Waiting path)
    (hbox : (s.workers i).outbox = .Enqueue task :: rest) (hroot : s'.root = s.root)
    (hactive : s'.active = s.active) (hqueue : ∀ p ∈ s.queue.paths, p ∈ s'.queue.paths)
    (hworkers : s'.workers = Function.update s.workers i { s.workers i with outbox := rest })
    (htask : s'.Waiting task.path) : s'.Waiting path := by
  rcases h with h | ⟨j, l, hl, hpath⟩ | ⟨j, task', htask', hpath⟩
  · exact Or.inl (hqueue path h)
  · exact Or.inr (Or.inl ⟨j, l, by rw [hactive]; exact hl, by rw [hroot]; exact hpath⟩)
  · by_cases hj : j = i
    · subst hj
      rw [hbox] at htask'
      rcases List.mem_cons.mp htask' with heq | hrest
      · obtain rfl := SchedulerCommand.Enqueue.inj heq
        rw [← hpath]
        exact htask
      · refine Or.inr (Or.inr ⟨j, task', ?_, hpath⟩)
        rw [hworkers, Function.update_self]
        exact hrest
    · refine Or.inr (Or.inr ⟨j, task', ?_, hpath⟩)
      rw [hworkers, Function.update_of_ne hj]
      exact htask'

/-- A directory keeps waiting until a move completes it. -/
theorem waiting_move (hm : Move s a s' notices) (hplace : ∀ error, s'.place ≠ .failed error)
    {path : NativePath} (h : s.Waiting path) :
    (∃ x ∈ notices, Completes path x) ∨ s'.Waiting path := by
  cases hm with
  | hand i l task q hi hrunning hl hscan hhanded htask hgains hpending =>
    right
    rcases h with h | ⟨j, l', hl', hpath⟩ | ⟨j, task', htask', hpath⟩
    · rcases List.mem_cons.mp (hgains.paths.subset h) with rfl | h
      · exact Or.inr (Or.inl ⟨i, l, Function.update_self i (some l) s.active, rfl⟩)
      · exact Or.inl h
    · refine Or.inr (Or.inl ⟨j, l', ?_, hpath⟩)
      have hj : j ≠ i := by
        rintro rfl
        rw [hi] at hl'
        cases hl'
      simp only [Function.update_of_ne hj]
      exact hl'
    · refine Or.inr (Or.inr ⟨j, task', ?_, hpath⟩)
      refine outbox_update ?_ j task' htask'
      exact fun _ ht => ht
  | known i task rest p hbox htask hout hold =>
    refine Or.inr (waiting_of_taken h hbox rfl rfl (fun _ hp => hp) rfl ?_)
    rcases hold with hold | ⟨j, l, hl, hkey⟩
    · exact Or.inl hold
    · refine Or.inr (Or.inl ⟨j, l, hl, ?_⟩)
      rw [hkey, htask]
      rfl
  | spawn i task rest p q hbox htask hout hgains hpending =>
    refine Or.inr (waiting_of_taken h hbox rfl rfl ?_ rfl (Or.inl ?_))
    · intro p hp
      exact hgains.paths.symm.subset (List.mem_cons_of_mem _ hp)
    · exact hgains.paths.symm.subset List.mem_cons_self
  | complete i l completion hbox hi hidle hout =>
    rcases h with h | ⟨j, l', hl', hpath⟩ | ⟨j, task', htask', hpath⟩
    · exact Or.inr (Or.inl h)
    · by_cases hj : j = i
      · subst hj
        obtain rfl := Option.some.inj (hi.symm.trans hl')
        refine Or.inl ⟨_, List.mem_append_right _ (List.mem_singleton.mpr rfl), ?_⟩
        exact ⟨j, l, by rw [hpath]⟩
      · refine Or.inr (Or.inr (Or.inl ⟨j, l', ?_, hpath⟩))
        simp only [Function.update_of_ne hj]
        exact hl'
    · refine Or.inr (Or.inr (Or.inr ⟨j, task', ?_, hpath⟩))
      refine outbox_update ?_ j task' htask'
      intro t ht
      rw [hbox] at ht
      simp at ht
  | forward i event rest hev =>
    exact Or.inr (waiting_of_kept h rfl (fun _ hp => hp) (fun _ _ hl => hl)
      (outbox_update fun _ ht => ht))
  | work i w notices hw =>
    refine Or.inr (waiting_of_kept h rfl (fun _ hp => hp) (fun _ _ hl => hl) (outbox_update ?_))
    intro t ht
    cases hw with
    | receive hrunning hidle => exact ht
    | send task hheld => exact List.mem_append_left _ ht
    | emit event assignment hheld hroom hsealed => exact ht
    | finish assignment completion hheld => exact List.mem_append_left _ ht
  | exit i hinvalid hidle =>
    exact Or.inr (waiting_of_kept h rfl (fun _ hp => hp) (fun _ _ hl => hl)
      (outbox_update fun _ ht => ht))
  | fault s' error notices hfailed hactive herror hquiet => exact absurd hfailed (hplace error)
  | _ => exact Or.inr h

theorem sent_move (hm : Move s a s' notices) (hplace : ∀ error, s'.place ≠ .failed error)
    (path : NativePath) : Answered (.sent path) (Completes path) (s'.Waiting path) notices := by
  cases hm with
  | work i w notices hw =>
    cases hw with
    | send task hheld =>
      by_cases hpath : task.path = path
      · refine .of_due (Or.inr (Or.inr ⟨i, task, ?_, hpath⟩))
        simp [setWorker]
      · refine .of_not_mem ?_
        intro hmem
        exact hpath (Notice.sent.inj (List.mem_singleton.mp hmem)).symm
    | receive hrunning hidle => exact .of_not_mem (by simp)
    | emit event assignment hheld hroom hsealed => exact .of_not_mem (by simp)
    | finish assignment completion hheld => exact .of_not_mem (by simp)
  | fault s' error notices hfailed hactive herror hquiet => exact absurd hfailed (hplace error)
  | _ => exact .of_not_mem (by simp)

/-- What the record owes to a state of the run. -/
structure History (root : NativePath) (s : Scheduler n) (record : List (Notice n)) : Prop where
  counted : ∀ path, record.countP (handsOut path) + s.queue.paths.count path ≤
    record.count (.received path) + if path = root then 1 else 0
  answered : ∀ path, Answered (.sent path) (Completes path) (s.Waiting path) record
  rooted : (∃ x ∈ record, Completes root x) ∨ s.Waiting root

theorem history_move {root : NativePath} {record : List (Notice n)} (h : History root s record)
    (hm : Move s a s' notices) (hplace : ∀ error, s'.place ≠ .failed error) :
    History root s' (record ++ notices) where
  counted path := by
    have hcounted := h.counted path
    have hmoved := count_move hm hplace path
    rw [List.countP_append, List.count_append]
    omega
  answered path :=
    (h.answered path).append (waiting_move hm hplace) (sent_move hm hplace path)
  rooted := by
    rcases h.rooted with ⟨x, hx, hroot⟩ | hwaiting
    · exact Or.inl ⟨x, List.mem_append_left _ hx, hroot⟩
    · rcases waiting_move hm hplace hwaiting with ⟨x, hx, hroot⟩ | hwaiting
      · exact Or.inl ⟨x, List.mem_append_right _ hx, hroot⟩
      · exact Or.inr hwaiting

/-! ## After the actor has ended -/

theorem turn_ended (h : s.place.working = false) (io : Option String) : s.turn io = (s, []) := by
  unfold turn
  cases hplace : s.place <;> rw [hplace] at h <;> first | rfl | cases h

theorem selected_ended (h : s.place.working = false) (next : Scheduler n × List (Notice n)) :
    s.selected next = (s, []) := by
  rw [selected, if_neg]
  intro hplace
  rw [hplace] at h
  cases h

/-- Nothing of the actor moves any more; a worker may still be heard. -/
theorem step_ended (h : s.place.working = false) (a : Action n) :
    (s.step a).1.place = s.place ∧ (s.step a).1.active = s.active ∧
      (s.step a).1.queue = s.queue ∧ (s.step a).1.rootInvalidated = s.rootInvalidated ∧
      ∀ x ∈ (s.step a).2, (∃ path, x = .sent path) ∨ ∃ i event, x = .emitted i event := by
  have hnone : ∀ x ∈ ([] : List (Notice n)),
      (∃ path, x = .sent path) ∨ ∃ i event, x = .emitted i event := by
    intro x hx
    cases hx
  cases a with
  | turn io =>
    rw [step, turn_ended h]
    exact ⟨rfl, rfl, rfl, rfl, hnone⟩
  | command | hangup | focus | event | timeout =>
    rw [step, selected_ended h]
    exact ⟨rfl, rfl, rfl, rfl, hnone⟩
  | receive i =>
    simp only [step, receive]
    split <;> exact ⟨rfl, rfl, rfl, rfl, hnone⟩
  | send i task =>
    simp only [step, send]
    split
    · refine ⟨rfl, rfl, rfl, rfl, ?_⟩
      intro x hx
      exact Or.inl ⟨task.path, List.mem_singleton.mp hx⟩
    · exact ⟨rfl, rfl, rfl, rfl, hnone⟩
  | emit i event =>
    simp only [step, emit]
    split
    · exact ⟨rfl, rfl, rfl, rfl, hnone⟩
    · split
      · refine ⟨rfl, rfl, rfl, rfl, ?_⟩
        intro x hx
        exact Or.inr ⟨i, event, List.mem_singleton.mp hx⟩
      · exact ⟨rfl, rfl, rfl, rfl, hnone⟩
  | finishTask i completion =>
    simp only [step, finishTask]
    split <;> exact ⟨rfl, rfl, rfl, rfl, hnone⟩
  | exit i =>
    simp only [step, exit]
    split <;> exact ⟨rfl, rfl, rfl, rfl, hnone⟩
  | invalidate i =>
    simp only [step, invalidate]
    split <;> exact ⟨rfl, rfl, rfl, rfl, hnone⟩
  | cancel => exact ⟨rfl, rfl, rfl, rfl, hnone⟩
  | stop => exact ⟨rfl, rfl, rfl, rfl, hnone⟩
  | acquire kind path priority =>
    simp only [step]
    split <;> exact ⟨rfl, rfl, rfl, rfl, hnone⟩
  | finish lease completion =>
    simp only [step]
    split <;> exact ⟨rfl, rfl, rfl, rfl, hnone⟩

/-! ## Undisturbed runs -/

/-- No cancellation, no failure of a worker, no invalid root and no worker that leaves. -/
def Action.undisturbed : Action n → Bool
  | .hangup | .exit _ | .invalidate _ | .cancel | .stop => false
  | _ => true

theorem safe_of_undisturbed (hw : Working s) (hvalid : s.rootInvalid = false)
    (ha : a.undisturbed = true) : s.Safe a := by
  cases a with
  | turn io =>
    intro hinvalid
    rw [hvalid] at hinvalid
    cases hinvalid
  | event i delivered =>
    intro _ _ hgone
    rw [hw.running hvalid i] at hgone
    cases hgone
  | hangup => cases ha
  | exit i => cases ha
  | invalidate i => cases ha
  | cancel => cases ha
  | stop => cases ha
  | _ => trivial

/-- No two workers are down for one directory. -/
def OneHolder (s : Scheduler n) : Prop :=
  ∀ i j l l', s.active i = some l → s.active j = some l' → l.key.path = l'.key.path → i = j

theorem oneHolder_of_agrees (h : Agrees s) : s.OneHolder := by
  intro i j l l' hl hl' hpath
  refine h.exclusive i j l l' hl hl' ?_
  rw [(h.held i l hl).1, (h.held j l' hl').1, hpath]

inductive Steady (root : NativePath) (session : ScanSessionId) (generation : ScanGeneration)
    (record : List (Notice n)) (s : Scheduler n) : Prop where
  | on (hw : Working s) (hvalid : s.rootInvalid = false)
    (hera : s.root = root ∧ s.session = session ∧ s.generation = generation)
    (hplace : s.place.working = true ∨
      s.place = .returned ∧ s.queue.pending = 0 ∧ ∀ i, s.active i = none)
    (history : History root s record)
  | failed (error : SchedulerError) (hplace : s.place = .failed error)
    (herror : error ≠ .missingTask) (hone : s.OneHolder)
    (hcounted : ∀ path, record.countP (handsOut path) ≤
      record.count (.received path) + if path = root then 1 else 0)

/-- Where a move of an undisturbed run can lead. -/
theorem place_move (hm : Move s a s' notices) (hw : Working s) (hvalid : s.rootInvalid = false)
    (ha : a.undisturbed = true) (hplace : ∀ error, s'.place ≠ .failed error) :
    s'.rootInvalid = false ∧ s'.rootInvalidated = false ∧
      (s'.place = s.place ∨ s'.place.working = true ∨
        s'.place = .returned ∧ s'.queue.pending = 0 ∧ ∀ i, s'.active i = none) := by
  cases hm with
  | goto place hworking => exact ⟨hvalid, hw.unnoticed, Or.inr (Or.inl hworking)⟩
  | quit free hwhy =>
    refine ⟨hvalid, hw.unnoticed, Or.inr (Or.inr ⟨rfl, ?_, free⟩)⟩
    rcases hwhy with hidle | rfl | ⟨i, hgone⟩
    · exact hidle
    · cases ha
    · rw [hw.running hvalid i] at hgone
      cases hgone
  | quitInvalid hinvalid free =>
    rw [hvalid] at hinvalid
    cases hinvalid
  | exit i hinvalid hidle =>
    rw [hvalid] at hinvalid
    cases hinvalid
  | invalidate i hinvalidate =>
    subst hinvalidate
    cases ha
  | fault s' error notices hfailed hactive herror hquiet => exact absurd hfailed (hplace error)
  | still => exact ⟨hvalid, hw.unnoticed, Or.inl rfl⟩
  | work i w notices hwork => exact ⟨hvalid, hw.unnoticed, Or.inl rfl⟩
  | acquire kind path priority hkind => exact ⟨hvalid, hw.unnoticed, Or.inl rfl⟩
  | finish lease completion hkind => exact ⟨hvalid, hw.unnoticed, Or.inl rfl⟩
  | _ => exact ⟨hvalid, hw.unnoticed, Or.inr (Or.inl rfl)⟩

theorem failed_move (hm : Move s a s' notices) {error : SchedulerError}
    (hplace : s'.place = .failed error) (hrunning : s.place ≠ .failed error) :
    s'.active = s.active ∧ error ≠ .missingTask ∧
      ∀ path, notices.countP (handsOut path) = 0 := by
  cases hm with
  | fault s' error' notices hfailed hactive herror hquiet =>
    obtain rfl := Place.failed.inj (hfailed.symm.trans hplace)
    refine ⟨hactive, ?_, ?_⟩
    · rcases herror with herror | ⟨rfl, -⟩
      · rintro rfl
        cases herror
      · decide
    · intro path
      rw [List.countP_eq_zero]
      intro x hx
      rcases hquiet x hx with ⟨path', rfl⟩ | ⟨i, event, rfl⟩
      · exact Bool.false_ne_true
      · exact Bool.false_ne_true
  | goto place hworking =>
    obtain rfl : place = .failed error := hplace
    cases hworking
  | still => exact absurd hplace hrunning
  | work i w notices hwork => exact absurd hplace hrunning
  | exit i hinvalid hidle => exact absurd hplace hrunning
  | invalidate i hinvalidate => exact absurd hplace hrunning
  | acquire kind path priority hkind => exact absurd hplace hrunning
  | finish lease completion hkind => exact absurd hplace hrunning
  | _ => cases hplace

theorem steady_step {root : NativePath} {session : ScanSessionId} {generation : ScanGeneration}
    {record : List (Notice n)} (h : Steady root session generation record s)
    (ha : a.undisturbed = true) :
    Steady root session generation (record ++ (s.step a).2) (s.step a).1 := by
  cases h with
  | on hw hvalid hera hplace history =>
    have hm := move_of_step hw a (safe_of_undisturbed hw hvalid ha)
    have hstands : ∀ error, s.place ≠ .failed error := by
      rintro error hfailed
      rw [hfailed] at hplace
      rcases hplace with hplace | ⟨hplace, -⟩
      · cases hplace
      · cases hplace
    by_cases hfailed : ∃ error, (s.step a).1.place = .failed error
    · obtain ⟨error, hfailed⟩ := hfailed
      obtain ⟨hactive, herror, hquiet⟩ := failed_move hm hfailed (hstands error)
      refine .failed error hfailed herror ?_ ?_
      · intro i j l l'
        rw [hactive]
        exact oneHolder_of_agrees hw.agrees i j l l'
      · intro path
        have hcounted := history.counted path
        rw [List.countP_append, List.count_append, hquiet path]
        omega
    · have hnot : ∀ error, (s.step a).1.place ≠ .failed error := fun error herror =>
        hfailed ⟨error, herror⟩
      obtain ⟨hvalid', hunnoticed, hplace'⟩ := place_move hm hw hvalid ha hnot
      have hw' : Working (s.step a).1 := by
        rcases working_move hw hm with hw' | ⟨-, hnoticed, -⟩ | ⟨error, herror⟩
        · exact hw'
        · rw [hunnoticed] at hnoticed
          cases hnoticed
        · exact absurd herror (hnot error)
      have hera' : (s.step a).1.root = root ∧ (s.step a).1.session = session ∧
          (s.step a).1.generation = generation := by
        rcases move_frame hm with ⟨error, herror⟩ | ⟨hroot, hsession, hgeneration⟩
        · exact absurd herror (hnot error)
        · rw [hroot, hsession, hgeneration]
          exact hera
      refine .on hw' hvalid' hera' ?_ (history_move history hm hnot)
      rcases hplace with hworking | ⟨hreturned, hidle, hfree⟩
      · rcases hplace' with hsame | hplace'
        · rw [hsame]
          exact Or.inl hworking
        · exact hplace'
      · obtain ⟨hplace, hactive, hqueue, -⟩ := step_ended (by rw [hreturned]; rfl) a
        rw [hplace, hqueue, hactive]
        exact Or.inr ⟨hreturned, hidle, hfree⟩
  | failed error hplace herror hone hcounted =>
    obtain ⟨hplace', hactive, -, -, hquiet⟩ := step_ended (by rw [hplace]; rfl) a
    have hnone : ∀ path, (s.step a).2.countP (handsOut path) = 0 := by
      intro path
      rw [List.countP_eq_zero]
      intro x hx
      rcases hquiet x hx with ⟨path', rfl⟩ | ⟨i, event, rfl⟩
      · exact Bool.false_ne_true
      · exact Bool.false_ne_true
    refine .failed error (hplace'.trans hplace) herror ?_ ?_
    · intro i j l l'
      rw [hactive]
      exact hone i j l l'
    · intro path
      have hcounted := hcounted path
      rw [List.countP_append, List.count_append, hnone path]
      omega

/-! ## From the start -/

/-- A coordinator of the scan's generation with no scan work left of an earlier one. -/
structure Vacant (c : ScanCoordinator) (session : ScanSessionId) (generation : ScanGeneration) :
    Prop where
  filed : c.Filed
  session : c.session = session
  generation : c.generation = generation
  pending : ∀ k ∈ c.pending, k.kind.isScanWork = false
  leased : ∀ k ∈ c.activeByKey, k.kind ≠ .EnumerateDirectory

theorem vacant_new (session : ScanSessionId) (generation : ScanGeneration) :
    Vacant (.new session generation) session generation where
  filed := (ScanCoordinator.consistent_new session generation).filed
  session := rfl
  generation := rfl
  pending k hk := by simp [ScanCoordinator.new] at hk
  leased k hk := by simp [ScanCoordinator.new] at hk

section Start
variable {c : ScanCoordinator} {session : ScanSessionId} {generation : ScanGeneration}

theorem below_root (root : NativePath) : (⟨[]⟩ : RelativePath).below root = root :=
  List.append_nil root

theorem schedule_vacant (h : Vacant c session generation) (p : RelativePath) :
    (c.schedule ⟨session, generation, .EnumerateDirectory, p⟩ .Background).2 = .Enqueued := by
  have hreported :=
    ScanCoordinator.schedule_reported c ⟨session, generation, .EnumerateDirectory, p⟩ .Background
  generalize (c.schedule ⟨session, generation, .EnumerateDirectory, p⟩ .Background).2 = outcome
    at hreported ⊢
  cases outcome with
  | Enqueued => rfl
  | PriorityRaised => exact Bool.noConfusion (h.pending _ hreported)
  | AlreadyPending => exact Bool.noConfusion (h.pending _ hreported)
  | AlreadyLeased => exact absurd rfl (h.leased _ hreported)
  | StaleSession => exact absurd h.session.symm hreported
  | StaleGeneration => exact absurd h.generation.symm hreported

theorem start_eq (h : Vacant c session generation) (root : NativePath) (capacity : Nat) :
    (start c root session generation capacity : Scheduler n) =
      ⟨(c.schedule ⟨session, generation, .EnumerateDirectory, ⟨[]⟩⟩ .Background).1,
        .new root capacity, root, session, generation, fun _ => none, fun _ => .new,
        false, false, false, false, .head⟩ := by
  have hkey := taskKey_below session generation root ⟨[]⟩
  rw [below_root] at hkey
  have hout := schedule_vacant h ⟨[]⟩
  unfold start
  rw [hkey]
  dsimp only
  generalize c.schedule ⟨session, generation, .EnumerateDirectory, ⟨[]⟩⟩ .Background = scheduled
    at hout ⊢
  obtain ⟨c', outcome⟩ := scheduled
  obtain rfl : outcome = .Enqueued := hout
  rfl

theorem working_start (h : Vacant c session generation) (root : NativePath) (capacity : Nat) :
    Working (start c root session generation capacity : Scheduler n) := by
  -- the journal before the root task is filed
  have hempty : Agrees (⟨c, ⟨[], [], 0, capacity, root⟩, root, session, generation,
      fun _ => none, fun _ => .new, false, false, false, false, .head⟩ : Scheduler n) := {
    filed := h.filed
    session := h.session
    generation := h.generation
    root := rfl
    waiting := by
      intro k hk hscan
      rw [h.pending k hk] at hscan
      cases hscan
    queued := by
      intro path hpath
      cases hpath
    distinct := List.nodup_nil
    held := by
      intro i l hl
      cases hl
    owner := fun k hk hkind => absurd hkind (h.leased k hk)
    exclusive := by
      intro i j l l' hl
      cases hl
    counted := by simp [TaskQueue.paths, outstanding] }
  have hgains : TaskQueue.Gains ⟨[], [], 0, capacity, root⟩ (.new root capacity)
      ((⟨[]⟩ : RelativePath).below root) := by
    rw [below_root]
    exact ⟨List.Perm.refl _, rfl⟩
  have hagrees := agrees_of_admitted hempty (schedule_vacant h ⟨[]⟩) hgains rfl
  rw [start_eq h]
  exact ⟨rfl, rfl, rfl, fun _ _ => rfl, hagrees.of_same rfl rfl rfl rfl rfl rfl,
    fun i => .free true⟩

theorem steady_start (h : Vacant c session generation) (root : NativePath) (capacity : Nat) :
    Steady root session generation []
      (start c root session generation capacity : Scheduler n) := by
  have hw : Working (start c root session generation capacity : Scheduler n) :=
    working_start h root capacity
  have heq : (start c root session generation capacity : Scheduler n) = _ := start_eq h root capacity
  have hpaths : (start c root session generation capacity : Scheduler n).queue.paths = [root] := by
    rw [heq]
    rfl
  refine .on hw (by rw [heq]) (by rw [heq]; exact ⟨rfl, rfl, rfl⟩) (Or.inl (by rw [heq]; rfl)) ?_
  refine ⟨?_, fun path => .of_not_mem (by simp), Or.inr (Or.inl ?_)⟩
  · intro path
    rw [hpaths, List.count_singleton]
    by_cases hpath : root = path
    · simp [hpath]
    · simp [hpath]
  · rw [hpaths]
    exact List.mem_singleton.mpr rfl

theorem steady_run (h : Vacant c session generation) (root : NativePath) (capacity : Nat)
    {actions : List (Action n)} (hactions : ∀ a ∈ actions, a.undisturbed = true) :
    Steady root session generation
      (record (machine.trace (start c root session generation capacity) actions))
      (machine.run (start c root session generation capacity) actions) := by
  refine machine.run_induction_along (C := fun _ a => a.undisturbed = true)
    (P := fun h s => Steady root session generation (record h) s) (steady_start h root capacity) ?_
    (machine.along_of_forall hactions _)
  intro h s a hs ha
  rw [record_append]
  exact steady_step hs ha

/-- Nothing waits for a scheduler that has come to its end. -/
theorem not_waiting {s : Scheduler n} (hw : Working s) (hidle : s.queue.pending = 0)
    (hfree : ∀ i, s.active i = none) (path : NativePath) : ¬ s.Waiting path := by
  rintro (hqueued | ⟨i, l, hl, -⟩ | ⟨i, task, htask, -⟩)
  · have hcounted := hw.agrees.counted
    have hlength := List.length_pos_of_mem hqueued
    omega
  · rw [hfree i] at hl
    cases hl
  · obtain ⟨-, -, houtbox, -⟩ := paced_free (hfree i ▸ hw.paced i)
    rw [houtbox] at htask
    cases htask

theorem pending_iff_queued {s : Scheduler n} (h : Agrees s) (p : RelativePath) :
    s.enumKey p ∈ s.coordinator.pending ↔ p.below s.root ∈ s.queue.paths := by
  constructor
  · intro hp
    exact (h.waiting _ hp rfl).2
  · intro hp
    obtain ⟨p', heq, hp'⟩ := h.queued _ hp
    rw [RelativePath.below_injective heq]
    exact hp'

/-- What a lease of `lease_next_scan` finds in the journal. -/
theorem lease_has_task {s : Scheduler n} (h : Agrees s) {l : WorkLease}
    (hl : s.coordinator.leaseNextScan.2 = some l) :
    ∃ task ∈ s.queue.tasks ++ s.queue.spill, task.path = l.key.path.below s.root := by
  rcases ScanCoordinator.leaseNextScan_handed h.filed with hnone | ⟨l', hl', hscan, hhanded⟩
  · rw [hnone] at hl
    cases hl
  · obtain rfl := Option.some.inj (hl.symm.trans hl')
    exact List.mem_map.mp (h.waiting _ hhanded.waited hscan).2

end Start

/-- Scanner scheduler safety: for every run that nothing disturbs, whatever order the workers'
messages, the focus changes and the other clients of the coordinator come in. -/
theorem scheduler_safety (c : ScanCoordinator) (root : NativePath) (session : ScanSessionId)
    (generation : ScanGeneration) (capacity : Nat) (hc : Vacant c session generation)
    (actions : List (Action n)) (hactions : ∀ a ∈ actions, a.undisturbed = true) :
    let s : Scheduler n := machine.run (start c root session generation capacity) actions
    let seen := record (machine.trace (start c root session generation capacity) actions)
    s.place ≠ .failed .missingTask ∧
    ((∀ error, s.place ≠ .failed error) →
      (∀ l, s.coordinator.leaseNextScan.2 = some l →
        ∃ task ∈ s.queue.tasks ++ s.queue.spill, task.path = l.key.path.below root) ∧
      (∀ p, (⟨session, generation, .EnumerateDirectory, p⟩ : WorkKey) ∈ s.coordinator.pending ↔
        p.below root ∈ s.queue.paths) ∧
      (∀ k ∈ s.coordinator.pending, k.kind = .EnumerateDirectory →
        k = ⟨session, generation, .EnumerateDirectory, k.path⟩) ∧
      (∀ path ∈ s.queue.paths, ∃ p : RelativePath, path = p.below root)) ∧
    (∀ i j l l', s.active i = some l → s.active j = some l' → l.key.path = l'.key.path → i = j) ∧
    (∀ path, seen.countP (handsOut path) ≤
      seen.count (.received path) + if path = root then 1 else 0) ∧
    (s.place = .returned →
      (∃ x ∈ seen, Completes root x) ∧
      ∀ before after path, seen = before ++ .sent path :: after → ∃ x ∈ after, Completes path x) := by
  intro s seen
  have hsteady : Steady root session generation seen s := steady_run hc root capacity hactions
  clear_value s seen
  cases hsteady with
  | on hw hvalid hera hplace history =>
    obtain ⟨hroot, hsession, hgeneration⟩ := hera
    refine ⟨?_, ?_, oneHolder_of_agrees hw.agrees, ?_, ?_⟩
    · intro hfailed
      rw [hfailed] at hplace
      rcases hplace with hplace | ⟨hplace, -⟩
      · cases hplace
      · cases hplace
    · intro _
      subst hroot hsession hgeneration
      refine ⟨fun l => lease_has_task hw.agrees, pending_iff_queued hw.agrees, ?_, ?_⟩
      · intro k hk hkind
        exact (hw.agrees.waiting k hk (by rw [hkind]; rfl)).1
      · intro path hpath
        obtain ⟨p, hp, -⟩ := hw.agrees.queued path hpath
        exact ⟨p, hp⟩
    · intro path
      have hcounted := history.counted path
      omega
    · intro hreturned
      rcases hplace with hworking | ⟨-, hidle, hfree⟩
      · rw [hreturned] at hworking
        cases hworking
      · have hnot := not_waiting hw hidle hfree
        refine ⟨history.rooted.resolve_right (hnot root), ?_⟩
        intro before after path hseen
        exact (history.answered path before after hseen).resolve_right (hnot path)
  | failed error hplace herror hone hcounted =>
    refine ⟨?_, fun hnot => absurd hplace (hnot error), hone, hcounted, ?_⟩
    · rw [hplace]
      intro heq
      exact herror (Place.failed.inj heq)
    · rw [hplace]
      intro heq
      cases heq

def scanRoot : NativePath := [[0x72]]

/-- A scheduler of `n` workers on a new session. -/
def scanStart (n : Nat) : Scheduler n := start (.new ⟨7⟩ ⟨0⟩) scanRoot ⟨7⟩ ⟨0⟩ 8

/-- One worker scans the root, announces one directory and scans that. -/
def twoDirectories : List (Action 1) :=
  let toSelect : List (Action 1) := List.replicate 4 (.turn none)
  toSelect ++ [.receive 0, .send 0 ⟨scanRoot ++ [[0x61]], none⟩, .finishTask 0 .Succeeded,
    .command 0 none true] ++ toSelect ++ [.command 0 none true] ++ toSelect ++
    [.receive 0, .finishTask 0 .Succeeded, .command 0 none true] ++ List.replicate 3 (.turn none)

theorem scheduler_safety_twoDirectories :
    (machine.run (scanStart 1) twoDirectories).place = .returned ∧
      ∃ x ∈ record (machine.trace (scanStart 1) twoDirectories), Completes scanRoot x := by
  have hreturned : (machine.run (scanStart 1) twoDirectories).place = .returned := by
    decide +kernel
  have hsafe := scheduler_safety (.new ⟨7⟩ ⟨0⟩) scanRoot ⟨7⟩ ⟨0⟩ 8 (vacant_new ⟨7⟩ ⟨0⟩)
    twoDirectories (by decide)
  exact ⟨hreturned, (hsafe.2.2.2.2 hreturned).1⟩

end Excise.Scheduler
