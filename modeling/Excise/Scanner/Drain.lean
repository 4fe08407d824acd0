import Excise.Scanner.Directories

/-!
# When a replaced root drains cleanly

`invalidate_scan_work` ends the leases the workers still hold, so the actor then rejects their
completions: a run drains cleanly as long as the actor notices the flag with no lease out.
Here are the runs that do: every completion is accepted, every result is forwarded and every
directory handed out is completed before the actor returns.
-/

namespace Excise.Scheduler
set_option autoImplicit false

variable {n : Nat} {s s' : Scheduler n} {a : Action n} {notices : List (Notice n)}

/-! ## Leases the coordinator still knows -/

structure Accepts (s : Scheduler n) : Prop where
  consistent : s.coordinator.Consistent
  leased : ∀ i l, s.active i = some l → s.coordinator.active[l.id]? = some l

theorem finish_accepted {c : ScanCoordinator} {l : WorkLease} (h : c.active[l.id]? = some l)
    (completion : WorkCompletion) : (c.finish l completion).2 = .Accepted := by
  rw [ScanCoordinator.finish, if_pos h]

theorem active_finish_other {c : ScanCoordinator} {l l' : WorkLease} (h : c.active[l'.id]? = some l')
    (hne : l ≠ l') (completion : WorkCompletion) :
    (c.finish l completion).1.active[l'.id]? = some l' := by
  unfold ScanCoordinator.finish
  split
  · rename_i hl
    rw [ScanCoordinator.recordTerminal_active, ScanCoordinator.getElem?_removeActive, if_neg]
    · exact h
    · intro hid
      rw [hid, h] at hl
      exact hne (Option.some.inj hl).symm
  · exact h

theorem accepts_coordinator (h : Accepts s) {c : ScanCoordinator} (hc : c.Consistent)
    (hactive : c.active = s.coordinator.active) : Accepts { s with coordinator := c } := by
  refine ⟨hc, ?_⟩
  intro i l hl
  show c.active[l.id]? = some l
  rw [hactive]
  exact h.leased i l hl

theorem accepts_hand (h : Accepts s) {i : Fin n} {l : WorkLease}
    (hl : s.coordinator.leaseNextScan.2 = some l) (hroom : s.coordinator.nextLease < satMax 64) :
    s.coordinator.leaseNextScan.1.Consistent ∧
      ∀ j l', Function.update s.active i (some l) j = some l' →
        s.coordinator.leaseNextScan.1.active[l'.id]? = some l' := by
  have hconsistent := ScanCoordinator.consistent_answer h.consistent .leaseNextScan fun _ => hroom
  refine ⟨hconsistent, ?_⟩
  rcases ScanCoordinator.leaseNextScan_granted h.consistent.filed with hnone |
    ⟨w, l', -, -, hl', hgranted⟩
  · rw [hnone] at hl
    cases hl
  obtain rfl := Option.some.inj (hl.symm.trans hl')
  intro j l' hj
  rw [hgranted.active]
  by_cases hji : j = i
  · subst hji
    rw [Function.update_self] at hj
    obtain rfl := Option.some.inj hj
    rw [if_pos rfl]
  · rw [Function.update_of_ne hji] at hj
    have hold := h.leased j l' hj
    rw [if_neg]
    · exact hold
    · intro hid
      have hfresh := h.consistent.fresh _ _ hold
      rw [← hid, hgranted.id_eq] at hfresh
      exact absurd hfresh (lt_irrefl _)

theorem accepts_acquire (h : Accepts s) (kind : WorkKind) (path : RelativePath)
    (priority : WorkPriority) (hroom : s.coordinator.nextLease < satMax 64) :
    Accepts { s with coordinator := (s.coordinator.acquire kind path priority).1 } := by
  obtain ⟨hconsistent, hspec⟩ :=
    ScanCoordinator.acquire_spec h.consistent kind path priority fun _ => hroom
  cases hl : (s.coordinator.acquire kind path priority).2 with
  | none =>
    rw [hl] at hspec
    exact accepts_coordinator h hconsistent hspec.1
  | some l =>
    rw [hl] at hspec
    refine ⟨hconsistent, ?_⟩
    intro i l' hi
    have hold := h.leased i l' hi
    show (s.coordinator.acquire kind path priority).1.active[l'.id]? = some l'
    rw [hspec.active, if_neg]
    · exact hold
    · intro hid
      have hfresh := h.consistent.fresh _ _ hold
      rw [← hid, hspec.id_eq] at hfresh
      exact absurd hfresh (lt_irrefl _)

theorem accepts_move (hw : Working s) (h : Accepts s)
    (hroom : s.coordinator.nextLease < satMax 64) (hm : Move s a s' notices)
    (hplace : ∀ error, s'.place ≠ .failed error) : Accepts s' := by
  cases hm with
  | quitInvalid hinvalid free =>
    have hconsistent := ScanCoordinator.consistent_terminateMatching h.consistent .Invalidated
      ScanCoordinator.isEnumerate
    refine ⟨hconsistent, ?_⟩
    intro i l hl
    rw [free i] at hl
    cases hl
  | focus p => exact ⟨h.consistent.of_eq rfl rfl rfl rfl rfl rfl, h.leased⟩
  | hand i l task q hi hrunning hl hscan hhanded htask hgains hpending =>
    obtain ⟨hconsistent, hleased⟩ := accepts_hand (i := i) h hl hroom
    exact ⟨hconsistent, hleased⟩
  | known i task rest p hbox htask hout hold =>
    have hconsistent := ScanCoordinator.consistent_schedule h.consistent (s.enumKey p) .Background
    have hkept := (ScanCoordinator.schedule_keeps s.coordinator (s.enumKey p) .Background).1
    have haccepts := accepts_coordinator h hconsistent hkept
    exact ⟨haccepts.consistent, haccepts.leased⟩
  | spawn i task rest p q hbox htask hout hgains hpending =>
    have hconsistent := ScanCoordinator.consistent_schedule h.consistent (s.enumKey p) .Background
    have hkept := (ScanCoordinator.schedule_keeps s.coordinator (s.enumKey p) .Background).1
    have haccepts := accepts_coordinator h hconsistent hkept
    exact ⟨haccepts.consistent, haccepts.leased⟩
  | complete i l completion hbox hi hidle hout =>
    refine ⟨ScanCoordinator.consistent_finish h.consistent l completion, ?_⟩
    intro j l' hj
    have hji : j ≠ i := by
      rintro rfl
      simp at hj
    simp only [Function.update_of_ne hji] at hj
    refine active_finish_other (h.leased j l' hj) ?_ completion
    rintro rfl
    exact hji (hw.agrees.exclusive j i l l hj hi rfl)
  | acquire kind path priority hkind => exact accepts_acquire h kind path priority hroom
  | finish lease completion hkind =>
    refine ⟨ScanCoordinator.consistent_finish h.consistent lease completion, ?_⟩
    intro i l hi
    refine active_finish_other (h.leased i l hi) ?_ completion
    rintro rfl
    apply hkind
    rw [(hw.agrees.held i lease hi).1]
    rfl
  | fault s' error notices hfailed hactive herror hquiet => exact absurd hfailed (hplace error)
  | _ => exact ⟨h.consistent, h.leased⟩

/-! ## Results and completions in the record -/

def emittedAs (i : Fin n) : Notice n → Option ScanEvent
  | .emitted j event => if j = i then some event else none
  | _ => none

def forwardedAs (i : Fin n) : Notice n → Option ScanEvent
  | .forwarded j event => if j = i then some event else none
  | _ => none

def emittedBy (i : Fin n) (record : List (Notice n)) : List ScanEvent :=
  record.filterMap (emittedAs i)

def forwardedBy (i : Fin n) (record : List (Notice n)) : List ScanEvent :=
  record.filterMap (forwardedAs i)

theorem forwardedBy_forwarded (i j : Fin n) (events : List ScanEvent) :
    forwardedBy i (events.map (Notice.forwarded j)) = if j = i then events else [] := by
  unfold forwardedBy
  rw [List.filterMap_map]
  by_cases hj : j = i
  · simp [forwardedAs, hj]
  · simp [forwardedAs, hj]

/-- A worker's results leave its channel only by being forwarded. -/
theorem events_move (hm : Move s a s' notices) (hplace : ∀ error, s'.place ≠ .failed error)
    (i : Fin n) :
    (s.workers i).events ++ emittedBy i notices =
      forwardedBy i notices ++ (s'.workers i).events := by
  -- a step that neither emits nor forwards leaves every channel as it was
  have hkept : ∀ {ns : List (Notice n)} {j : Fin n} {w : Worker}, emittedBy i ns = [] →
      forwardedBy i ns = [] → w.events = (s.workers j).events →
      (s.workers i).events ++ emittedBy i ns =
        forwardedBy i ns ++ (Function.update s.workers j w i).events := by
    intro ns j w hemitted hforwarded hw
    rw [hemitted, hforwarded, List.append_nil, List.nil_append]
    by_cases hij : i = j
    · subst hij
      rw [Function.update_self, hw]
    · rw [Function.update_of_ne hij]
  cases hm with
  | hand j l task q hj hrunning hl hscan hhanded htask hgains hpending => exact hkept rfl rfl rfl
  | known j task rest p hbox htask hout hold => exact hkept rfl rfl rfl
  | spawn j task rest p q hbox htask hout hgains hpending => exact hkept rfl rfl rfl
  | complete j l completion hbox hj hidle hout =>
    have hemitted : emittedBy i ((s.workers j).events.map (Notice.forwarded j) ++
        [.completed j (l.key.path.below s.root) l]) = [] := by
      simp [emittedBy, emittedAs]
    have hforwarded : forwardedBy i ((s.workers j).events.map (Notice.forwarded j) ++
        [.completed j (l.key.path.below s.root) l]) =
        if j = i then (s.workers j).events else [] := by
      rw [← forwardedBy_forwarded]
      simp [forwardedBy, forwardedAs]
    rw [hemitted, hforwarded, List.append_nil]
    by_cases hij : i = j
    · subst hij
      simp
    · simp [Function.update_of_ne hij, Ne.symm hij]
  | forward j event rest hev =>
    by_cases hij : i = j
    · subst hij
      simp [emittedBy, forwardedBy, emittedAs, forwardedAs, hev]
    · simp [emittedBy, forwardedBy, emittedAs, forwardedAs, Function.update_of_ne hij,
        Ne.symm hij]
  | work j w notices hwork =>
    cases hwork with
    | receive hrunning hidle => exact hkept rfl rfl rfl
    | send task hheld => exact hkept rfl rfl rfl
    | emit event assignment hheld hempty hsealed =>
      by_cases hij : i = j
      · subst hij
        simp [emittedBy, forwardedBy, emittedAs, forwardedAs, setWorker, hempty]
      · simp [emittedBy, forwardedBy, emittedAs, forwardedAs, setWorker,
          Function.update_of_ne hij, Ne.symm hij]
    | finish assignment completion hheld => exact hkept rfl rfl rfl
  | exit j hinvalid hidle => exact hkept rfl rfl rfl
  | fault s' error notices hfailed hactive herror hquiet => exact absurd hfailed (hplace error)
  | _ => simp [emittedBy, forwardedBy]

/-- A directory handed out and not completed: the actor has the worker down for it. -/
def Out (s : Scheduler n) (i : Fin n) (path : NativePath) (l : WorkLease) : Prop :=
  s.active i = some l ∧ path = l.key.path.below s.root

theorem out_move (hm : Move s a s' notices) (hplace : ∀ error, s'.place ≠ .failed error)
    {i : Fin n} {path : NativePath} {l : WorkLease} (h : s.Out i path l) :
    (∃ x ∈ notices, x = .completed i path l) ∨ s'.Out i path l := by
  obtain ⟨hi, rfl⟩ := h
  cases hm with
  | hand j l' task q hj hrunning hl hscan hhanded htask hgains hpending =>
    have hij : i ≠ j := by
      rintro rfl
      rw [hj] at hi
      cases hi
    refine Or.inr ⟨?_, rfl⟩
    simp only [Function.update_of_ne hij]
    exact hi
  | complete j l' completion hbox hj hidle hout =>
    by_cases hij : i = j
    · subst hij
      obtain rfl := Option.some.inj (hi.symm.trans hj)
      exact Or.inl ⟨_, List.mem_append_right _ (List.mem_singleton.mpr rfl), rfl⟩
    · refine Or.inr ⟨?_, rfl⟩
      simp only [Function.update_of_ne hij]
      exact hi
  | fault s' error notices hfailed hactive herror hquiet => exact absurd hfailed (hplace error)
  | _ => exact Or.inr ⟨hi, rfl⟩

theorem handed_move (hm : Move s a s' notices) (hplace : ∀ error, s'.place ≠ .failed error)
    (i : Fin n) (path : NativePath) (l : WorkLease) :
    Answered (.handed i path l) (· = .completed i path l) (s'.Out i path l) notices := by
  cases hm with
  | hand j l' task q hj hrunning hl hscan hhanded htask hgains hpending =>
    by_cases heq : (.handed i path l : Notice n) = .handed j task.path l'
    · obtain ⟨rfl, rfl, rfl⟩ := Notice.handed.inj heq
      exact .of_due ⟨Function.update_self i (some l) s.active, htask⟩
    · refine .of_not_mem ?_
      intro hmem
      exact heq (List.mem_singleton.mp hmem)
  | work j w notices hwork =>
    refine .of_not_mem ?_
    cases hwork <;> simp
  | fault s' error notices hfailed hactive herror hquiet => exact absurd hfailed (hplace error)
  | _ => exact .of_not_mem (by simp)

structure Carried (s : Scheduler n) (record : List (Notice n)) : Prop where
  events : ∀ i, emittedBy i record = forwardedBy i record ++ (s.workers i).events
  leases : ∀ i path l,
    Answered (.handed i path l) (· = .completed i path l) (s.Out i path l) record

theorem carried_move {record : List (Notice n)} (h : Carried s record)
    (hm : Move s a s' notices) (hplace : ∀ error, s'.place ≠ .failed error) :
    Carried s' (record ++ notices) where
  events i := by
    have hemitted := h.events i
    have hmoved := events_move hm hplace i
    unfold emittedBy forwardedBy at hemitted hmoved ⊢
    rw [List.filterMap_append, List.filterMap_append, hemitted, List.append_assoc, hmoved,
      List.append_assoc]
  leases i path l :=
    (h.leases i path l).append (out_move hm hplace) (handed_move hm hplace i path l)

/-! ## Runs -/

/-- The condition on one step: it meets no replaced root and no closed channel with a lease out,
and lease ids are left. -/
def Drains (s : Scheduler n) (a : Action n) : Prop :=
  s.Safe a ∧ s.coordinator.nextLease < satMax 64

instance decidableReady (s : Scheduler n) : (place : Place) → Decidable (s.Ready place)
  | .head => inferInstanceAs (Decidable (∀ i, s.active i = none))
  | .dispatch worker => inferInstanceAs (Decidable (∀ i : Fin n, i.val = worker →
      s.active i = none → s.coordinator.leaseNextScan.2 = none))
  | .settle | .select | .returned | .cancelled | .stopped | .failed _ => isTrue trivial

instance decidableSafe (s : Scheduler n) : (a : Action n) → Decidable (s.Safe a)
  | .turn _ => inferInstanceAs (Decidable (s.rootInvalid = true → s.Ready s.place))
  | .event i _ => inferInstanceAs (Decidable (s.place = .select → (s.workers i).events = [] →
      (s.workers i).running = false → ∀ j, s.active j = none))
  | .hangup => inferInstanceAs (Decidable (s.place = .select →
      (∀ i, (s.workers i).running = false ∧ (s.workers i).outbox = []) → ∀ j, s.active j = none))
  | .exit _ => inferInstanceAs (Decidable (s.rootInvalid = true))
  | .cancel | .stop => isFalse id
  | .command _ _ _ | .focus _ | .timeout | .receive _ | .send _ _ | .emit _ _ | .finishTask _ _
  | .invalidate _ | .acquire _ _ _ | .finish _ _ => isTrue trivial

instance (s : Scheduler n) (a : Action n) : Decidable (s.Drains a) :=
  inferInstanceAs (Decidable (_ ∧ _))

inductive Drained (record : List (Notice n)) (s : Scheduler n) : Prop where
  | on (hw : Working s) (haccepts : Accepts s)
    (hplace : s.place.working = true ∨ s.place = .returned ∧ ∀ i, s.active i = none)
    (hcarried : Carried s record)
  | off (hplace : s.place = .returned) (hfree : ∀ i, s.active i = none)
    (hpaced : ∀ i, Paced i none (s.workers i)) (hcarried : Carried s record)
  | failed (error : SchedulerError) (hplace : s.place = .failed error)
    (herror : error.outside = true)

/-- After the end, workers that hold nothing stay silent. -/
theorem step_silent (h : s.place.working = false) (hpaced : ∀ i, Paced i none (s.workers i))
    (a : Action n) :
    (s.step a).2 = [] ∧ (∀ i, Paced i none ((s.step a).1.workers i)) ∧
      (s.step a).1.root = s.root := by
  have hidle : ∀ i, (s.workers i).holding = none := fun i => (paced_free (hpaced i)).2.1
  have hset : ∀ {i : Fin n} {w : Worker}, Paced i none w →
      ∀ j, Paced j none (Function.update s.workers i w j) := by
    intro i w hw j
    by_cases hj : j = i
    · subst hj
      rw [Function.update_self]
      exact hw
    · rw [Function.update_of_ne hj]
      exact hpaced j
  cases a with
  | turn io =>
    rw [step, turn_ended h]
    exact ⟨rfl, hpaced, rfl⟩
  | command | hangup | focus | event | timeout =>
    rw [step, selected_ended h]
    exact ⟨rfl, hpaced, rfl⟩
  | receive i =>
    dsimp only [step, receive]
    split
    · rename_i hready
      rw [Bool.and_eq_true, Option.isNone_iff_eq_none] at hready
      exact ⟨rfl, hset (paced_work (hpaced i) (.receive hready.1 hready.2)), rfl⟩
    · exact ⟨rfl, hpaced, rfl⟩
  | send i task =>
    have hstep : s.step (.send i task) = (s, []) := by simp [step, send, hidle i]
    rw [hstep]
    exact ⟨rfl, hpaced, rfl⟩
  | emit i event =>
    have hstep : s.step (.emit i event) = (s, []) := by simp [step, emit, hidle i]
    rw [hstep]
    exact ⟨rfl, hpaced, rfl⟩
  | finishTask i completion =>
    have hstep : s.step (.finishTask i completion) = (s, []) := by simp [step, finishTask, hidle i]
    rw [hstep]
    exact ⟨rfl, hpaced, rfl⟩
  | exit i =>
    dsimp only [step, exit]
    split
    · exact ⟨rfl, hset (paced_exit (hpaced i) (hidle i)), rfl⟩
    · exact ⟨rfl, hpaced, rfl⟩
  | invalidate i =>
    dsimp only [step, invalidate]
    split
    · exact ⟨rfl, hpaced, rfl⟩
    · exact ⟨rfl, hpaced, rfl⟩
  | cancel | stop => exact ⟨rfl, hpaced, rfl⟩
  | acquire | finish =>
    dsimp only [step]
    split
    · exact ⟨rfl, hpaced, rfl⟩
    · exact ⟨rfl, hpaced, rfl⟩

theorem outside_of_move (haccepts : Accepts s) (hm : Move s a s' notices)
    {error : SchedulerError} (hplace : s'.place = .failed error)
    (hrunning : s.place ≠ .failed error) : error.outside = true := by
  cases hm with
  | fault s' error' notices hfailed hactive herror hquiet =>
    obtain rfl := Place.failed.inj (hfailed.symm.trans hplace)
    rcases herror with herror | ⟨-, i, l, completion, hi, hstale⟩
    · exact herror
    · rw [finish_accepted (haccepts.leased i l hi)] at hstale
      cases hstale
  | goto place hworking =>
    obtain rfl : place = .failed error := hplace
    cases hworking
  | still => exact absurd hplace hrunning
  | work i w notices hwork => exact absurd hplace hrunning
  | exit i hinvalid hidle => exact absurd hplace hrunning
  | invalidate i hinvalidate => exact absurd hplace hrunning
  | acquire kind path priority hkind => exact absurd hplace hrunning
  | finish lease completion hkind => exact absurd hplace hrunning
  | _ => cases hplace

theorem returned_move (hm : Move s a s' notices) (hplace : ∀ error, s'.place ≠ .failed error) :
    s'.place = s.place ∨ s'.place.working = true ∨
      s'.place = .returned ∧ ∀ i, s'.active i = none := by
  cases hm with
  | goto place hworking => exact Or.inr (Or.inl hworking)
  | quit free hwhy => exact Or.inr (Or.inr ⟨rfl, free⟩)
  | quitInvalid hinvalid free => exact Or.inr (Or.inr ⟨rfl, free⟩)
  | fault s' error notices hfailed hactive herror hquiet => exact absurd hfailed (hplace error)
  | still => exact Or.inl rfl
  | work i w notices hwork => exact Or.inl rfl
  | exit i hinvalid hidle => exact Or.inl rfl
  | invalidate i hinvalidate => exact Or.inl rfl
  | acquire kind path priority hkind => exact Or.inl rfl
  | finish lease completion hkind => exact Or.inl rfl
  | _ => exact Or.inr (Or.inl rfl)

theorem drained_step {record : List (Notice n)} (h : Drained record s) (hdrains : s.Drains a) :
    Drained (record ++ (s.step a).2) (s.step a).1 := by
  cases h with
  | on hw haccepts hplace hcarried =>
    have hm := move_of_step hw a hdrains.1
    have hstands : ∀ error, s.place ≠ .failed error := by
      rintro error hfailed
      rw [hfailed] at hplace
      rcases hplace with hplace | ⟨hplace, -⟩
      · cases hplace
      · cases hplace
    by_cases hfailed : ∃ error, (s.step a).1.place = .failed error
    · obtain ⟨error, hfailed⟩ := hfailed
      exact .failed error hfailed (outside_of_move haccepts hm hfailed (hstands error))
    · have hnot : ∀ error, (s.step a).1.place ≠ .failed error := fun error herror =>
        hfailed ⟨error, herror⟩
      have hcarried' := carried_move hcarried hm hnot
      have hplace' : (s.step a).1.place.working = true ∨
          (s.step a).1.place = .returned ∧ ∀ i, (s.step a).1.active i = none := by
        rcases hplace with hworking | ⟨hreturned, hfree⟩
        · rcases returned_move hm hnot with hsame | hplace'
          · rw [hsame]
            exact Or.inl hworking
          · exact hplace'
        · obtain ⟨hplace, hactive, -⟩ := step_ended (by rw [hreturned]; rfl) a
          rw [hplace, hactive]
          exact Or.inr ⟨hreturned, hfree⟩
      rcases working_move hw hm with hw' | ⟨hreturned, -, hactive, hworkers⟩ | ⟨error, herror⟩
      · exact .on hw' (accepts_move hw haccepts hdrains.2 hm hnot) hplace' hcarried'
      · rcases hplace' with hworking | ⟨-, hfree⟩
        · rw [hreturned] at hworking
          cases hworking
        · refine .off hreturned hfree ?_ hcarried'
          intro i
          have hnone : s.active i = none := by
            rw [← hactive]
            exact hfree i
          rw [hworkers, ← hnone]
          exact hw.paced i
      · exact absurd herror (hnot error)
  | off hplace hfree hpaced hcarried =>
    have hended : s.place.working = false := by
      rw [hplace]
      rfl
    obtain ⟨hplace', hactive, -⟩ := step_ended hended a
    obtain ⟨hsilent, hpaced', hroot⟩ := step_silent hended hpaced a
    rw [hsilent, List.append_nil]
    refine .off (hplace'.trans hplace) (fun i => by rw [hactive]; exact hfree i) hpaced' ⟨?_, ?_⟩
    · intro i
      rw [hcarried.events i, (paced_free (hpaced i)).2.2.2, (paced_free (hpaced' i)).2.2.2]
    · intro i path l before after hseen
      refine (hcarried.leases i path l before after hseen).imp_right ?_
      rintro ⟨hi, hpath⟩
      rw [hfree i] at hi
      cases hi
  | failed error hplace herror =>
    have hended : s.place.working = false := by
      rw [hplace]
      rfl
    obtain ⟨hplace', -⟩ := step_ended hended a
    exact .failed error (hplace'.trans hplace) herror

theorem drained_run {c : ScanCoordinator} {session : ScanSessionId} {generation : ScanGeneration}
    (h : Vacant c session generation) (hc : c.Consistent) (root : NativePath) (capacity : Nat)
    {actions : List (Action n)}
    (hactions : machine.Along Drains (start c root session generation capacity) actions) :
    Drained (record (machine.trace (start c root session generation capacity) actions))
      (machine.run (start c root session generation capacity) actions) := by
  refine machine.run_induction_along (P := fun h s => Drained (record h) s) ?_ ?_ hactions
  · have hw : Working (start c root session generation capacity : Scheduler n) :=
      working_start h root capacity
    have heq : (start c root session generation capacity : Scheduler n) = _ :=
      start_eq h root capacity
    refine .on hw ⟨?_, ?_⟩ (Or.inl (by rw [heq]; rfl)) ⟨?_, ?_⟩
    · rw [heq]
      exact ScanCoordinator.consistent_schedule hc _ _
    · intro i l hl
      rw [heq] at hl
      cases hl
    · intro i
      rw [heq]
      rfl
    · intro i path l
      exact .of_not_mem (by simp [record])
  · intro h s a hs ha
    rw [record_append]
    exact drained_step hs ha

/-- Root invalidation drains cleanly in every run whose steps all meet `Drains`. -/
theorem root_invalidation_drains (c : ScanCoordinator) (root : NativePath)
    (session : ScanSessionId) (generation : ScanGeneration) (capacity : Nat)
    (hvacant : Vacant c session generation) (hc : c.Consistent) (actions : List (Action n))
    (hactions : machine.Along Drains (start c root session generation capacity) actions) :
    let s : Scheduler n := machine.run (start c root session generation capacity) actions
    let seen := record (machine.trace (start c root session generation capacity) actions)
    (∀ error, s.place = .failed error → error.outside = true) ∧
    ((∀ error, s.place ≠ .failed error) → ∀ i,
      emittedBy i seen = forwardedBy i seen ++ (s.workers i).events ∧
        (s.active i = none → emittedBy i seen = forwardedBy i seen)) ∧
    (s.place = .returned →
      (∀ i, s.active i = none) ∧
      ∀ before after i path l, seen = before ++ .handed i path l :: after →
        .completed i path l ∈ after) := by
  intro s seen
  have hdrained : Drained seen s := drained_run hvacant hc root capacity hactions
  clear_value s seen
  -- a worker the actor has down for nothing has an empty channel
  have hforwarded : Carried s seen → ∀ i, (s.active i = none → (s.workers i).events = []) →
      emittedBy i seen = forwardedBy i seen ++ (s.workers i).events ∧
        (s.active i = none → emittedBy i seen = forwardedBy i seen) := by
    intro hcarried i hempty
    refine ⟨hcarried.events i, ?_⟩
    intro hnone
    rw [hcarried.events i, hempty hnone, List.append_nil]
  have hcompleted : Carried s seen → (∀ i, s.active i = none) →
      ∀ before after i path l, seen = before ++ .handed i path l :: after →
        .completed i path l ∈ after := by
    intro hcarried hfree before after i path l hseen
    rcases hcarried.leases i path l before after hseen with ⟨x, hx, rfl⟩ | ⟨hi, -⟩
    · exact hx
    · rw [hfree i] at hi
      cases hi
  cases hdrained with
  | on hw haccepts hplace hcarried =>
    refine ⟨?_, ?_, ?_⟩
    · intro error hfailed
      rw [hfailed] at hplace
      rcases hplace with hplace | ⟨hplace, -⟩
      · cases hplace
      · cases hplace
    · intro _ i
      refine hforwarded hcarried i ?_
      intro hnone
      exact (paced_free (hnone ▸ hw.paced i)).2.2.2
    · intro hreturned
      rcases hplace with hworking | ⟨-, hfree⟩
      · rw [hreturned] at hworking
        cases hworking
      · exact ⟨hfree, hcompleted hcarried hfree⟩
  | off hplace hfree hpaced hcarried =>
    refine ⟨?_, ?_, fun _ => ⟨hfree, hcompleted hcarried hfree⟩⟩
    · intro error hfailed
      rw [hplace] at hfailed
      cases hfailed
    · intro _ i
      exact hforwarded hcarried i fun _ => (paced_free (hpaced i)).2.2.2
  | failed error hplace herror =>
    refine ⟨?_, fun hnot => absurd hplace (hnot error), ?_⟩
    · intro error' hfailed
      obtain rfl := Place.failed.inj (hplace.symm.trans hfailed)
      exact herror
    · intro hreturned
      rw [hplace] at hreturned
      cases hreturned

/-- The one worker announces a directory, and finds the root replaced after the actor passed the
head of its loop. The actor passes the busy worker over and takes its completion before it looks
at the flag again. -/
def lastLeaseInvalidated : List (Action 1) :=
  List.replicate 4 (.turn none) ++ [.receive (Fin.last 0),
    .send (Fin.last 0) ⟨scanRoot ++ [[0x61]], none⟩, .command (Fin.last 0) none true, .turn none,
    .invalidate (Fin.last 0)] ++ List.replicate 3 (.turn none) ++ [
    .emit (Fin.last 0) (.ScanFailed (some scanRoot) "scan root identity changed during traversal"),
    .finishTask (Fin.last 0) .Invalidated, .command (Fin.last 0) none true, .turn none]

theorem root_invalidation_drains_lastLease :
    (machine.run (scanStart 1) lastLeaseInvalidated).rootInvalidated = true ∧
      (machine.run (scanStart 1) lastLeaseInvalidated).place = .returned ∧
      ∀ i, (machine.run (scanStart 1) lastLeaseInvalidated).active i = none := by
  have hnoticed : (machine.run (scanStart 1) lastLeaseInvalidated).rootInvalidated = true := by
    decide +kernel
  have hreturned : (machine.run (scanStart 1) lastLeaseInvalidated).place = .returned := by
    decide +kernel
  have hsteps : machine.Along Drains (scanStart 1) lastLeaseInvalidated := by decide +kernel
  have hdrains := root_invalidation_drains (.new ⟨7⟩ ⟨0⟩) scanRoot ⟨7⟩ ⟨0⟩ 8
    (vacant_new ⟨7⟩ ⟨0⟩) (ScanCoordinator.consistent_new ⟨7⟩ ⟨0⟩) lastLeaseInvalidated hsteps
  exact ⟨hnoticed, hreturned, (hdrains.2.2 hreturned).1⟩

/-- The actor looks at the flag while the worker still holds the root: it ends the lease and
then rejects the worker's completion. -/
def leaseInvalidated : List (Action 1) :=
  List.replicate 4 (.turn none) ++ [.receive (Fin.last 0), .invalidate (Fin.last 0), .timeout,
    .turn none, .finishTask (Fin.last 0) .Invalidated, .command (Fin.last 0) none true]

theorem completion_rejected_after_invalidation :
    (machine.run (scanStart 1) leaseInvalidated).place = .failed .rejectedCompletion := by
  decide +kernel

end Excise.Scheduler
