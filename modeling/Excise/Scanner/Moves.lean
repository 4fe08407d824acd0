import Excise.Scanner.Journal

/-!
# What one step of the scheduler can do

`Move` lists the moves of a working scheduler with everything they change; `move_of_step`
shows that a step makes one of them. The invariants of the runs are proved move by move and
never look into `step` again. `Safe` says which steps are taken: none that meets a replaced
root or a closed channel while a lease is out.
-/

namespace Excise
set_option autoImplicit false

/-- An error of the task or of the outside world, not of the protocol between the threads. -/
def SchedulerError.outside : SchedulerError → Bool
  | .rootNotAdmitted | .escapedRoot | .invalidPath | .notQueued _ | .journalUnread _
  | .ownerStopped => true
  | _ => false

def Place.working : Place → Bool
  | .head | .dispatch _ | .settle | .select => true
  | .returned | .cancelled | .stopped | .failed _ => false

namespace Scheduler
variable {n : Nat} {s : Scheduler n}

/-! ## Workers and their leases -/

def Enqueues (outbox : List SchedulerCommand) : Prop := ∀ m ∈ outbox, ∃ task, m = .Enqueue task

def SealedBy (l : WorkLease) (events : List ScanEvent) : Prop :=
  ∀ e ∈ events, ∀ lease, e.sealedBy = some lease → lease = some l

/-- Where worker `i` can stand with the lease the actor has it down for. -/
inductive Paced (i : Fin n) : Option WorkLease → Worker → Prop where
  | free (running : Bool) : Paced i none ⟨none, none, [], [], running⟩
  | assigned (task : DirectoryTask) (l : WorkLease) :
    Paced i (some l) ⟨some ⟨task, l⟩, none, [], [], true⟩
  | busy (task : DirectoryTask) (l : WorkLease) (outbox : List SchedulerCommand)
    (events : List ScanEvent) (hout : Enqueues outbox) (hev : SealedBy l events) :
    Paced i (some l) ⟨none, some ⟨task, l⟩, outbox, events, true⟩
  | done (l : WorkLease) (outbox : List SchedulerCommand) (completion : WorkCompletion)
    (events : List ScanEvent) (running : Bool) (hout : Enqueues outbox)
    (hev : SealedBy l events) :
    Paced i (some l) ⟨none, none, outbox ++ [.Complete i l completion], events, running⟩
  | lost (l : WorkLease) : Paced i (some l) ⟨none, none, [], [], false⟩

/-- A step of a worker itself. -/
inductive Work (i : Fin n) (w : Worker) : Worker → List (Notice n) → Prop where
  | receive (hrunning : w.running = true) (hidle : w.holding = none) :
    Work i w { w with inbox := none, holding := w.inbox } []
  | send (task : DirectoryTask) (hheld : w.holding.isSome = true) :
    Work i w { w with outbox := w.outbox ++ [.Enqueue task] } [.sent task.path]
  | emit (event : ScanEvent) (assignment : LeasedDirectoryTask)
    (hheld : w.holding = some assignment) (hroom : w.events = [])
    (hsealed : ∀ lease, event.sealedBy = some lease → lease = some assignment.lease) :
    Work i w { w with events := [event] } [.emitted i event]
  | finish (assignment : LeasedDirectoryTask) (completion : WorkCompletion)
    (hheld : w.holding = some assignment) :
    Work i w { w with
      holding := none, outbox := w.outbox ++ [.Complete i assignment.lease completion] } []

theorem paced_work {i : Fin n} {l : Option WorkLease} {w w' : Worker} {notices : List (Notice n)}
    (h : Paced i l w) (hw : Work i w w' notices) : Paced i l w' := by
  cases hw with
  | receive hrunning hidle =>
    cases h with
    | free running => exact .free running
    | assigned task l =>
      exact .busy task l [] [] (fun m hm => by simp at hm) (fun e he => by simp at he)
    | busy task l outbox events hout hev => cases hidle
    | done l outbox completion events running hout hev =>
      exact .done l outbox completion events running hout hev
    | lost l => cases hrunning
  | send task hheld =>
    cases h with
    | busy task' l outbox events hout hev =>
      refine .busy task' l (outbox ++ [.Enqueue task]) events ?_ hev
      intro m hm
      rcases List.mem_append.mp hm with hm | hm
      · exact hout m hm
      · exact ⟨task, List.mem_singleton.mp hm⟩
    | free running => cases hheld
    | assigned task' l => cases hheld
    | done l outbox completion events running hout hev => cases hheld
    | lost l => cases hheld
  | emit event assignment hheld hroom hsealed =>
    cases h with
    | busy task l outbox events hout hev =>
      obtain rfl := Option.some.inj hheld
      refine .busy task l outbox [event] hout ?_
      intro e he
      obtain rfl := List.mem_singleton.mp he
      exact hsealed
    | free running => cases hheld
    | assigned task' l => cases hheld
    | done l outbox completion events running hout hev => cases hheld
    | lost l => cases hheld
  | finish assignment completion hheld =>
    cases h with
    | busy task l outbox events hout hev =>
      obtain rfl := Option.some.inj hheld
      exact .done l outbox completion events true hout hev
    | free running => cases hheld
    | assigned task' l => cases hheld
    | done l outbox completion events running hout hev => cases hheld
    | lost l => cases hheld

theorem paced_exit {i : Fin n} {l : Option WorkLease} {w : Worker} (h : Paced i l w)
    (hidle : w.holding = none) : Paced i l { w with inbox := none, running := false } := by
  cases h with
  | free running => exact .free false
  | assigned task l => exact .lost l
  | busy task l outbox events hout hev => cases hidle
  | done l outbox completion events running hout hev =>
    exact .done l outbox completion events false hout hev
  | lost l => exact .lost l

/-- The next command of a worker is a task of its directory, or its completion and the last. -/
theorem paced_command {i : Fin n} {l : Option WorkLease} {w : Worker} {m : SchedulerCommand}
    {rest : List SchedulerCommand} (h : Paced i l w) (hbox : w.outbox = m :: rest) :
    (∃ task, m = .Enqueue task ∧ Paced i l { w with outbox := rest }) ∨
      ∃ lease completion, l = some lease ∧ m = .Complete i lease completion ∧ rest = [] ∧
        w.inbox = none ∧ w.holding = none ∧ SealedBy lease w.events := by
  cases h with
  | free running => cases hbox
  | assigned task l => cases hbox
  | lost l => cases hbox
  | busy task l outbox events hout hev =>
    obtain rfl : outbox = m :: rest := hbox
    obtain ⟨task', rfl⟩ := hout m List.mem_cons_self
    refine Or.inl ⟨task', rfl, .busy task l rest events ?_ hev⟩
    intro m hm
    exact hout m (List.mem_cons_of_mem _ hm)
  | done l outbox completion events running hout hev =>
    cases outbox with
    | nil =>
      obtain ⟨rfl, rfl⟩ := List.cons.inj hbox
      exact Or.inr ⟨l, completion, rfl, rfl, rfl, rfl, rfl, hev⟩
    | cons m' outbox =>
      obtain ⟨rfl, rfl⟩ := List.cons.inj hbox
      obtain ⟨task', rfl⟩ := hout m' List.mem_cons_self
      refine Or.inl ⟨task', rfl, .done l outbox completion events running ?_ hev⟩
      intro m hm
      exact hout m (List.mem_cons_of_mem _ hm)

/-- A result in the channel belongs to the lease the worker has. -/
theorem paced_event {i : Fin n} {l : Option WorkLease} {w : Worker} {event : ScanEvent}
    {rest : List ScanEvent} (h : Paced i l w) (hev : w.events = event :: rest) :
    ∃ lease, l = some lease ∧ SealedBy lease w.events ∧ Paced i l { w with events := rest } := by
  have hrest : ∀ {lease : WorkLease}, SealedBy lease (event :: rest) → SealedBy lease rest :=
    fun hs e he => hs e (List.mem_cons_of_mem _ he)
  cases h with
  | free running => cases hev
  | assigned task l => cases hev
  | lost l => cases hev
  | busy task l outbox events hout hsealed =>
    obtain rfl : events = event :: rest := hev
    exact ⟨l, rfl, hsealed, .busy task l outbox rest hout (hrest hsealed)⟩
  | done l outbox completion events running hout hsealed =>
    obtain rfl : events = event :: rest := hev
    exact ⟨l, rfl, hsealed, .done l outbox completion rest running hout (hrest hsealed)⟩

theorem paced_free {i : Fin n} {w : Worker} (h : Paced i none w) :
    w.inbox = none ∧ w.holding = none ∧ w.outbox = [] ∧ w.events = [] := by
  cases h
  exact ⟨rfl, rfl, rfl, rfl⟩

theorem paced_assign {i : Fin n} {w : Worker} (h : Paced i none w) (hrunning : w.running = true)
    (task : DirectoryTask) (l : WorkLease) :
    Paced i (some l) { w with inbox := some ⟨task, l⟩ } := by
  cases h with
  | free running =>
    obtain rfl : running = true := hrunning
    exact .assigned task l

theorem paced_settled {i : Fin n} {w : Worker} (hinbox : w.inbox = none)
    (hholding : w.holding = none) : Paced i none { w with outbox := [], events := [] } := by
  cases w with
  | mk inbox holding outbox events running =>
    obtain rfl : inbox = none := hinbox
    obtain rfl : holding = none := hholding
    exact .free running

theorem forwardWorkerEvent_sealed {l : WorkLease} {event : ScanEvent}
    (h : ∀ lease, event.sealedBy = some lease → lease = some l) (delivered : Bool) :
    forwardWorkerEvent (some l) event false delivered =
      if delivered then .ok () else .error .ownerStopped := by
  unfold forwardWorkerEvent
  cases hs : event.sealedBy with
  | none => simp
  | some lease =>
    obtain rfl := h lease hs
    simp

/-- Sealed results pass, unless the owner is gone. -/
theorem forwardPendingEvents_sealed {l : WorkLease} {events : List ScanEvent}
    (h : SealedBy l events) (delivered : Bool) (i : Fin n) :
    (forwardPendingEvents (some l) false delivered events = (events, .ok ()) ∧
        forwards i delivered events = events.map (Notice.forwarded i)) ∨
      forwardPendingEvents (some l) false delivered events = ([], .error .ownerStopped) := by
  cases delivered with
  | true =>
    refine Or.inl ⟨?_, rfl⟩
    induction events with
    | nil => rfl
    | cons e es ih =>
      have he := forwardWorkerEvent_sealed (h e List.mem_cons_self) true
      have hes := ih fun e' he' => h e' (List.mem_cons_of_mem _ he')
      simp [forwardPendingEvents, he, hes]
  | false =>
    cases events with
    | nil => exact Or.inl ⟨rfl, rfl⟩
    | cons e es =>
      have he := forwardWorkerEvent_sealed (h e List.mem_cons_self) false
      exact Or.inr (by simp [forwardPendingEvents, he])

/-! ## Moves -/

/-- The steps that meet neither a replaced root nor a closed channel while a lease is out. -/
def Ready (s : Scheduler n) : Place → Prop
  | .head => ∀ i, s.active i = none
  | .dispatch worker => ∀ i : Fin n, i.val = worker → s.active i = none →
    s.coordinator.leaseNextScan.2 = none
  | _ => True

def Safe (s : Scheduler n) : Action n → Prop
  | .turn _ => s.rootInvalid = true → s.Ready s.place
  | .event i _ => s.place = .select → (s.workers i).events = [] → (s.workers i).running = false →
    ∀ j, s.active j = none
  | .hangup => s.place = .select → (∀ i, (s.workers i).running = false ∧ (s.workers i).outbox = []) →
    ∀ j, s.active j = none
  | .exit _ => s.rootInvalid = true
  | .cancel | .stop => False
  | _ => True

/-- What a working scheduler, or one that came to its end by itself, owes. -/
structure Working (s : Scheduler n) : Prop where
  cancelled : s.cancelled = false
  failed : s.failed = false
  unnoticed : s.rootInvalidated = false
  running : s.rootInvalid = false → ∀ i, (s.workers i).running = true
  agrees : Agrees s
  paced : ∀ i, Paced i (s.active i) (s.workers i)

inductive Move (s : Scheduler n) (a : Action n) : Scheduler n → List (Notice n) → Prop where
  | still : Move s a s []
  | goto (place : Place) (hplace : place.working = true) : Move s a { s with place := place } []
  | quit (free : ∀ i, s.active i = none)
    (hwhy : s.queue.pending = 0 ∨ a = .hangup ∨ ∃ i, (s.workers i).running = false) :
    Move s a { s with place := .returned } []
  | quitInvalid (hinvalid : s.rootInvalid = true) (free : ∀ i, s.active i = none) :
    Move s a { s with
      coordinator := s.coordinator.invalidateScanWork, rootInvalidated := true
      place := .returned } []
  | focus (p : RelativePath) :
    Move s a { s with coordinator := s.coordinator.focus p, place := .head } []
  | hand (i : Fin n) (l : WorkLease) (task : DirectoryTask) (q : TaskQueue)
    (hi : s.active i = none) (hrunning : (s.workers i).running = true)
    (hl : s.coordinator.leaseNextScan.2 = some l) (hscan : l.key.kind.isScanWork = true)
    (hhanded : ScanCoordinator.Handed s.coordinator s.coordinator.leaseNextScan.1 l.key)
    (htask : task.path = l.key.path.below s.root)
    (hgains : TaskQueue.Gains q s.queue (l.key.path.below s.root))
    (hpending : q.pending = s.queue.pending) :
    Move s a { s with
      coordinator := s.coordinator.leaseNextScan.1, queue := q
      workers := Function.update s.workers i { s.workers i with inbox := some ⟨task, l⟩ }
      active := Function.update s.active i (some l), place := .dispatch (i + 1) }
      [.handed i task.path l]
  | known (i : Fin n) (task : DirectoryTask) (rest : List SchedulerCommand) (p : RelativePath)
    (hbox : (s.workers i).outbox = .Enqueue task :: rest) (htask : task.path = p.below s.root)
    (hout : (s.coordinator.schedule (s.enumKey p) .Background).2 ≠ .Enqueued)
    (hold : task.path ∈ s.queue.paths ∨ ∃ j l, s.active j = some l ∧ l.key = s.enumKey p) :
    Move s a { s with
      coordinator := (s.coordinator.schedule (s.enumKey p) .Background).1
      workers := Function.update s.workers i { s.workers i with outbox := rest }
      place := .head } [.received task.path]
  | spawn (i : Fin n) (task : DirectoryTask) (rest : List SchedulerCommand) (p : RelativePath)
    (q : TaskQueue) (hbox : (s.workers i).outbox = .Enqueue task :: rest)
    (htask : task.path = p.below s.root)
    (hout : (s.coordinator.schedule (s.enumKey p) .Background).2 = .Enqueued)
    (hgains : TaskQueue.Gains s.queue q task.path) (hpending : q.pending = s.queue.pending + 1) :
    Move s a { s with
      coordinator := (s.coordinator.schedule (s.enumKey p) .Background).1, queue := q
      workers := Function.update s.workers i { s.workers i with outbox := rest }
      place := .head } [.received task.path]
  | complete (i : Fin n) (l : WorkLease) (completion : WorkCompletion)
    (hbox : (s.workers i).outbox = [.Complete i l completion]) (hi : s.active i = some l)
    (hidle : (s.workers i).inbox = none ∧ (s.workers i).holding = none)
    (hout : (s.coordinator.finish l completion).2 = .Accepted) :
    Move s a { s with
      coordinator := (s.coordinator.finish l completion).1, queue := s.queue.complete
      workers := Function.update s.workers i { s.workers i with outbox := [], events := [] }
      active := Function.update s.active i none, place := .head }
      ((s.workers i).events.map (Notice.forwarded i) ++
        [.completed i (l.key.path.below s.root) l])
  | forward (i : Fin n) (event : ScanEvent) (rest : List ScanEvent)
    (hev : (s.workers i).events = event :: rest) :
    Move s a { s with
      workers := Function.update s.workers i { s.workers i with events := rest }
      place := .head } [.forwarded i event]
  | work (i : Fin n) (w : Worker) (notices : List (Notice n))
    (hw : Work i (s.workers i) w notices) : Move s a (s.setWorker i w) notices
  | exit (i : Fin n) (hinvalid : s.rootInvalid = true) (hidle : (s.workers i).holding = none) :
    Move s a
      (s.setWorker i { s.workers i with inbox := none, running := false }) []
  | invalidate (i : Fin n) (ha : a = .invalidate i) :
    Move s a { s with rootInvalid := true } []
  | acquire (kind : WorkKind) (path : RelativePath) (priority : WorkPriority)
    (hkind : kind ≠ .EnumerateDirectory) :
    Move s a { s with coordinator := (s.coordinator.acquire kind path priority).1 } []
  | finish (lease : WorkLease) (completion : WorkCompletion)
    (hkind : lease.key.kind ≠ .EnumerateDirectory) :
    Move s a { s with coordinator := (s.coordinator.finish lease completion).1 } []
  | fault (s' : Scheduler n) (error : SchedulerError) (notices : List (Notice n))
    (hplace : s'.place = .failed error) (hactive : s'.active = s.active)
    (herror : error.outside = true ∨
      (error = .rejectedCompletion ∧ ∃ i l completion, s.active i = some l ∧
        (s.coordinator.finish l completion).2 = .StaleLease))
    (hquiet : ∀ x ∈ notices, (∃ path, x = .received path) ∨ ∃ i event, x = .forwarded i event) :
    Move s a s' notices

theorem allFree_iff (s : Scheduler n) : s.allFree = true ↔ ∀ i, s.active i = none := by
  simp [allFree]

theorem move_loopHead (hw : Working s) (hsafe : s.rootInvalid = true → ∀ i, s.active i = none)
    (a : Action n) : Move s a s.loopHead [] := by
  by_cases hinvalid : s.rootInvalid = true
  · have hfree := hsafe hinvalid
    have heq : s.loopHead = { s with
        coordinator := s.coordinator.invalidateScanWork, rootInvalidated := true
        place := .returned } := by
      simp [loopHead, hinvalid, hw.unnoticed, allFree, hfree]
    rw [heq]
    exact .quitInvalid hinvalid hfree
  · have heq : s.loopHead = { s with place := .dispatch 0 } := by
      simp [loopHead, hinvalid, hw.cancelled, hw.failed, hw.unnoticed]
    rw [heq]
    exact .goto (.dispatch 0) rfl

theorem move_fail (s s' : Scheduler n) (a : Action n) (error : SchedulerError)
    (herror : error.outside = true) (hactive : s'.active = s.active) (notices : List (Notice n))
    (hquiet : ∀ x ∈ notices, (∃ path, x = .received path) ∨ ∃ i event, x = .forwarded i event) :
    Move s a (s'.fail error) notices :=
  .fault (s'.fail error) error notices rfl hactive (Or.inl herror) hquiet

/-- With no flag set the leased task is in the journal: the coordinator never selects a
missing one. -/
theorem leaseTask_cases (hw : Working s)
    (hsafe : s.rootInvalid = true → s.coordinator.leaseNextScan.2 = none) (io : Option String) :
    s.leaseTask io = (s, .ok none) ∨
      (∃ s' error, s.leaseTask io = (s', .error (.journalUnread error)) ∧ s'.active = s.active) ∨
      ∃ l task q, s.leaseTask io =
          ({ s with coordinator := s.coordinator.leaseNextScan.1, queue := q },
            .ok (some ⟨task, l⟩)) ∧
        s.coordinator.leaseNextScan.2 = some l ∧ l.key.kind.isScanWork = true ∧
        ScanCoordinator.Handed s.coordinator s.coordinator.leaseNextScan.1 l.key ∧
        task.path = l.key.path.below s.root ∧
        TaskQueue.Gains q s.queue (l.key.path.below s.root) ∧ q.pending = s.queue.pending := by
  rcases ScanCoordinator.leaseNextScan_handed hw.agrees.filed with hnone | ⟨l, hl, hscan, hhanded⟩
  · exact Or.inl (by simp [leaseTask, hnone])
  have hpair : s.coordinator.leaseNextScan = (s.coordinator.leaseNextScan.1, some l) := by
    rw [← hl]
  have hflag : s.stopFlag = false := by
    have hvalid : s.rootInvalid = false := by
      rw [Bool.eq_false_iff]
      intro hinvalid
      rw [hsafe hinvalid] at hl
      cases hl
    simp [stopFlag, hw.cancelled, hw.failed, hvalid]
  have hqueued := (hw.agrees.waiting _ hhanded.waited hscan).2
  have hpending : s.queue.pending ≠ 0 := by
    have hcounted := hw.agrees.counted
    have hlength := List.length_pos_of_mem hqueued
    omega
  rw [← hw.agrees.root] at hqueued
  have htake := TaskQueue.takePath_queued hqueued hpending io
  rw [hw.agrees.root] at htake
  rcases htake with ⟨error, herror⟩ | ⟨q, task, htake, hrest⟩
  · refine Or.inr (Or.inl ⟨{ s with coordinator := s.coordinator.leaseNextScan.1 }, error, ?_, rfl⟩)
    rw [leaseTask, hpair]
    simp [hflag, herror]
  · refine Or.inr (Or.inr ⟨l, task, q, ?_, hl, hscan, hhanded, hrest⟩)
    rw [leaseTask, hpair]
    simp [hflag, htake]

theorem move_dispatchReady (hw : Working s) (i : Fin n)
    (hready : s.rootInvalid = true → s.active i = none → s.coordinator.leaseNextScan.2 = none)
    (io : Option String) (a : Action n) :
    Move s a (s.dispatchReady i io).1 (s.dispatchReady i io).2 := by
  unfold dispatchReady
  by_cases hi : (s.active i).isSome = true
  · rw [if_pos hi]
    exact .goto (.dispatch (i + 1)) rfl
  · rw [if_neg hi]
    have hnone : s.active i = none := by simpa using hi
    have hsafe : s.rootInvalid = true → s.coordinator.leaseNextScan.2 = none :=
      fun hinvalid => hready hinvalid hnone
    rcases leaseTask_cases hw hsafe io with htask | ⟨s', error, htask, hactive⟩ |
      ⟨l, task, q, htask, hl, hscan, hhanded, hpath, hgains, hpending⟩
    · rw [htask]
      exact .goto .settle rfl
    · rw [htask]
      exact move_fail s s' a _ rfl hactive [] (fun x hx => by simp at hx)
    · rw [htask]
      obtain ⟨hinbox, -, -, -⟩ := paced_free (hnone ▸ hw.paced i)
      have hvalid : s.rootInvalid = false := by
        rw [Bool.eq_false_iff]
        intro hinvalid
        rw [hsafe hinvalid] at hl
        cases hl
      dsimp only
      rw [assign, if_neg (by simp [hw.running hvalid i]), if_neg (by simp [hinbox])]
      exact .hand i l task q hnone (hw.running hvalid i) hl hscan hhanded hpath hgains hpending

theorem move_turn (hw : Working s) (io : Option String) (a : Action n)
    (hsafe : s.rootInvalid = true → s.Ready s.place) :
    Move s a (s.turn io).1 (s.turn io).2 := by
  unfold turn
  cases hplace : s.place with
  | head =>
    rw [hplace] at hsafe
    exact move_loopHead hw hsafe a
  | dispatch worker =>
    rw [hplace] at hsafe
    dsimp only
    split
    · exact move_dispatchReady hw _ (fun hinvalid => hsafe hinvalid _ rfl) io a
    · exact .goto .settle rfl
  | settle =>
    dsimp only
    by_cases hidle : (s.queue.isIdle && s.allFree) = true
    · rw [if_pos hidle]
      rw [Bool.and_eq_true, allFree_iff] at hidle
      exact .quit hidle.2 (Or.inl (by simpa [TaskQueue.isIdle] using hidle.1))
    · rw [if_neg hidle]
      exact .goto .select rfl
  | select => exact .still
  | returned => exact .still
  | cancelled => exact .still
  | stopped => exact .still
  | failed error => exact .still

/-- What registering a task finds. -/
inductive Registered (s : Scheduler n) (task : DirectoryTask) :
    Scheduler n × Except SchedulerError Bool → Prop where
  | refused (error : SchedulerError) (herror : error.outside = true) :
    Registered s task (s, .error error)
  | stale (s' : Scheduler n) (p : RelativePath) (hpath : task.path = p.below s.root)
    (hera : (s.enumKey p).session ≠ s.coordinator.session ∨
      (s.enumKey p).generation ≠ s.coordinator.generation) :
    Registered s task (s', .error .staleEra)
  | known (p : RelativePath) (hpath : task.path = p.below s.root)
    (hout : (s.coordinator.schedule (s.enumKey p) .Background).2 ≠ .Enqueued)
    (hold : s.enumKey p ∈ s.coordinator.pending ∨ s.enumKey p ∈ s.coordinator.activeByKey) :
    Registered s task
      ({ s with coordinator := (s.coordinator.schedule (s.enumKey p) .Background).1 }, .ok false)
  | admitted (p : RelativePath) (hpath : task.path = p.below s.root)
    (hout : (s.coordinator.schedule (s.enumKey p) .Background).2 = .Enqueued) :
    Registered s task
      ({ s with coordinator := (s.coordinator.schedule (s.enumKey p) .Background).1 }, .ok true)

theorem registered_registerTask (s : Scheduler n) (task : DirectoryTask) :
    Registered s task (s.registerTask task) := by
  unfold registerTask
  cases hkey : taskKey s.session s.generation s.root task.path with
  | error error =>
    refine .refused error ?_
    rcases taskKey_error hkey with rfl | rfl
    · rfl
    · rfl
  | ok key =>
    obtain ⟨p, hpath, hp⟩ := taskKey_ok hkey
    obtain rfl : key = s.enumKey p := hp
    have hreported := ScanCoordinator.schedule_reported s.coordinator (s.enumKey p) .Background
    have hknown := @Registered.known n s task p hpath
    have hadmitted := @Registered.admitted n s task p hpath
    dsimp only
    rcases hscheduled : s.coordinator.schedule (s.enumKey p) .Background with ⟨c, outcome⟩
    rw [hscheduled] at hreported hknown hadmitted
    cases outcome with
    | Enqueued => exact hadmitted rfl
    | PriorityRaised => exact hknown (fun h => by cases h) (Or.inl hreported)
    | AlreadyPending => exact hknown (fun h => by cases h) (Or.inl hreported)
    | AlreadyLeased => exact hknown (fun h => by cases h) (Or.inr hreported)
    | StaleSession => exact .stale _ p hpath (Or.inl hreported)
    | StaleGeneration => exact .stale _ p hpath (Or.inr hreported)

theorem move_enqueue (hw : Working s) (io : Option String) (a : Action n) {i : Fin n}
    {task : DirectoryTask} {rest : List SchedulerCommand}
    (hbox : (s.workers i).outbox = .Enqueue task :: rest) :
    Move s a ((s.setWorker i { s.workers i with outbox := rest }).enqueue task io).1
      ((s.setWorker i { s.workers i with outbox := rest }).enqueue task io).2 := by
  have hquiet : ∀ x ∈ [(.received task.path : Notice n)],
      (∃ path, x = .received path) ∨ ∃ i event, x = .forwarded i event := by
    intro x hx
    exact Or.inl ⟨task.path, List.mem_singleton.mp hx⟩
  have hreg := registered_registerTask (s.setWorker i { s.workers i with outbox := rest }) task
  unfold enqueue
  generalize (s.setWorker i { s.workers i with outbox := rest }).registerTask task = outcome at hreg
  cases hreg with
  | refused error herror =>
    refine move_fail s _ a error herror ?_ _ hquiet
    rfl
  | stale s' p hpath hera =>
    rcases hera with hera | hera
    · exact absurd hw.agrees.session.symm hera
    · exact absurd hw.agrees.generation.symm hera
  | known p hpath hout hold =>
    refine .known i task rest p hbox hpath hout ?_
    rcases hold with hold | hold
    · rw [hpath]
      exact Or.inl (hw.agrees.waiting _ hold rfl).2
    · exact Or.inr (hw.agrees.owner _ hold rfl)
  | admitted p hpath hout =>
    dsimp only
    cases hq : (s.setWorker i { s.workers i with outbox := rest }).queue.schedule task io with
    | error error =>
      refine move_fail s _ a (.notQueued error) rfl ?_ _ hquiet
      rfl
    | ok q =>
      obtain ⟨hgains, hpending⟩ := TaskQueue.schedule_ok hq
      exact .spawn i task rest p q hbox hpath hout hgains hpending

theorem completeLease_cases (s : Scheduler n) {i : Fin n} {l : WorkLease}
    (completion : WorkCompletion) (hi : s.active i = some l) :
    ((s.coordinator.finish l completion).2 = .Accepted ∧
      s.completeLease i l completion =
        ({ s with
            coordinator := (s.coordinator.finish l completion).1
            active := Function.update s.active i none
            queue := s.queue.complete }, .ok ())) ∨
      (s.coordinator.finish l completion).2 = .StaleLease ∧
        ∃ s', s.completeLease i l completion = (s', .error .rejectedCompletion) ∧
          s'.active = s.active := by
  unfold completeLease
  rw [hi]
  dsimp only
  rw [if_neg (fun h => h rfl)]
  rcases s.coordinator.finish l completion with ⟨c, outcome⟩
  cases outcome with
  | Accepted => exact Or.inl ⟨rfl, rfl⟩
  | StaleLease => exact Or.inr ⟨rfl, _, rfl, rfl⟩

theorem move_complete (hw : Working s) (delivered : Bool) (a : Action n) {i : Fin n}
    {l : WorkLease} {completion : WorkCompletion}
    (hbox : (s.workers i).outbox = [.Complete i l completion]) (hi : s.active i = some l)
    (hidle : (s.workers i).inbox = none ∧ (s.workers i).holding = none)
    (hsealed : SealedBy l (s.workers i).events) :
    Move s a ((s.setWorker i { s.workers i with outbox := [] }).complete i l completion delivered).1
      ((s.setWorker i { s.workers i with outbox := [] }).complete i l completion delivered).2 := by
  generalize htaken : s.setWorker i { s.workers i with outbox := [] } = taken
  have hactive : taken.active i = some l := by rw [← htaken]; exact hi
  have hcancelled : taken.cancelled = false := by rw [← htaken]; exact hw.cancelled
  have hevents : (taken.workers i).events = (s.workers i).events := by
    rw [← htaken]
    simp [setWorker]
  unfold complete
  rw [dif_pos i.isLt]
  dsimp only
  rcases forwardPendingEvents_sealed hsealed delivered i with ⟨hpass, hforwards⟩ | hstopped
  · have hpass' : forwardPendingEvents (taken.active i) taken.cancelled delivered
        (taken.workers i).events = ((s.workers i).events, .ok ()) := by
      rw [hactive, hcancelled, hevents, hpass]
    rw [Fin.eta, hpass']
    dsimp only
    rw [hforwards, hevents, List.drop_length]
    have hcases := completeLease_cases
      (taken.setWorker i { taken.workers i with events := [] }) completion hactive
    simp only [setWorker] at hcases
    rcases hcases with ⟨hout, heq⟩ | ⟨hout, s', heq, hs'⟩
    · rw [heq]
      subst htaken
      have hmove := Move.complete (a := a) i l completion hbox hi hidle hout
      simp only [setWorker, Function.update_self, Function.update_idem]
      exact hmove
    · rw [heq]
      subst htaken
      refine .fault _ .rejectedCompletion _ rfl hs' (Or.inr ⟨rfl, i, l, completion, hi, hout⟩) ?_
      intro x hx
      obtain ⟨event, -, rfl⟩ := List.mem_map.mp hx
      exact Or.inr ⟨i, event, rfl⟩
  · have hstopped' : forwardPendingEvents (taken.active i) taken.cancelled delivered
        (taken.workers i).events = ([], .error .ownerStopped) := by
      rw [hactive, hcancelled, hevents, hstopped]
    have hnone : forwards i delivered [] = ([] : List (Notice n)) := by
      cases delivered <;> rfl
    rw [Fin.eta, hstopped']
    dsimp only
    rw [hnone]
    subst htaken
    refine move_fail s _ a .ownerStopped rfl ?_ [] ?_
    · rfl
    · intro x hx
      cases hx

theorem move_command (hw : Working s) (i : Fin n) (io : Option String) (delivered : Bool)
    (a : Action n) : Move s a (s.command i io delivered).1 (s.command i io delivered).2 := by
  unfold command
  cases hbox : (s.workers i).outbox with
  | nil => exact .still
  | cons m rest =>
    dsimp only
    rcases paced_command (hw.paced i) hbox with ⟨task, rfl, -⟩ |
      ⟨lease, completion, hi, rfl, rfl, hinbox, hholding, hsealed⟩
    · exact move_enqueue hw io a hbox
    · exact move_complete hw delivered a hbox hi ⟨hinbox, hholding⟩ hsealed

theorem move_hangup (hplace : s.place = .select) (hsafe : s.Safe .hangup) :
    Move s .hangup s.hangup.1 s.hangup.2 := by
  unfold hangup
  split
  · rename_i hgone
    have hfree := hsafe hplace hgone
    rw [if_pos ((allFree_iff s).mpr hfree)]
    exact .quit hfree (Or.inr (Or.inl rfl))
  · exact .still

theorem move_focus (path : NativePath) (a : Action n) : Move s a (s.focus path) [] := by
  unfold focus
  split
  · exact .goto .head rfl
  · exact .focus _

theorem move_event (hw : Working s) (hplace : s.place = .select) (i : Fin n) (delivered : Bool)
    (hsafe : s.Safe (.event i delivered)) (a : Action n) :
    Move s a (s.event i delivered).1 (s.event i delivered).2 := by
  unfold event
  cases hevents : (s.workers i).events with
  | nil =>
    dsimp only
    split
    · exact .still
    · rename_i hrunning
      have hgone : (s.workers i).running = false := by simpa using hrunning
      have hfree := hsafe hplace hevents hgone
      rw [if_neg (by simp [hfree i])]
      exact .quit hfree (Or.inr (Or.inr ⟨i, hgone⟩))
  | cons event rest =>
    obtain ⟨lease, hi, hsealed, -⟩ := paced_event (hw.paced i) hevents
    rw [hevents] at hsealed
    have hforward := forwardWorkerEvent_sealed (hsealed event List.mem_cons_self) delivered
    have hforward' : forwardWorkerEvent (s.active i) event s.cancelled delivered =
        if delivered then .ok () else .error .ownerStopped := by
      rw [hi, hw.cancelled, hforward]
    dsimp only
    rw [hforward']
    cases delivered with
    | true => exact .forward i event rest hevents
    | false =>
      refine move_fail s _ a .ownerStopped rfl ?_ [] ?_
      · rfl
      · intro x hx
        cases hx

/-- A step of a working scheduler makes one of the moves. -/
theorem move_of_step (hw : Working s) (a : Action n) (hsafe : s.Safe a) :
    Move s a (s.step a).1 (s.step a).2 := by
  have hselected : ∀ next : Scheduler n × List (Notice n),
      (s.place = .select → Move s a next.1 next.2) →
        Move s a (s.selected next).1 (s.selected next).2 := by
    intro next hnext
    unfold selected
    split
    · rename_i hplace
      exact hnext hplace
    · exact .still
  cases a with
  | turn io => exact move_turn hw io _ hsafe
  | command i io delivered => exact hselected _ fun _ => move_command hw i io delivered _
  | hangup => exact hselected _ fun hplace => move_hangup hplace hsafe
  | focus path => exact hselected _ fun _ => move_focus path _
  | event i delivered => exact hselected _ fun hplace => move_event hw hplace i delivered hsafe _
  | timeout => exact hselected _ fun _ => .goto .head rfl
  | receive i =>
    simp only [step, receive]
    split
    · rename_i hready
      rw [Bool.and_eq_true, Option.isNone_iff_eq_none] at hready
      exact .work i _ [] (.receive hready.1 hready.2)
    · exact .still
  | send i task =>
    simp only [step, send]
    split
    · rename_i hheld
      exact .work i _ _ (.send task hheld)
    · exact .still
  | emit i event =>
    simp only [step, emit]
    split
    · exact .still
    · rename_i assignment hheld
      split
      · rename_i hready
        refine .work i _ _ (.emit event assignment hheld hready.1 ?_)
        intro lease hlease
        simpa [hlease] using hready.2
      · exact .still
  | finishTask i completion =>
    simp only [step, finishTask]
    cases hheld : (s.workers i).holding with
    | none => exact .still
    | some assignment => exact .work i _ [] (.finish assignment completion hheld)
  | exit i =>
    have hinvalid : s.rootInvalid = true := hsafe
    simp only [step, exit]
    split
    · rename_i hready
      rw [Bool.and_eq_true, Option.isNone_iff_eq_none] at hready
      have hflag : (s.cancelled || !s.stopFlag) = s.cancelled := by simp [stopFlag, hinvalid]
      rw [hflag]
      exact .exit i hinvalid hready.2
    · exact .still
  | invalidate i =>
    simp only [step, invalidate]
    split
    · exact .invalidate i rfl
    · exact .still
  | cancel => exact hsafe.elim
  | stop => exact hsafe.elim
  | acquire kind path priority =>
    simp only [step]
    split
    · exact .still
    · rename_i hkind
      exact .acquire kind path priority hkind
  | finish lease completion =>
    simp only [step]
    split
    · exact .still
    · rename_i hkind
      exact .finish lease completion hkind

/-- What a move leaves: the invariant, the noticed end of an invalid root, or a failure. -/
theorem working_move (hw : Working s) {a : Action n} {s' : Scheduler n}
    {notices : List (Notice n)} (hm : Move s a s' notices) :
    Working s' ∨ (s'.place = .returned ∧ s'.rootInvalidated = true ∧ s'.active = s.active ∧
      s'.workers = s.workers) ∨ ∃ error, s'.place = .failed error := by
  have hset : ∀ {i : Fin n} {l : Option WorkLease} {w : Worker} {active : Fin n → Option WorkLease},
      active i = l → (∀ j, j ≠ i → active j = s.active j) → Paced i l w →
      ∀ j, Paced j (active j) (Function.update s.workers i w j) := by
    intro i l w active hi hj hpaced j
    by_cases hji : j = i
    · subst hji
      rw [hi, Function.update_self]
      exact hpaced
    · rw [hj j hji, Function.update_of_ne hji]
      exact hw.paced j
  have hrun : ∀ {i : Fin n} {w : Worker}, w.running = (s.workers i).running →
      s.rootInvalid = false → ∀ j, (Function.update s.workers i w j).running = true := by
    intro i w hwi hvalid j
    by_cases hji : j = i
    · subst hji
      rw [Function.update_self, hwi]
      exact hw.running hvalid j
    · rw [Function.update_of_ne hji]
      exact hw.running hvalid j
  cases hm with
  | still => exact Or.inl hw
  | goto place hplace =>
    exact Or.inl ⟨hw.cancelled, hw.failed, hw.unnoticed, hw.running,
      hw.agrees.of_same rfl rfl rfl rfl rfl rfl, hw.paced⟩
  | quit free hwhy =>
    exact Or.inl ⟨hw.cancelled, hw.failed, hw.unnoticed, hw.running,
      hw.agrees.of_same rfl rfl rfl rfl rfl rfl, hw.paced⟩
  | quitInvalid hinvalid free => exact Or.inr (Or.inl ⟨rfl, rfl, rfl, rfl⟩)
  | focus p =>
    exact Or.inl ⟨hw.cancelled, hw.failed, hw.unnoticed, hw.running,
      (agrees_focus hw.agrees p).of_same rfl rfl rfl rfl rfl rfl, hw.paced⟩
  | hand i l task q hi hrunning hl hscan hhanded htask hgains hpending =>
    refine Or.inl ⟨hw.cancelled, hw.failed, hw.unnoticed, hrun rfl,
      (agrees_hand hw.agrees hhanded hscan hgains hpending hi).of_same rfl rfl rfl rfl rfl rfl, ?_⟩
    refine hset (Function.update_self i (some l) s.active)
      (fun j hj => Function.update_of_ne hj (some l) s.active) ?_
    exact paced_assign (hi ▸ hw.paced i) hrunning task l
  | known i task rest p hbox htask hout hold =>
    refine Or.inl ⟨hw.cancelled, hw.failed, hw.unnoticed, hrun rfl,
      (agrees_known hw.agrees hout).of_same rfl rfl rfl rfl rfl rfl, ?_⟩
    refine hset rfl (fun _ _ => rfl) ?_
    rcases paced_command (hw.paced i) hbox with ⟨_, -, hpaced⟩ | ⟨_, _, -, hcommand, -⟩
    · exact hpaced
    · cases hcommand
  | spawn i task rest p q hbox htask hout hgains hpending =>
    rw [htask] at hgains
    refine Or.inl ⟨hw.cancelled, hw.failed, hw.unnoticed, hrun rfl,
      (agrees_of_admitted hw.agrees hout hgains hpending).of_same rfl rfl rfl rfl rfl rfl, ?_⟩
    refine hset rfl (fun _ _ => rfl) ?_
    rcases paced_command (hw.paced i) hbox with ⟨_, -, hpaced⟩ | ⟨_, _, -, hcommand, -⟩
    · exact hpaced
    · cases hcommand
  | complete i l completion hbox hi hidle hout =>
    refine Or.inl ⟨hw.cancelled, hw.failed, hw.unnoticed, hrun rfl,
      (agrees_complete hw.agrees hi hout).of_same rfl rfl rfl rfl rfl rfl, ?_⟩
    refine hset (Function.update_self i none s.active)
      (fun j hj => Function.update_of_ne hj none s.active) ?_
    exact paced_settled hidle.1 hidle.2
  | forward i event rest hev =>
    refine Or.inl ⟨hw.cancelled, hw.failed, hw.unnoticed, hrun rfl,
      hw.agrees.of_same rfl rfl rfl rfl rfl rfl, ?_⟩
    refine hset rfl (fun _ _ => rfl) ?_
    obtain ⟨_, -, -, hpaced⟩ := paced_event (hw.paced i) hev
    exact hpaced
  | work i w notices hwork =>
    refine Or.inl ⟨hw.cancelled, hw.failed, hw.unnoticed, hrun ?_,
      hw.agrees.of_same rfl rfl rfl rfl rfl rfl, ?_⟩
    · cases hwork <;> rfl
    · exact hset rfl (fun _ _ => rfl) (paced_work (hw.paced i) hwork)
  | exit i hinvalid hidle =>
    refine Or.inl ⟨hw.cancelled, hw.failed, hw.unnoticed, ?_,
      hw.agrees.of_same rfl rfl rfl rfl rfl rfl, ?_⟩
    · intro hvalid
      exact absurd (hinvalid.symm.trans hvalid) (by decide)
    · exact hset rfl (fun _ _ => rfl) (paced_exit (hw.paced i) hidle)
  | invalidate i ha =>
    refine Or.inl ⟨hw.cancelled, hw.failed, hw.unnoticed, ?_,
      hw.agrees.of_same rfl rfl rfl rfl rfl rfl, hw.paced⟩
    intro hvalid
    cases hvalid
  | acquire kind path priority hkind =>
    exact Or.inl ⟨hw.cancelled, hw.failed, hw.unnoticed, hw.running,
      agrees_acquire hw.agrees hkind path priority, hw.paced⟩
  | finish lease completion hkind =>
    exact Or.inl ⟨hw.cancelled, hw.failed, hw.unnoticed, hw.running,
      agrees_finishOther hw.agrees hkind completion, hw.paced⟩
  | fault s' error notices hplace hactive herror hquiet => exact Or.inr (Or.inr ⟨error, hplace⟩)

end Scheduler

end Excise
