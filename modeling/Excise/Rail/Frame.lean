import Excise.Rail.State

/-!
# What stays of an item

No operation changes the id, the paths or the granted budget of an item, and only
`enqueue_confirmation` puts one on the rail.
-/

namespace Excise
set_option autoImplicit false

def DeletionWorkItem.terms (item : DeletionWorkItem) :
    DeletionWorkId × NativePath × RelativePath × Nat :=
  (item.id, item.path, item.relativePath, item.historyBytes)

namespace DeletionWork

/-- Items may leave; those that stay keep their terms and their order. -/
def Thins (w w' : DeletionWork) : Prop :=
  (w'.items.map DeletionWorkItem.terms).Sublist (w.items.map DeletionWorkItem.terms)

variable {w w' w'' : DeletionWork}

theorem Thins.of_sublist (h : w'.items.Sublist w.items) : Thins w w' :=
  h.map DeletionWorkItem.terms

theorem Thins.of_eq (h : w'.items = w.items) : Thins w w' := .of_sublist (by rw [h])

theorem Thins.refl (w : DeletionWork) : Thins w w := .of_eq rfl

theorem Thins.trans (h : Thins w w') (h' : Thins w' w'') : Thins w w'' := List.Sublist.trans h' h

theorem thins_updateItem (w : DeletionWork) (id : DeletionWorkId)
    {f : DeletionWorkItem → DeletionWorkItem} (h : ∀ x, (f x).terms = x.terms) :
    Thins w (w.updateItem id f) := by
  unfold Thins updateItem
  rw [Keyed.map_updateFirst h]

theorem thins_removeItem (w : DeletionWork) (id : DeletionWorkId) : Thins w (w.removeItem id) :=
  .of_sublist List.eraseP_sublist

/-! ## Leases -/

theorem takeLease_items (w : DeletionWork) (id : DeletionWorkId) :
    (w.takeLease id).1.items = w.items := by
  unfold takeLease
  split <;> rfl

theorem finishLease_items (w : DeletionWork) (id : DeletionWorkId) (completion : WorkCompletion) :
    (w.finishLease id completion).1.items = w.items := by
  have hitems := takeLease_items w id
  unfold finishLease
  split <;> rename_i heq <;> rw [heq] at hitems <;> exact hitems

theorem requeueLease_items (w : DeletionWork) (id : DeletionWorkId) :
    (w.requeueLease id).1.items = w.items := by
  have hitems := takeLease_items w id
  unfold requeueLease
  split <;> rename_i heq <;> rw [heq] at hitems <;> exact hitems

theorem rememberLease_items (w : DeletionWork) (id : DeletionWorkId) (lease : WorkLease) :
    (w.rememberLease id lease).items = w.items := by
  unfold rememberLease
  split <;> rfl

/-! ## Taking a command and giving it back -/

theorem thins_nextPlanningCommand (w : DeletionWork) : Thins w w.nextPlanningCommand.1 := by
  unfold nextPlanningCommand
  split
  · exact .refl w
  split
  · exact .refl w
  rename_i item hfind
  cases hacquired : w.acquireLease .PlanDeletion item.relativePath .Foreground with
  | mk w' lease =>
    have hitems : Thins w w' := by
      cases hacquired
      exact .of_eq rfl
    cases lease with
    | none => exact hitems
    | some lease =>
      refine hitems.trans ?_
      dsimp only
      split
      · refine Thins.trans ?_ (.of_eq (rememberLease_items _ _ _))
        exact thins_updateItem _ _ fun x => rfl
      · exact .refl w'

theorem thins_nextExecutionCommand (w : DeletionWork) : Thins w w.nextExecutionCommand.1 := by
  unfold nextExecutionCommand
  split
  · exact .refl w
  split
  · exact .refl w
  rename_i item hfind
  cases hacquired : w.acquireLease .ExecuteDeletion item.relativePath .Safety with
  | mk w' lease =>
    have hitems : Thins w w' := by
      cases hacquired
      exact .of_eq rfl
    cases lease with
    | none => exact hitems
    | some lease =>
      have hleased : Thins w (w'.rememberLease item.id lease) :=
        hitems.trans (.of_eq (rememberLease_items _ _ _))
      refine hleased.trans ?_
      dsimp only
      split
      · exact .of_eq (finishLease_items _ _ _)
      · rename_i plan hplan
        refine Thins.trans (thins_updateItem _ item.id (f := fun item => { item with plan := none })
          fun x => rfl) ?_
        split
        · exact Thins.trans (.of_eq (finishLease_items _ _ _)) (thins_removeItem _ _)
        · exact thins_updateItem _ _ fun x => rfl

theorem thins_restoreUnsubmitted (w : DeletionWork) (command : DeletionWorkCommand) :
    Thins w (w.restoreUnsubmitted command) := by
  have hrequeued := requeueLease_items w command.workId
  unfold restoreUnsubmitted
  split
  · exact .of_eq (finishLease_items _ _ _)
  split
  · split
    · rename_i heq
      rw [heq] at hrequeued
      exact .of_eq hrequeued
    · rename_i heq
      rw [heq] at hrequeued
      refine Thins.trans (.of_eq hrequeued) ?_
      split
      · exact thins_updateItem _ _ fun x => rfl
      · exact thins_updateItem _ _ fun x => rfl
  · exact .of_eq (finishLease_items _ _ _)

/-! ## Results -/

theorem thins_drop (w : DeletionWork) (id : DeletionWorkId) (completion : WorkCompletion) :
    Thins w ((w.finishLease id completion).1.removeItem id) :=
  Thins.trans (.of_eq (finishLease_items _ _ _)) (thins_removeItem _ _)

theorem thins_finishStage (w : DeletionWork) (accepted : DeletionWorkStage → Bool)
    (id : DeletionWorkId) (completion : WorkCompletion) :
    Thins w (w.finishStage accepted id completion).1 := by
  have hfinished := finishLease_items w id completion
  unfold finishStage
  split
  · exact .refl w
  split
  · split
    · rename_i heq
      rw [heq] at hfinished
      exact Thins.trans (.of_eq hfinished) (thins_removeItem _ _)
    · rename_i heq
      rw [heq] at hfinished
      exact .of_eq hfinished
  · exact .refl w

theorem thins_planningSucceeded (w : DeletionWork) (id : DeletionWorkId)
    (plan : DeletionPlanSummary) : Thins w (w.planningSucceeded id plan).1 := by
  have hfinished := finishLease_items w id .Succeeded
  unfold planningSucceeded
  split
  · exact .refl w
  split
  · exact thins_drop w id .Cancelled
  · split
    · exact thins_drop w id .Failed
    · split
      · rename_i heq
        rw [heq] at hfinished
        exact Thins.trans (.of_eq hfinished) (thins_removeItem _ _)
      · rename_i heq
        rw [heq] at hfinished
        exact Thins.trans (.of_eq hfinished) (thins_updateItem _ _ fun x => rfl)
  · exact thins_drop w id .Failed

theorem thins_discardCancelledEvent (w : DeletionWork) (id : DeletionWorkId) :
    Thins w (w.discardCancelledEvent id) := by
  unfold discardCancelledEvent
  split
  · exact .of_eq (finishLease_items _ _ _)
  · exact .refl w

/-! ## Confirmations -/

theorem thins_takeNextConfirmation (w : DeletionWork) : Thins w w.takeNextConfirmation.1 := by
  unfold takeNextConfirmation
  split
  · exact .refl w
  split
  · exact thins_updateItem _ _ fun x => rfl
  · exact .refl w

theorem thins_returnConfirmation (w : DeletionWork) (id : DeletionWorkId) (target : FileToDelete) :
    Thins w (w.returnConfirmation id target).1 := by
  unfold returnConfirmation
  split
  · exact .refl w
  split
  · split
    · exact .refl w
    · exact thins_updateItem _ _ fun x => rfl
  · exact .refl w

theorem thins_queueConfirmation (w : DeletionWork) (id : DeletionWorkId) (target : FileToDelete)
    (now : Nat) : Thins w (w.queueConfirmation id target now).1 := by
  unfold queueConfirmation
  split
  · exact .refl w
  split
  · split
    · exact .refl w
    · exact thins_updateItem _ _ fun x => rfl
  · exact .refl w

theorem thins_cancelModal (w : DeletionWork) (id : DeletionWorkId) :
    Thins w (w.cancelModal id).1 := by
  unfold cancelModal
  split
  · exact .refl w
  split
  · exact thins_updateItem _ _ fun x => rfl
  all_goals first | exact thins_removeItem _ _ | exact .refl w

theorem thins_cancelPending (w : DeletionWork) : Thins w w.cancelPending.1 := by
  have hmarked : ∀ (ids : List DeletionWorkId) (w : DeletionWork),
      Thins w (ids.foldl (fun w workId =>
        w.updateItem workId fun item => { item with stage := .CancellingPlanning }) w) := by
    intro ids
    induction ids with
    | nil => exact Thins.refl
    | cons id ids ih =>
      intro w
      exact Thins.trans (thins_updateItem w id (f := fun item =>
        { item with stage := .CancellingPlanning }) fun x => rfl) (ih _)
  unfold cancelPending
  exact Thins.trans (hmarked _ w) (.of_sublist List.filter_sublist)

theorem thins_discard (w : DeletionWork) (id : DeletionWorkId) : Thins w (w.discard id).1 := by
  unfold discard
  dsimp only
  split
  · exact .of_eq (finishLease_items _ _ _)
  · exact thins_drop w id .Cancelled

end DeletionWork

namespace Rail
open DeletionWork

/-- A result the rail refuses leaves at most a lease to be given back. -/
theorem thins_or_discard (w : DeletionWork) (id : DeletionWorkId) (done : DeletionWork × Bool) :
    Thins w done.1 → Thins w (match done with
      | (w, true) => (w, true)
      | (w, false) => (w.discardCancelledEvent id, false) : DeletionWork × Bool).1 := by
  intro h
  obtain ⟨w', ok⟩ := done
  cases ok with
  | true => exact h
  | false => exact Thins.trans h (thins_discardCancelledEvent w' id)

theorem thins_handle (w : DeletionWork) (id : DeletionWorkId) (result : WorkerResult) :
    Thins w (handle w id result).1 := by
  have hstage : ∀ accepted completion, Thins w (w.finishStage accepted id completion).1 :=
    fun accepted completion => thins_finishStage w accepted id completion
  cases result with
  | planned plan => exact thins_or_discard w id _ (thins_planningSucceeded w id plan)
  | planCancelled => exact (hstage _ _).trans (thins_discardCancelledEvent _ _)
  | planFailed => exact (hstage _ _).trans (thins_discardCancelledEvent _ _)
  | planStale => exact thins_or_discard w id _ (hstage _ _)
  | executed completion => exact thins_or_discard w id _ (hstage _ _)
  | executionFailed => exact hstage _ _
  | executionStale => exact hstage _ _

theorem thins_submit (s : Rail) {taken : DeletionWork × Option DeletionWorkCommand}
    (h : Thins s.work taken.1) (accepts : Bool) : Thins s.work (s.submit taken accepts).1.work := by
  obtain ⟨w, command⟩ := taken
  cases command with
  | none => exact h
  | some command =>
    cases accepts with
    | true => exact h
    | false => exact Thins.trans h (thins_restoreUnsubmitted w command)

/-- Only `enqueue_confirmation` puts an item on the rail. -/
theorem thins_answer (s : Rail) {call : Call}
    (hcall : ∀ target reduced bytes now, call ≠ .enqueueConfirmation target reduced bytes now) :
    Thins s.work (s.answer call).1.work := by
  cases call with
  | enqueueConfirmation target reduced bytes now => exact absurd rfl (hcall _ _ _ _)
  | takeNextConfirmation => exact thins_takeNextConfirmation s.work
  | returnConfirmation workId target => exact thins_returnConfirmation s.work workId target
  | queueConfirmation workId target now => exact thins_queueConfirmation s.work workId target now
  | cancelModal workId => exact thins_cancelModal s.work workId
  | cancelPending => exact thins_cancelPending s.work
  | discard workId => exact thins_discard s.work workId
  | nextPlanningCommand accepts =>
    exact thins_submit s (thins_nextPlanningCommand s.work) accepts
  | nextExecutionCommand accepts =>
    exact thins_submit s (thins_nextExecutionCommand s.work) accepts
  | result workId result =>
    show Thins s.work (s.receive workId result).1.work
    unfold receive
    split
    · exact .refl s.work
    · exact thins_handle s.work workId result
  | advanceGeneration generation => exact .of_eq rfl
  | shared call => exact .of_eq rfl

end Rail

end Excise
