import Excise.Deletion.Executor

/-!
# Stopping a deletion

The mutation gate of `DeletionExecutionProgress` and the soft flag, between the executor and any
number of stop requests. Every load, store and compare-exchange is one step; the file system
answers as it likes.
-/

namespace Excise
set_option autoImplicit false

inductive MutationState where
  | Preparing
  | Claimed
  | Started
  | StopRequested
  deriving DecidableEq, Repr

/-- Where the executor is in the loop of `try_claim_mutation` or `try_begin_mutation`. -/
inductive GateStep where
  | load
  | swap
  deriving DecidableEq, Repr

/-- Where a thread is in `safely_stop_deletion` and the loop of `request_stop`. -/
inductive StopStep where
  | storeSoft
  | load
  | reload
  | swap (current : MutationState)
  deriving DecidableEq, Repr

inductive StopEvent where
  | touches
  | reports (outcome : DeletionEntryOutcome)
  | answered (stopped : Bool)
  | observed (started : Bool)
  deriving DecidableEq, Repr

/-- An event, the entry the executor is at, whether the plan passed its last check, and how many
entries had been taken when the soft flag was set. -/
structure StopRecord where
  event : StopEvent
  entry : Option Nat
  checked : Bool
  softAt : Option Nat
  deriving DecidableEq, Repr

structure StopState where
  soft : Bool
  hard : Bool
  gate : MutationState
  gateStep : GateStep
  stops : Nat → StopStep
  /-- Entries taken from the plan, the one at hand, and whether the plan passed its last check. -/
  taken : Nat
  current : Option Nat
  checked : Bool
  softAt : Option Nat
  log : List StopRecord

namespace StopState

def start (hard : Bool) : StopState where
  soft := false
  hard := hard
  gate := .Preparing
  gateStep := .load
  stops := fun _ => .storeSoft
  taken := 0
  current := none
  checked := false
  softAt := none
  log := []

def record (w : StopState) (event : StopEvent) : StopState :=
  { w with log := w.log ++ [⟨event, w.current, w.checked, w.softAt⟩] }

/-- `soft.store(true)`; `softAt` keeps the first time. -/
def setSoft (w : StopState) : StopState :=
  { w with soft := true, softAt := some (w.softAt.getD w.taken) }

def setStop (w : StopState) (thread : Nat) (step : StopStep) : StopState :=
  { w with stops := fun i => if i = thread then step else w.stops i }

/-- The answer of `request_stop`; the thread may request again. -/
def answer (w : StopState) (thread : Nat) (stopped : Bool) : StopState :=
  (w.setStop thread .storeSoft).record (.answered stopped)

/-- One step of `safely_stop_deletion`. -/
def stopThread (w : StopState) (thread : Nat) : StopState :=
  match w.stops thread with
  | .storeSoft => w.setSoft.setStop thread .load
  | .load =>
    match w.gate with
    | .Preparing | .Claimed => w.setStop thread .reload
    | .Started | .StopRequested => w.answer thread false
  | .reload =>
    match w.gate with
    | .Preparing => w.setStop thread (.swap .Preparing)
    | .Claimed => w.setStop thread (.swap .Claimed)
    | .Started | .StopRequested => w.setStop thread .load
  | .swap current =>
    if w.gate = current then { w with gate := .StopRequested }.answer thread true
    else w.setStop thread .load

/-- One step of `try_claim_mutation`. -/
def tryClaim (w : StopState) : StopState × Option Bool :=
  match w.gateStep with
  | .load =>
    match w.gate with
    | .Preparing => ({ w with gateStep := .swap }, none)
    | .Claimed | .Started => (w, some true)
    | .StopRequested => (w, some false)
  | .swap =>
    if w.gate = .Preparing then ({ w with gate := .Claimed, gateStep := .load }, some true)
    else ({ w with gateStep := .load }, none)

/-- One step of `try_begin_mutation`. -/
def tryBegin (w : StopState) : StopState × Option Bool :=
  match w.gateStep with
  | .load =>
    match w.gate with
    | .Claimed => ({ w with gateStep := .swap }, none)
    | .Started => (w, some true)
    | .Preparing | .StopRequested => (w, some false)
  | .swap =>
    if w.gate = .Claimed then ({ w with gate := .Started, gateStep := .load }, some true)
    else ({ w with gateStep := .load }, none)

/-- An entry leaves the plan unless it cannot be read; the end of the plan is no entry. -/
def pop (w : StopState) (entry : Option PlannedEntry) (answer : Option DeletionPlanError) :
    StopState :=
  if entry.isSome && answer.isNone then { w with taken := w.taken + 1, current := some (w.taken + 1) }
  else { w with current := none }

def check (w : StopState) (answer : Option DeletionPlanError) : StopState :=
  { w with checked := answer.isNone }

end StopState

/-- What the file system and the stores answer at a step. -/
abbrev Answers := ∀ c : ExecutorCall, c.Answer

open StopState in
/-- The executor's step on its current call. -/
def executorStep (answers : Answers) : (c : ExecutorCall) → StopState → StopState × Option c.Answer
  | .loadSoft, w => (w, some w.soft)
  | .storeSoft, w => (w.setSoft, some ())
  | .loadHard, w => (w, some w.hard)
  | .tryClaim, w => w.tryClaim
  | .tryBegin, w => w.tryBegin
  | .visitEntries, w => (w.check (answers .visitEntries), some (answers .visitEntries))
  | .popReverse e, w => (w.pop e (answers (.popReverse e)), some (answers (.popReverse e)))
  | .storeResult r, w =>
    (if (answers (.storeResult r)).isNone then w.record (.reports r.outcome) else w,
      some (answers (.storeResult r)))
  | .exchange d a b, w => (w.record .touches, some (answers (.exchange d a b)))
  | .renameNoreplace d a b, w => (w.record .touches, some (answers (.renameNoreplace d a b)))
  | .removeFile d a, w => (w.record .touches, some (answers (.removeFile d a)))
  | .removeDir d a, w => (w.record .touches, some (answers (.removeDir d a)))
  | .openRoot, w => (w, some (answers .openRoot))
  | .visitEntry e, w => (w, some (answers (.visitEntry e)))
  | .cloneRoot d, w => (w, some (answers (.cloneRoot d)))
  | .openDirNofollow d a, w => (w, some (answers (.openDirNofollow d a)))
  | .placeholderName, w => (w, some (answers .placeholderName))
  | .createNew d a, w => (w, some (answers (.createNew d a)))
  | .fileMetadata d, w => (w, some (answers (.fileMetadata d)))
  | .statAt d a, w => (w, some (answers (.statAt d a)))
  | .statOpen d, w => (w, some (answers (.statOpen d)))
  | .removePlaceholder d a, w => (w, some (answers (.removePlaceholder d a)))
  | .openReference d a i, w => (w, some (answers (.openReference d a i)))
  | .referenceLinks d, w => (w, some (answers (.referenceLinks d)))
  | .addProgress, w => (w, some ())

/-- What other threads do. -/
inductive StopAction where
  | stop (thread : Nat)
  | cancel
  | observe

def StopState.others (w : StopState) : StopAction → StopState
  | .stop thread => w.stopThread thread
  | .cancel => { w with hard := true }
  | .observe => w.record (.observed (decide (w.gate = .Started)))

def stopWorld : World executorSignature StopState Answers StopAction where
  perform c answers w := executorStep answers c w
  others a w := w.others a

/-! ## What holds of every state -/

/-- Nothing is touched after a stop was granted; once the soft flag is set, only the entry at hand
may be touched, and what comes later is reported unattempted. -/
structure StopRecord.Judged (r : StopRecord) (gate : MutationState) : Prop where
  touches : r.event = .touches → gate = .Started ∧ ∀ m ∈ r.softAt, r.entry = some m
  answered : r.event = .answered true → gate = .StopRequested
  observed : r.event = .observed true → gate = .Started
  reports : ∀ outcome, r.event = .reports outcome → r.checked = true → ∀ n ∈ r.entry,
    ∀ m ∈ r.softAt, m < n → outcome = .Unattempted

theorem StopRecord.Judged.of_gate {r : StopRecord} {gate gate' : MutationState}
    (h : r.Judged gate) (hstarted : gate = .Started → gate' = .Started)
    (hstop : gate = .StopRequested → gate' = .StopRequested) : r.Judged gate' where
  touches := fun he => ⟨hstarted (h.touches he).1, (h.touches he).2⟩
  answered := fun he => hstop (h.answered he)
  observed := fun he => hstarted (h.observed he)
  reports := h.reports

namespace StopState

structure Sound (w : StopState) : Prop where
  swaps : ∀ i c, w.stops i = .swap c → c = .Preparing ∨ c = .Claimed
  soft : w.soft = w.softAt.isSome
  softAt_le : ∀ m ∈ w.softAt, m ≤ w.taken
  current : ∀ n ∈ w.current, n = w.taken
  judged : ∀ r ∈ w.log, r.Judged w.gate

theorem sound_start (hard : Bool) : (start hard).Sound where
  swaps := by simp [start]
  soft := rfl
  softAt_le := by simp [start]
  current := by simp [start]
  judged := by simp [start]

/-- What may change while the executor is at one entry. -/
structure Drift (w w' : StopState) : Prop where
  taken : w'.taken = w.taken
  current : w'.current = w.current
  checked : w'.checked = w.checked
  softAt : w'.softAt = w.softAt ∨ w.softAt = none ∧ w'.softAt = some w.taken
  started : w.gate = .Started → w'.gate = .Started

/-- What was recorded since: the soft flag stays set, and entries are taken one after the other. -/
structure Since (w w' : StopState) (new : List StopRecord) : Prop where
  log : w'.log = w.log ++ new
  taken : w.taken ≤ w'.taken
  softAt : ∀ m ∈ w.softAt, w'.softAt = some m
  recorded : ∀ r ∈ new, ∀ m ∈ w.softAt, r.softAt = some m
  entries : ∀ r ∈ new, ∀ n ∈ r.entry, w.taken ≤ n
  gate : w.gate = .Started → w'.gate = .Started

variable {w w' w'' : StopState}

theorem Drift.refl (w : StopState) : Drift w w := ⟨rfl, rfl, rfl, Or.inl rfl, fun h => h⟩

theorem Since.refl (w : StopState) : Since w w [] :=
  ⟨by simp, le_refl _, fun _ h => h, by simp, by simp, fun h => h⟩

theorem Since.trans {new new' : List StopRecord} (h : Since w w' new) (h' : Since w' w'' new') :
    Since w w'' (new ++ new') where
  log := by rw [h'.log, h.log, List.append_assoc]
  taken := h.taken.trans h'.taken
  softAt := fun m hm => h'.softAt m (h.softAt m hm)
  recorded := by
    intro r hr m hm
    rcases List.mem_append.mp hr with hr | hr
    · exact h.recorded r hr m hm
    · exact h'.recorded r hr m (h.softAt m hm)
  entries := by
    intro r hr n hn
    rcases List.mem_append.mp hr with hr | hr
    · exact h.entries r hr n hn
    · exact h.taken.trans (h'.entries r hr n hn)
  gate := fun hg => h'.gate (h.gate hg)

/-- A step at one entry. -/
structure Moves (w w' : StopState) : Prop where
  sound : Sound w'
  drift : Drift w w'
  since : ∃ new, Since w w' new

theorem Drift.since (h : Drift w w') (hlog : w'.log = w.log) : Since w w' [] where
  log := by rw [hlog, List.append_nil]
  taken := h.taken.ge
  softAt := by
    intro m hm
    rcases h.softAt with heq | ⟨hnone, -⟩
    · rw [heq]
      exact hm
    · rw [hnone] at hm
      cases hm
  recorded := by simp
  entries := by simp
  gate := h.started

/-! ## The steps -/

theorem Sound.record (h : Sound w) {event : StopEvent}
    (hj : (⟨event, w.current, w.checked, w.softAt⟩ : StopRecord).Judged w.gate) :
    Sound (w.record event) where
  swaps := h.swaps
  soft := h.soft
  softAt_le := h.softAt_le
  current := h.current
  judged := by
    intro r hr
    rcases List.mem_append.mp hr with hr | hr
    · exact h.judged r hr
    · rw [List.mem_singleton.mp hr]
      exact hj

theorem since_record (h : Sound w) (event : StopEvent) :
    Since w (w.record event) [⟨event, w.current, w.checked, w.softAt⟩] where
  log := rfl
  taken := le_refl _
  softAt := fun _ hm => hm
  recorded := by
    intro r hr m hm
    rw [List.mem_singleton.mp hr]
    exact hm
  entries := by
    intro r hr n hn
    rw [List.mem_singleton.mp hr] at hn
    exact (h.current n hn).ge
  gate := fun hg => hg

theorem drift_record (w : StopState) (event : StopEvent) : Drift w (w.record event) :=
  ⟨rfl, rfl, rfl, Or.inl rfl, fun h => h⟩

theorem setSoft_softAt (w : StopState) :
    w.setSoft.softAt = w.softAt ∨ w.softAt = none ∧ w.setSoft.softAt = some w.taken := by
  unfold setSoft
  cases w.softAt with
  | none => exact Or.inr ⟨rfl, rfl⟩
  | some m => exact Or.inl rfl

theorem Sound.setSoft (h : Sound w) : Sound w.setSoft where
  swaps := h.swaps
  soft := rfl
  softAt_le := by
    intro m hm
    rcases setSoft_softAt w with heq | ⟨-, heq⟩
    · rw [heq] at hm
      exact h.softAt_le m hm
    · rw [heq] at hm
      exact (Option.mem_some_iff.mp hm).ge
  current := h.current
  judged := h.judged

theorem Sound.setStop (h : Sound w) {thread : Nat} {step : StopStep}
    (hstep : ∀ c, step = .swap c → c = .Preparing ∨ c = .Claimed) : Sound (w.setStop thread step) where
  swaps := by
    intro i c hc
    unfold StopState.setStop at hc
    dsimp only at hc
    split at hc
    · exact hstep c hc
    · exact h.swaps i c hc
  soft := h.soft
  softAt_le := h.softAt_le
  current := h.current
  judged := h.judged

/-- The gate moves on, from a state that is not final. -/
theorem Sound.setGate (h : Sound w) {gate : MutationState} {gateStep : GateStep}
    (hfrom : w.gate = .Preparing ∨ w.gate = .Claimed) :
    Sound { w with gate := gate, gateStep := gateStep } where
  swaps := h.swaps
  soft := h.soft
  softAt_le := h.softAt_le
  current := h.current
  judged := by
    intro r hr
    refine (h.judged r hr).of_gate ?_ ?_
    · intro hg
      rw [hg] at hfrom
      simp at hfrom
    · intro hg
      rw [hg] at hfrom
      simp at hfrom

theorem Moves.quiet (hs : Sound w') (hd : Drift w w') (hlog : w'.log = w.log) : Moves w w' :=
  ⟨hs, hd, [], hd.since hlog⟩

theorem Moves.refl (h : Sound w) : Moves w w := .quiet h (.refl w) rfl

theorem Sound.moves_record (h : Sound w) {event : StopEvent}
    (hj : (⟨event, w.current, w.checked, w.softAt⟩ : StopRecord).Judged w.gate) :
    Moves w (w.record event) :=
  ⟨h.record hj, drift_record w event, _, since_record h event⟩

theorem Sound.moves_setSoft (h : Sound w) : Moves w w.setSoft :=
  .quiet h.setSoft ⟨rfl, rfl, rfl, setSoft_softAt w, fun hg => hg⟩ rfl

theorem Sound.moves_setStop (h : Sound w) {thread : Nat} {step : StopStep}
    (hstep : ∀ c, step = .swap c → c = .Preparing ∨ c = .Claimed) :
    Moves w (w.setStop thread step) :=
  .quiet (h.setStop hstep) ⟨rfl, rfl, rfl, Or.inl rfl, fun hg => hg⟩ rfl

theorem Sound.moves_setGate (h : Sound w) {gate : MutationState} {gateStep : GateStep}
    (hfrom : w.gate = .Preparing ∨ w.gate = .Claimed) :
    Moves w { w with gate := gate, gateStep := gateStep } := by
  refine .quiet (h.setGate hfrom) ⟨rfl, rfl, rfl, Or.inl rfl, ?_⟩ rfl
  intro hg
  rw [hg] at hfrom
  simp at hfrom

theorem Moves.trans (h : Moves w w') (h' : Moves w' w'') : Moves w w'' := by
  obtain ⟨new, hnew⟩ := h.since
  obtain ⟨new', hnew'⟩ := h'.since
  refine ⟨h'.sound, ?_, _, hnew.trans hnew'⟩
  refine ⟨h'.drift.taken.trans h.drift.taken, h'.drift.current.trans h.drift.current,
    h'.drift.checked.trans h.drift.checked, ?_, fun hg => h'.drift.started (h.drift.started hg)⟩
  rcases h.drift.softAt with heq | ⟨hnone, heq⟩
  · rcases h'.drift.softAt with heq' | ⟨hnone', heq'⟩
    · exact Or.inl (heq'.trans heq)
    · exact Or.inr ⟨heq ▸ hnone', heq'.trans (by rw [h.drift.taken])⟩
  · refine Or.inr ⟨hnone, hnew'.softAt w.taken ?_⟩
    rw [heq]
    rfl

theorem Sound.moves_answer (h : Sound w) {thread : Nat} {stopped : Bool}
    (hstop : stopped = true → w.gate = .StopRequested) : Moves w (w.answer thread stopped) := by
  have hset := @Sound.moves_setStop w h thread .storeSoft (by simp)
  refine hset.trans (hset.sound.moves_record ?_)
  refine ⟨by simp, ?_, by simp, by simp⟩
  intro he
  rw [StopEvent.answered.injEq] at he
  exact hstop he

theorem Sound.moves_stopThread (h : Sound w) (thread : Nat) : Moves w (w.stopThread thread) := by
  unfold stopThread
  split
  · exact h.moves_setSoft.trans (h.moves_setSoft.sound.moves_setStop (by simp))
  · split
    · exact h.moves_setStop (by simp)
    · exact h.moves_setStop (by simp)
    · exact h.moves_answer (by simp)
    · exact h.moves_answer (by simp)
  · split
    · exact h.moves_setStop (by simp)
    · exact h.moves_setStop (by simp)
    · exact h.moves_setStop (by simp)
    · exact h.moves_setStop (by simp)
  · rename_i current hcurrent
    split
    · rename_i hgate
      have hfrom := h.swaps thread current hcurrent
      rw [← hgate] at hfrom
      have hset := @Sound.moves_setGate w h .StopRequested w.gateStep hfrom
      exact hset.trans (hset.sound.moves_answer fun _ => rfl)
    · exact h.moves_setStop (by simp)

theorem Sound.moves_others (h : Sound w) (a : StopAction) : Moves w (w.others a) := by
  cases a with
  | stop thread => exact h.moves_stopThread thread
  | cancel =>
    exact .quiet ⟨h.swaps, h.soft, h.softAt_le, h.current, h.judged⟩
      ⟨rfl, rfl, rfl, Or.inl rfl, fun hg => hg⟩ rfl
  | observe =>
    refine h.moves_record ⟨by simp, by simp, ?_, by simp⟩
    intro he
    rw [StopEvent.observed.injEq, decide_eq_true_eq] at he
    exact he

theorem Sound.moves_gateStep (h : Sound w) (gateStep : GateStep) :
    Moves w { w with gateStep := gateStep } :=
  .quiet ⟨h.swaps, h.soft, h.softAt_le, h.current, h.judged⟩
    ⟨rfl, rfl, rfl, Or.inl rfl, fun hg => hg⟩ rfl

theorem Sound.moves_tryClaim (h : Sound w) : Moves w w.tryClaim.1 := by
  unfold tryClaim
  split
  · split
    · exact h.moves_gateStep .swap
    · exact .refl h
    · exact .refl h
    · exact .refl h
  · split
    · rename_i hgate
      exact h.moves_setGate (Or.inl hgate)
    · exact h.moves_gateStep .load

theorem Sound.moves_tryBegin (h : Sound w) : Moves w w.tryBegin.1 := by
  unfold tryBegin
  split
  · split
    · exact h.moves_gateStep .swap
    · exact .refl h
    · exact .refl h
    · exact .refl h
  · split
    · rename_i hgate
      exact h.moves_setGate (Or.inr hgate)
    · exact h.moves_gateStep .load

theorem tryBegin_true (h : w.tryBegin.2 = some true) : w.tryBegin.1.gate = .Started := by
  unfold tryBegin at h ⊢
  split at h
  · split at h
    · simp at h
    · rename_i hgate
      rw [hgate]
    · simp at h
    · simp at h
  · split at h
    · rename_i hgate
      rw [if_pos hgate]
    · simp at h

end StopState

/-! ## The executor's calls -/

/-- Changes the names of the tree. -/
def ExecutorCall.touching : ExecutorCall → Bool
  | .exchange .. | .renameNoreplace .. | .removeFile .. | .removeDir .. => true
  | _ => false

/-- Neither changes the tree nor moves on in the plan. -/
def ExecutorCall.calm : ExecutorCall → Bool
  | .visitEntries | .popReverse _ | .storeResult _ => false
  | c => !c.touching

def CalmCall (c : ExecutorCall) : Prop := c.calm = true

/-- A call made for one entry. -/
def EntryCall (c : ExecutorCall) : Prop := c.calm = true ∨ c.touching = true

open StopState in
theorem moves_calm {w : StopState} (h : Sound w) {c : ExecutorCall} (hc : c.calm = true)
    (answers : Answers) : Moves w (executorStep answers c w).1 := by
  cases c with
  | storeSoft => exact h.moves_setSoft
  | tryClaim => exact h.moves_tryClaim
  | tryBegin => exact h.moves_tryBegin
  | visitEntries => cases hc
  | popReverse e => cases hc
  | storeResult r => cases hc
  | exchange d a b => cases hc
  | renameNoreplace d a b => cases hc
  | removeFile d a => cases hc
  | removeDir d a => cases hc
  | _ => exact .refl h

open StopState in
theorem moves_touching {w : StopState} (h : Sound w) (hgate : w.gate = .Started)
    (hat : ∀ m ∈ w.softAt, w.current = some m) {c : ExecutorCall} (hc : c.touching = true)
    (answers : Answers) : Moves w (executorStep answers c w).1 := by
  have hmoves : Moves w (w.record .touches) :=
    h.moves_record ⟨fun _ => ⟨hgate, hat⟩, by simp, by simp, by simp⟩
  cases c with
  | exchange d a b => exact hmoves
  | renameNoreplace d a b => exact hmoves
  | removeFile d a => exact hmoves
  | removeDir d a => exact hmoves
  | _ => cases hc

theorem executorStep_answers {w : StopState} {c : ExecutorCall} {answers : Answers}
    (h : (executorStep answers c w).2 = none) : c.calm = true := by
  cases c with
  | tryClaim => rfl
  | tryBegin => rfl
  | _ => cases h

/-! ## Assertions at an entry -/

namespace StopState

/-- An assertion that survives every step at one entry. -/
def Steady (P : StopState → Prop) : Prop := ∀ w w', Drift w w' → P w → P w'

theorem Steady.stable {P : StopState → Prop} (hP : Steady P) :
    stopWorld.Stable fun w => Sound w ∧ P w := by
  intro w a h
  have hm := h.1.moves_others a
  exact ⟨hm.sound, hP _ _ hm.drift h.2⟩

variable {α : Type} {P : StopState → Prop} {Q : α → StopState → Prop} {w : StopState}

theorem wp_return {a : α} (hP : Steady P) (hw : Sound w ∧ P w)
    (hQ : ∀ w, Sound w → P w → Q a w) : stopWorld.wp Sound Q (pure a) w :=
  World.wp_done hw hP.stable (fun _ h => h.1) fun w h => hQ w h.1 h.2

theorem wp_at {c : ExecutorCall} {next : c.Answer → Executor α} (hP : Steady P)
    (hw : Sound w ∧ P w)
    (hnext : ∀ w answers answer, Sound w → P w → (executorStep answers c w).2 = some answer →
      stopWorld.wp Sound Q (next answer) (executorStep answers c w).1) :
    stopWorld.wp Sound Q (.call c next) w := by
  refine World.wp_call (S := executorSignature) hw hP.stable (fun _ h => h.1) ?_ ?_
  · intro w answers h hnone
    have hm := moves_calm h.1 (executorStep_answers hnone) answers
    exact ⟨hm.sound, hP _ _ hm.drift h.2⟩
  · intro w answers answer h hsome
    exact hnext w answers answer h.1 h.2 hsome

theorem wp_ask_bind {c : ExecutorCall} {f : c.Answer → Executor α} (hP : Steady P)
    (hw : Sound w ∧ P w)
    (hnext : ∀ w answers answer, Sound w → P w → (executorStep answers c w).2 = some answer →
      stopWorld.wp Sound Q (f answer) (executorStep answers c w).1) :
    stopWorld.wp Sound Q (Program.ask (S := executorSignature) c >>= f) w :=
  wp_at hP hw hnext

theorem wp_calm {p : Executor α} (hp : p.Uses CalmCall) (hP : Steady P)
    (hw : Sound w ∧ P w) : stopWorld.wp Sound (fun _ w => Sound w ∧ P w) p w := by
  refine World.wp_uses hw hP.stable (fun _ h => h.1) ?_ hp
  intro c hc w answers h
  have hm := moves_calm h.1 hc answers
  exact ⟨hm.sound, hP _ _ hm.drift h.2⟩

/-- The executor is at entry `k`, which was taken before the soft flag was set. -/
def Entered (k : Nat) (w : StopState) : Prop :=
  w.taken = k ∧ w.current = some k ∧ ∀ m ∈ w.softAt, m = k

theorem steady_entered (k : Nat) : Steady (Entered k) := by
  rintro w w' hd ⟨htaken, hcurrent, hsoft⟩
  refine ⟨hd.taken.trans htaken, hd.current.trans hcurrent, ?_⟩
  intro m hm
  rcases hd.softAt with heq | ⟨-, heq⟩
  · rw [heq] at hm
    exact hsoft m hm
  · rw [heq, Option.mem_some_iff] at hm
    exact hm.symm.trans htaken

theorem steady_started (hP : Steady P) : Steady fun w => P w ∧ w.gate = .Started :=
  fun w w' hd h => ⟨hP w w' hd h.1, hd.started h.2⟩

/-- Past the gate the executor may change the tree. -/
theorem wp_entry {p : Executor α} (hp : p.Uses EntryCall) {k : Nat} (hP : Steady P)
    (hk : ∀ w, P w → Entered k w) (hw : Sound w ∧ P w ∧ w.gate = .Started) :
    stopWorld.wp Sound (fun _ w => Sound w ∧ P w) p w := by
  have hsteady := steady_started hP
  have hkeeps : stopWorld.wp Sound (fun _ w => Sound w ∧ P w ∧ w.gate = .Started) p w := by
    refine World.wp_uses (P := fun w => Sound w ∧ P w ∧ w.gate = .Started) hw hsteady.stable
      (fun _ h => h.1) ?_ hp
    intro c hc w answers h
    obtain ⟨-, hcurrent, hsoft⟩ := hk w h.2.1
    have hm : Moves w (executorStep answers c w).1 := by
      rcases hc with hc | hc
      · exact moves_calm h.1 hc answers
      · refine moves_touching h.1 h.2.2 ?_ hc answers
        intro m hm
        rw [hsoft m hm]
        exact hcurrent
    exact ⟨hm.sound, hsteady _ _ hm.drift h.2⟩
  exact hkeeps.mono fun _ w h => ⟨h.1, h.2.1⟩

end StopState

end Excise
