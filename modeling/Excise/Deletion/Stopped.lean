import Excise.Deletion.StopProtocol

/-!
# What a stopped deletion leaves alone

The executor's program under the stop protocol: which parts of it only look, which ones change the
tree and only past the gate, and what its report says of the entries after the stop.
-/

namespace Excise
set_option autoImplicit false

namespace Executor
variable (host : Host)

/-! ## Which calls a part of the program makes -/

theorem Uses.mono {α : Type} {ok ok' : ExecutorCall → Prop} {p : Executor α} (hp : p.Uses ok)
    (h : ∀ c, ok c → ok' c) : p.Uses ok' := by
  induction p with
  | done a => trivial
  | call c next ih => exact ⟨h c hp.1, fun answer => ih answer (hp.2 answer)⟩

theorem openParents_calm (relative : NativePath) (parent : Handle) (components : List Component) :
    (openParents host relative parent components).Uses CalmCall := by
  induction components generalizing parent with
  | nil => trivial
  | cons c rest ih =>
    refine ⟨rfl, ?_⟩
    intro answer
    cases answer with
    | error e => trivial
    | ok next => exact ih next

theorem openParent_calm (root : Handle) (relative : RelativePath) :
    (openParent host root relative).Uses CalmCall := by
  unfold openParent
  split
  · trivial
  · refine ⟨rfl, ?_⟩
    intro answer
    cases answer with
    | error e => trivial
    | ok parent =>
      refine Program.Uses.bind (openParents_calm host _ parent _) ?_
      intro opened
      cases opened with
      | error e => trivial
      | ok parent => trivial

theorem inspectChild_calm (parent : Handle) (name : OsString) (displayPath : NativePath) :
    (inspectChild host parent name displayPath).Uses CalmCall := by
  refine ⟨rfl, ?_⟩
  intro answer
  rcases answer with e | (message | stat)
  · trivial
  · trivial
  · dsimp only [Program.bind]
    split
    · refine ⟨rfl, ?_⟩
      intro opened
      cases opened with
      | error e => trivial
      | ok handle =>
        refine ⟨rfl, ?_⟩
        intro read
        cases read with
        | error e => trivial
        | ok snapshot => trivial
    · trivial

theorem inspectRelative_calm (root : Handle) (relative : RelativePath) :
    (inspectRelative host root relative).Uses CalmCall := by
  refine Program.Uses.bind (openParent_calm host root relative) ?_
  intro opened
  cases opened with
  | error e => trivial
  | ok found =>
    refine Program.Uses.bind (inspectChild_calm host found.1 found.2 _) ?_
    intro read
    cases read with
    | error e => trivial
    | ok snapshot => trivial

theorem createPlaceholder_calm (parent : Handle) (attempts : Nat) :
    (createPlaceholder parent attempts).Uses CalmCall := by
  induction attempts with
  | zero => trivial
  | succ attempts ih =>
    refine ⟨rfl, ?_⟩
    intro named
    cases named with
    | error e => trivial
    | ok name =>
      refine ⟨rfl, ?_⟩
      intro created
      cases created with
      | ok file =>
        refine ⟨rfl, ?_⟩
        intro read
        cases read with
        | error e => trivial
        | ok snapshot => trivial
      | error e =>
        dsimp only [Program.bind]
        split
        · exact ih
        · trivial

theorem removeVerifiedPlaceholder_calm (parent : Handle) (name : OsString)
    (expected : PlannedSnapshot) :
    (removeVerifiedPlaceholder host parent name expected).Uses CalmCall := by
  refine Program.Uses.bind (inspectChild_calm host parent name _) ?_
  intro read
  cases read with
  | error e => trivial
  | ok actual =>
    dsimp only
    split
    · trivial
    · exact Program.uses_ask rfl

theorem originalHoldsPlaceholder_calm (parent : Handle) (original : OsString)
    (placeholder : PlannedSnapshot) :
    (originalHoldsPlaceholder host parent original placeholder).Uses CalmCall := by
  refine Program.Uses.bind (inspectChild_calm host parent original _) ?_
  intro read
  cases read with
  | error e => trivial
  | ok actual =>
    dsimp only
    split
    · trivial
    · trivial

theorem entry_of_calm {α : Type} {p : Executor α} (hp : p.Uses CalmCall) : p.Uses EntryCall :=
  Uses.mono hp fun _ h => Or.inl h

theorem restoreDetached_entry (parent : Handle) (original detached : OsString)
    (placeholder : PlannedSnapshot) :
    (restoreDetached host parent original detached placeholder).Uses EntryCall := by
  refine Program.Uses.bind
    (entry_of_calm (originalHoldsPlaceholder_calm host parent original placeholder)) ?_
  intro held
  cases held with
  | some e => trivial
  | none =>
    refine ⟨Or.inr rfl, ?_⟩
    intro exchanged
    cases exchanged with
    | some e => trivial
    | none => exact entry_of_calm (removeVerifiedPlaceholder_calm host parent detached placeholder)

theorem finalizeFrom_entry (parent : Handle) (original : OsString) (placeholder : PlannedSnapshot)
    (attempts : Nat) (name : OsString) :
    (finalizeFrom host parent original placeholder attempts name).Uses EntryCall := by
  induction attempts generalizing name with
  | zero => trivial
  | succ attempts ih =>
    refine ⟨Or.inr rfl, ?_⟩
    intro renamed
    cases renamed with
    | none => exact entry_of_calm (removeVerifiedPlaceholder_calm host parent name placeholder)
    | some e =>
      dsimp only [Program.bind]
      split
      · refine ⟨Or.inl rfl, ?_⟩
        intro named
        cases named with
        | error e => trivial
        | ok fresh => exact ih fresh
      · trivial

theorem finalizeTo_entry (d : Detached) (outcome : DeletionEntryOutcome) (failure : String) :
    (finalizeTo host d outcome failure).Uses EntryCall := by
  have hfinalize : (finalizePlaceholder host d.parent d.original d.detached
      d.placeholder).Uses EntryCall := by
    refine Program.Uses.bind
      (entry_of_calm (originalHoldsPlaceholder_calm host d.parent d.original d.placeholder)) ?_
    intro held
    cases held with
    | some e => trivial
    | none => exact finalizeFrom_entry host _ _ _ _ _
  refine Program.Uses.bind hfinalize ?_
  intro finalized
  cases finalized with
  | none => trivial
  | some e => trivial

theorem restoreTo_entry (d : Detached) (restored : DeletionEntryOutcome) (failure : String) :
    (restoreTo host d restored failure).Uses EntryCall := by
  refine Program.Uses.bind (restoreDetached_entry host _ _ _ _) ?_
  intro restored
  cases restored with
  | none => trivial
  | some e => trivial

theorem inspectionFailed_entry (d : Detached) (e : DeletionPlanError) :
    (inspectionFailed host d e).Uses EntryCall := by
  unfold inspectionFailed
  split
  · exact finalizeTo_entry host d _ _
  · exact restoreTo_entry host d _ _

theorem removeIsolated_entry (d : Detached) (entry : PlannedEntry) (isolation : Isolation)
    (reference : Option Handle) :
    (removeIsolated host d entry isolation reference).Uses EntryCall := by
  refine Program.Uses.bind ?_ ?_
  · cases entry.snapshot.kind with
    | Directory => exact Program.uses_ask (Or.inr rfl)
    | File => exact Program.uses_ask (Or.inr rfl)
    | Link => exact Program.uses_ask (Or.inr rfl)
  · intro removal
    cases removal with
    | none =>
      dsimp only
      split
      · refine Program.Uses.bind ?_ ?_
        · cases reference with
          | none => trivial
          | some r => exact Program.uses_ask (Or.inl rfl)
        · intro links
          refine Program.Uses.bind (finalizeTo_entry host d _ _) ?_
          intro outcome
          split
          · trivial
          · trivial
      · exact Program.Uses.bind (finalizeTo_entry host d _ _) fun _ => trivial
    | some e =>
      dsimp only
      split
      · exact Program.Uses.bind (finalizeTo_entry host d _ _) fun _ => trivial
      · split
        · exact Program.Uses.bind (restoreTo_entry host d _ _) fun _ => trivial
        · exact Program.Uses.bind (restoreTo_entry host d _ _) fun _ => trivial

theorem executeIsolated_entry (d : Detached) (entry : PlannedEntry) (isolation : Isolation) :
    (executeIsolated host d entry isolation).Uses EntryCall := by
  refine Program.Uses.bind (entry_of_calm (inspectChild_calm host _ _ _)) ?_
  intro read
  cases read with
  | error e => exact Program.Uses.bind (inspectionFailed_entry host d e) fun _ => trivial
  | ok actual =>
    dsimp only
    split
    · exact Program.Uses.bind (restoreTo_entry host d _ _) fun _ => trivial
    · refine ⟨Or.inl rfl, ?_⟩
      intro _
      refine Program.Uses.bind (entry_of_calm (inspectChild_calm host _ _ _)) ?_
      intro again
      cases again with
      | error e => exact Program.Uses.bind (inspectionFailed_entry host d e) fun _ => trivial
      | ok revalidated =>
        dsimp only
        split
        · exact Program.Uses.bind (restoreTo_entry host d _ _) fun _ => trivial
        · refine Program.Uses.bind ?_ ?_
          · unfold linkReference
            split
            · exact Program.uses_ask (Or.inl rfl)
            · trivial
          · intro reference
            exact removeIsolated_entry host d _ _ reference

theorem isolationFailed_calm (d : Detached) (entry : PlannedEntry) (isolation : Isolation)
    (e : IoError) : (isolationFailed host d entry isolation e).Uses CalmCall := by
  refine Program.Uses.bind (removeVerifiedPlaceholder_calm host _ _ _) ?_
  intro cleanup
  dsimp only
  split
  · cases cleanup with
    | none => trivial
    | some c => trivial
  · trivial

/-! ## One entry -/

open StopState

variable {P : StopState → Prop} {w : StopState}

theorem wp_gatedClaim (hP : Steady P) (hw : Sound w ∧ P w) :
    stopWorld.wp Sound (fun _ w => Sound w ∧ P w) gatedClaim w := by
  refine wp_calm ?_ hP hw
  refine ⟨rfl, ?_⟩
  intro hard
  cases hard with
  | true => trivial
  | false => exact Program.uses_ask rfl

theorem wp_gatedBegin (hP : Steady P) (hw : Sound w ∧ P w) :
    stopWorld.wp Sound (fun begun w => Sound w ∧ P w ∧ (begun = true → w.gate = .Started))
      gatedBegin w := by
  unfold gatedBegin
  refine wp_ask_bind hP hw ?_
  intro w answers hard hs hw _
  have hm := moves_calm hs (c := .loadHard) rfl answers
  have hw' := hP _ _ hm.drift hw
  generalize (executorStep answers .loadHard w).1 = w at hm hw'
  cases hard with
  | true => exact wp_return hP ⟨hm.sound, hw'⟩ fun w hs hw => ⟨hs, hw, by simp⟩
  | false =>
    refine wp_at (c := .tryBegin) hP ⟨hm.sound, hw'⟩ ?_
    intro w answers begun hs hw hbegun
    have hm := moves_calm hs (c := .tryBegin) rfl answers
    cases begun with
    | false =>
      exact wp_return hP ⟨hm.sound, hP _ _ hm.drift hw⟩ fun w hs hw => ⟨hs, hw, by simp⟩
    | true =>
      have hgate : (executorStep answers .tryBegin w).1.gate = .Started := tryBegin_true hbegun
      exact wp_return (steady_started hP) ⟨hm.sound, hP _ _ hm.drift hw, hgate⟩
        fun w hs hw => ⟨hs, hw.1, fun _ => hw.2⟩

/-- An entry past the check of the loop is changed only past the gate. -/
theorem wp_executeUnixEntry {k : Nat} (hP : Steady P) (hk : ∀ w, P w → Entered k w) (root : Handle)
    (entry : PlannedEntry) (isolation : Isolation) (hw : Sound w ∧ P w) :
    stopWorld.wp Sound (fun _ w => Sound w ∧ P w)
      (executeUnixEntry host gatedClaim gatedBegin root entry isolation) w := by
  have hret : ∀ (a : Executed) (w : StopState), Sound w ∧ P w →
      stopWorld.wp Sound (fun _ w => Sound w ∧ P w) (pure a) w :=
    fun a w hw => wp_return hP hw fun w hs hw => ⟨hs, hw⟩
  unfold executeUnixEntry
  refine World.wp_bind ((wp_calm (openParent_calm host root _) hP hw).mono ?_)
  intro opened w hw
  cases opened with
  | error e =>
    dsimp only
    split
    · exact hret _ w hw
    · exact hret _ w hw
  | ok found =>
    refine World.wp_bind ((wp_gatedClaim hP hw).mono ?_)
    intro claimed w hw
    cases claimed with
    | false => exact hret _ w hw
    | true =>
      refine World.wp_bind ((wp_calm (createPlaceholder_calm found.1 _) hP hw).mono ?_)
      intro created w hw
      cases created with
      | error e => exact hret _ w hw
      | ok made =>
        refine World.wp_bind ((wp_gatedBegin hP hw).mono ?_)
        intro begun w hw
        cases begun with
        | true =>
          have hgate : w.gate = .Started := hw.2.2 rfl
          refine wp_entry ?_ hP hk ⟨hw.1, hw.2.1, hgate⟩
          refine ⟨Or.inr rfl, ?_⟩
          intro exchanged
          cases exchanged with
          | some e => exact entry_of_calm (isolationFailed_calm host _ _ _ e)
          | none => exact executeIsolated_entry host _ _ _
        | false =>
          refine wp_calm ?_ hP ⟨hw.1, hw.2.1⟩
          refine ⟨rfl, ?_⟩
          intro _
          refine Program.Uses.bind (removeVerifiedPlaceholder_calm host _ _ _) ?_
          intro cleanup
          cases cleanup with
          | none => trivial
          | some e => trivial

/-! ## Reporting -/

theorem moves_storeResult {w : StopState} (h : Sound w) {result : DeletionEntryResult}
    (hj : (⟨.reports result.outcome, w.current, w.checked, w.softAt⟩ : StopRecord).Judged w.gate)
    (answers : Answers) : Moves w (executorStep answers (.storeResult result) w).1 := by
  unfold executorStep
  dsimp only
  split
  · exact h.moves_record hj
  · exact .refl h

/-- A record may be stored of an entry that was entered in time, or as unattempted. -/
def Reportable (outcome : DeletionEntryOutcome) (w : StopState) : Prop :=
  w.checked = true → ∀ n ∈ w.current, ∀ m ∈ w.softAt, m < n → outcome = .Unattempted

theorem wp_push (r : ResultCollector) (result : DeletionEntryResult) (hP : Steady P)
    (hreport : ∀ w, P w → Reportable result.outcome.bound w) (hw : Sound w ∧ P w) :
    stopWorld.wp Sound (fun out w => Sound w ∧ P w ∧ (out.2 = none →
      out.1.entries = r.entries ++ [{ result with outcome := result.outcome.bound }]))
      (push host r result) w := by
  have hstore : ∀ (storage : ResultStorage) (w : StopState)
      (f : Option IoError → Executor (ResultCollector × Option IoError)), Sound w ∧ P w →
      (∀ e, f (some e) =
        pure (r.noted { result with outcome := result.outcome.bound }, some e)) →
      f none = pure (r.stored { result with outcome := result.outcome.bound } storage, none) →
      stopWorld.wp Sound (fun out w => Sound w ∧ P w ∧ (out.2 = none →
        out.1.entries = r.entries ++ [{ result with outcome := result.outcome.bound }]))
        (storeResult { result with outcome := result.outcome.bound } >>= f) w := by
    intro storage w f hw hsome hnone
    refine wp_ask_bind hP hw ?_
    intro w answers stored hs hw _
    have hm := @moves_storeResult _ hs { result with outcome := result.outcome.bound }
      ⟨by simp, by simp, by simp, fun outcome he hc n hn m hm hlt => by
        obtain rfl := StopEvent.reports.inj he
        exact hreport w hw hc n hn m hm hlt⟩ answers
    have hw' := hP _ _ hm.drift hw
    cases stored with
    | some e =>
      rw [hsome]
      exact wp_return hP ⟨hm.sound, hw'⟩ fun w hs hw => ⟨hs, hw, by simp⟩
    | none =>
      rw [hnone]
      exact wp_return hP ⟨hm.sound, hw'⟩ fun w hs hw => ⟨hs, hw, fun _ => rfl⟩
  unfold push
  cases r.storage with
  | InMemory estimatedBytes maximumBytes =>
    dsimp only
    split
    · exact wp_return hP hw fun w hs hw => ⟨hs, hw, by simp⟩
    · exact hstore _ w _ hw (fun _ => rfl) rfl
  | Spilled => exact hstore _ w _ hw (fun _ => rfl) rfl

/-- After the entries taken when the soft flag was set, only unattempted ones are listed. -/
def Late (entries : List DeletionEntryResult) (w : StopState) : Prop :=
  ∀ m ∈ w.softAt, ∀ i x, m ≤ i → entries[i]? = some x → x.outcome = .Unattempted

/-- `k` entries are taken, and `entries` were reported. -/
structure Listing (k : Nat) (entries : List DeletionEntryResult) (w : StopState) : Prop where
  taken : w.taken = k
  checked : w.checked = true
  length : entries.length ≤ k
  late : Late entries w

theorem steady_listing (k : Nat) (entries : List DeletionEntryResult) :
    Steady (Listing k entries) := by
  intro w w' hd h
  refine ⟨hd.taken.trans h.taken, hd.checked.trans h.checked, h.length, ?_⟩
  rcases hd.softAt with heq | ⟨-, heq⟩
  · unfold Late
    rw [heq]
    exact h.late
  · intro m hm i x hi hx
    rw [heq, h.taken, Option.mem_some_iff] at hm
    have hlt := (List.getElem?_eq_some_iff.mp hx).1
    have hlength := h.length
    omega

theorem Listing.push {k : Nat} {entries : List DeletionEntryResult} {w : StopState}
    (h : Listing (k + 1) entries w) (hlength : entries.length = k) {x : DeletionEntryResult}
    (hx : ∀ m ∈ w.softAt, m ≤ k → x.outcome = .Unattempted) :
    Listing (k + 1) (entries ++ [x]) w := by
  refine ⟨h.taken, h.checked, by simp [hlength], ?_⟩
  intro m hm i y hi hy
  rcases Nat.lt_or_ge i entries.length with hlt | hge
  · rw [List.getElem?_append_left hlt] at hy
    exact h.late m hm i y hi hy
  · rw [List.getElem?_append_right hge, List.getElem?_singleton] at hy
    split at hy
    · obtain rfl := Option.some.inj hy
      exact hx m hm (by omega)
    · cases hy

theorem wp_mayExecute {stopped : Bool} (hP : Steady P) {k : Nat}
    (hk : ∀ w, P w → w.taken = k ∧ w.current = some k) (hw : Sound w ∧ P w) :
    stopWorld.wp Sound (fun may w => Sound w ∧ P w ∧ (may = true → Entered k w))
      (mayExecute stopped) w := by
  have hno : ∀ w, Sound w ∧ P w → stopWorld.wp Sound
      (fun may w => Sound w ∧ P w ∧ (may = true → Entered k w)) (pure false) w :=
    fun w hw => wp_return hP hw fun w hs hw => ⟨hs, hw, by simp⟩
  cases stopped with
  | true => exact hno w hw
  | false =>
    refine wp_at (c := .loadSoft) hP hw ?_
    intro w answers soft hs hw hsoft
    obtain rfl : w.soft = soft := Option.some.inj hsoft
    have hstep : (executorStep answers .loadSoft w).1 = w := rfl
    rw [hstep]
    cases hflag : w.soft with
    | true => exact hno w ⟨hs, hw⟩
    | false =>
      have hentered : Entered k w := by
        refine ⟨(hk w hw).1, (hk w hw).2, ?_⟩
        intro m hm
        have hnone := hs.soft
        rw [hflag, Option.mem_def.mp hm] at hnone
        cases hnone
      have hboth : Steady fun w => P w ∧ Entered k w := fun w w' hd h =>
        ⟨hP w w' hd h.1, steady_entered k w w' hd h.2⟩
      refine wp_at (c := .loadHard) hboth ⟨hs, hw, hentered⟩ ?_
      intro w answers hard hs hw _
      cases hard with
      | true => exact hno w ⟨hs, hw.1⟩
      | false => exact wp_return hboth ⟨hs, hw⟩ fun w hs hw => ⟨hs, hw.1, fun _ => hw.2⟩

/-- The next entry, from the check of the loop to its stored result. -/
theorem wp_executeEntry (scanRoot : OsString) (root : Handle) (r : ResultCollector)
    (stopped : Bool) (entry : PlannedEntry) {k : Nat} (hlength : r.entries.length = k)
    (hw : Sound w ∧ Listing (k + 1) r.entries w ∧ w.current = some (k + 1)) :
    stopWorld.wp Sound (fun out w => Sound w ∧ w.taken = k + 1 ∧ w.checked = true ∧
      (out.2.2 = none → out.1.entries.length = k + 1 ∧ Listing (k + 1) out.1.entries w))
      (executeEntry host gatedClaim gatedBegin scanRoot root r stopped entry) w := by
  have hP : Steady fun w => Listing (k + 1) r.entries w ∧ w.current = some (k + 1) :=
    fun w w' hd h => ⟨steady_listing _ _ w w' hd h.1, hd.current.trans h.2⟩
  have hk : ∀ w, Listing (k + 1) r.entries w ∧ w.current = some (k + 1) →
      w.taken = k + 1 ∧ w.current = some (k + 1) := fun w h => ⟨h.1.taken, h.2⟩
  have hentered : Steady fun w => (Listing (k + 1) r.entries w ∧ w.current = some (k + 1)) ∧
      Entered (k + 1) w := fun w w' hd h =>
    ⟨hP w w' hd h.1, steady_entered _ w w' hd h.2⟩
  unfold executeEntry
  refine World.wp_bind ((wp_mayExecute hP hk hw).mono ?_)
  intro may w hw
  cases may with
  | true =>
    have hin : Entered (k + 1) w := hw.2.2 rfl
    refine World.wp_bind ((wp_executeUnixEntry host hentered (fun w h => h.2) root entry _
      ⟨hw.1, hw.2.1, hin⟩).mono ?_)
    intro executed w hw
    refine World.wp_bind ((wp_calm (p := stopAfter executed.outcome) ?_ hentered hw).mono ?_)
    · unfold stopAfter
      split
      · exact Program.uses_ask rfl
      · trivial
    · intro _ w hw
      have hcollector : (if removedWithOtherLinks executed.entry.snapshot.kind executed.outcome
          executed.isolation.noLinkSurvived then r.noteOtherLinks else r).entries = r.entries := by
        split
        · rfl
        · rfl
      refine World.wp_bind ((wp_push host _ (recorded executed) hentered ?_ hw).mono ?_)
      · rintro w ⟨⟨-, hcurrent⟩, -, -, hsoft⟩ - n hn m hm hlt
        rw [hcurrent, Option.mem_some_iff] at hn
        have heq := hsoft m hm
        omega
      · rintro ⟨collected, error⟩ w ⟨hs, hw, hpushed⟩
        refine wp_return (P := fun w => (Listing (k + 1) r.entries w ∧ w.current = some (k + 1)) ∧
          Entered (k + 1) w) hentered ⟨hs, hw⟩ ?_
        rintro w hs ⟨⟨hlisting, -⟩, -, -, hsoft⟩
        refine ⟨hs, hlisting.taken, hlisting.checked, ?_⟩
        intro herror
        have hcollected := hpushed herror
        rw [hcollector] at hcollected
        dsimp only at hcollected ⊢
        rw [hcollected]
        refine ⟨by simp [hlength], hlisting.push hlength ?_⟩
        intro m hm hle
        have heq := hsoft m hm
        omega
  | false =>
    refine World.wp_bind ((wp_push host r ⟨entry, .Unattempted⟩ hP ?_ ⟨hw.1, hw.2.1⟩).mono ?_)
    · intro w _ _ n _ m _ _
      rfl
    · rintro ⟨collected, error⟩ w ⟨hs, hw, hpushed⟩
      refine wp_return (P := fun w => Listing (k + 1) r.entries w ∧ w.current = some (k + 1)) hP
        ⟨hs, hw⟩ ?_
      rintro w hs ⟨hlisting, -⟩
      refine ⟨hs, hlisting.taken, hlisting.checked, ?_⟩
      intro herror
      have hcollected := hpushed herror
      dsimp only at hcollected ⊢
      rw [hcollected]
      exact ⟨by simp [hlength], hlisting.push hlength fun _ _ _ => rfl⟩

/-! ## The whole run -/

/-- Every entry of `entries` is reported as failed. -/
def AllFailed (entries : List DeletionEntryResult) : Prop :=
  ∀ x ∈ entries, ∃ message, x.outcome = .Failed message

/-- A complete report lists every entry of the plan. Of a plan that passed its last check what was
taken after the soft flag was set is unattempted; of one that did not, everything failed. -/
def Answered (n : Nat) (report : DeletionReport) (w : StopState) : Prop :=
  report.entries.complete = true → report.entries.entries.length = n ∧
    (w.checked = true → Listing n report.entries.entries w) ∧
    (w.checked = false → AllFailed report.entries.entries)

theorem steady_answered (n : Nat) (report : DeletionReport) : Steady (Answered n report) := by
  intro w w' hd h hcomplete
  obtain ⟨hlength, hlisting, hfailed⟩ := h hcomplete
  refine ⟨hlength, ?_, ?_⟩
  · intro hchecked
    exact steady_listing _ _ w w' hd (hlisting (hd.checked.symm.trans hchecked))
  · intro hchecked
    exact hfailed (hd.checked.symm.trans hchecked)

theorem wp_incomplete {n : Nat} {report : DeletionReport} (hP : Steady P) (hw : Sound w ∧ P w)
    (hreport : report.entries.complete = false) :
    stopWorld.wp Sound (fun report w => Sound w ∧ Answered n report w) (pure report) w := by
  refine wp_return hP hw fun w hs _ => ⟨hs, ?_⟩
  intro hcomplete
  rw [hreport] at hcomplete
  cases hcomplete

theorem wp_planReadFailure (scanRoot : OsString) (plan : DeletionPlan) (r : ResultCollector)
    (e : DeletionPlanError) (soft : Bool) {n : Nat}
    (hw : Sound w ∧ w.current = none) :
    stopWorld.wp Sound (fun report w => Sound w ∧ Answered n report w)
      (planReadFailureReport host scanRoot plan r e soft) w := by
  have hP : Steady fun w => w.current = none := fun w w' hd h => hd.current.trans h
  unfold planReadFailureReport
  refine World.wp_bind ((wp_push host r _ hP ?_ hw).mono ?_)
  · intro w hcurrent _ n hn
    rw [hcurrent] at hn
    cases hn
  · rintro ⟨collected, error⟩ w ⟨hs, hw, -⟩
    cases error with
    | some e => exact wp_incomplete hP ⟨hs, hw⟩ rfl
    | none => exact wp_incomplete hP ⟨hs, hw⟩ rfl

theorem sound_pop {w : StopState} (h : Sound w) (entry : Option PlannedEntry)
    (answer : Option DeletionPlanError) : Sound (w.pop entry answer) := by
  unfold StopState.pop
  split
  · refine ⟨h.swaps, h.soft, ?_, ?_, h.judged⟩
    · intro m hm
      exact (h.softAt_le m hm).trans (Nat.le_succ _)
    · intro n hn
      exact (Option.mem_some_iff.mp hn).symm
  · exact ⟨h.swaps, h.soft, h.softAt_le, by simp, h.judged⟩

theorem pop_failed {w : StopState} {entry : Option PlannedEntry} {e : DeletionPlanError} :
    (w.pop entry (some e)).current = none := by
  simp [StopState.pop]

/-- The soft flag is loaded for a report of a plan that could not be read. -/
theorem wp_readFailure (scanRoot : OsString) (plan : DeletionPlan) (r : ResultCollector)
    (e : DeletionPlanError) {n : Nat} (hw : Sound w ∧ w.current = none) :
    stopWorld.wp Sound (fun report w => Sound w ∧ Answered n report w)
      (do
        let soft ← loadSoft
        planReadFailureReport host scanRoot plan r e soft) w := by
  have hP : Steady fun w => w.current = none := fun w w' hd h => hd.current.trans h
  refine wp_ask_bind hP hw ?_
  intro w answers soft hs hw _
  exact wp_planReadFailure host scanRoot plan r e soft ⟨hs, hw⟩

theorem wp_executeEntries (scanRoot : OsString) (plan : DeletionPlan) (root : Handle)
    (rest : List PlannedEntry) :
    ∀ (r : ResultCollector) (stopped : Bool) (k : Nat) (w : StopState),
      r.entries.length = k → Sound w ∧ Listing k r.entries w →
      stopWorld.wp Sound (fun report w => Sound w ∧ Answered (k + rest.length) report w)
        (executeEntries host gatedClaim gatedBegin scanRoot plan root r stopped rest) w := by
  induction rest with
  | nil =>
    intro r stopped k w hlength hw
    have hP := steady_listing k r.entries
    unfold executeEntries
    refine wp_ask_bind hP hw ?_
    intro w answers popped hs hw hpopped
    have hpop : (executorStep answers (.popReverse none) w).1 = w.pop none popped := by
      rw [← Option.some.inj hpopped]
      rfl
    rw [hpop]
    have hsound := sound_pop hs none popped
    cases popped with
    | some e => exact wp_readFailure host scanRoot plan r e ⟨hsound, pop_failed⟩
    | none =>
      have hlisting : Listing k r.entries (w.pop none none) := ⟨hw.taken, hw.checked, hw.length, hw.late⟩
      refine wp_ask_bind hP ⟨hsound, hlisting⟩ ?_
      intro w answers soft hs hw _
      refine wp_ask_bind hP ⟨hs, hw⟩ ?_
      intro w answers hard hs hw _
      refine wp_return hP ⟨hs, hw⟩ ?_
      intro w hs hw
      refine ⟨hs, fun _ => ⟨hlength, fun _ => hw, ?_⟩⟩
      intro hunchecked
      rw [hw.checked] at hunchecked
      cases hunchecked
  | cons entry rest ih =>
    intro r stopped k w hlength hw
    have hP := steady_listing k r.entries
    unfold executeEntries
    refine wp_ask_bind hP hw ?_
    intro w answers popped hs hw hpopped
    have hpop : (executorStep answers (.popReverse (some entry)) w).1 = w.pop (some entry) popped := by
      rw [← Option.some.inj hpopped]
      rfl
    rw [hpop]
    have hsound := sound_pop hs (some entry) popped
    cases popped with
    | some e => exact wp_readFailure host scanRoot plan r e ⟨hsound, pop_failed⟩
    | none =>
      have htaken : (w.pop (some entry) none).taken = k + 1 := congrArg (· + 1) hw.taken
      have hcurrent : (w.pop (some entry) none).current = some (k + 1) :=
        congrArg (fun n => some (n + 1)) hw.taken
      have hlisting : Listing (k + 1) r.entries (w.pop (some entry) none) :=
        ⟨htaken, hw.checked, hw.length.trans (Nat.le_succ k), hw.late⟩
      refine World.wp_bind ((wp_executeEntry host scanRoot root r stopped entry hlength
        ⟨hsound, hlisting, hcurrent⟩).mono ?_)
      rintro ⟨collected, stopped', error⟩ w ⟨hs, -, -, hnone⟩
      cases error with
      | some e =>
        have htrivial : Steady fun _ => True := fun _ _ _ h => h
        refine wp_ask_bind htrivial ⟨hs, trivial⟩ ?_
        intro w answers soft hs _ _
        exact wp_incomplete htrivial ⟨hs, trivial⟩ rfl
      | none =>
        obtain ⟨hcollected, hlisting⟩ := hnone rfl
        have hnext := ih collected stopped' (k + 1) w hcollected ⟨hs, hlisting⟩
        rw [Nat.add_assoc, Nat.add_comm 1 rest.length] at hnext
        exact hnext

/-- A plan that failed its last check: nothing of it is executed, and every entry is failed. -/
theorem wp_failedReport (scanRoot : OsString) (plan : DeletionPlan) (message : String)
    (rest : List PlannedEntry) :
    ∀ (r : ResultCollector) (k : Nat) (w : StopState), r.entries.length = k → AllFailed r.entries →
      Sound w ∧ w.checked = false →
      stopWorld.wp Sound (fun report w => Sound w ∧ Answered (k + rest.length) report w)
        (failedReport host scanRoot plan message r rest) w := by
  have hP : Steady fun w => w.checked = false := fun w w' hd h => hd.checked.trans h
  have hreport : ∀ outcome w, w.checked = false → Reportable outcome w := by
    intro outcome w hw hchecked
    rw [hw] at hchecked
    cases hchecked
  have hpop : ∀ (answers : Answers) (w : StopState) (entry : Option PlannedEntry)
      (answer : Option DeletionPlanError), Sound w → w.checked = false →
      (executorStep answers (.popReverse entry) w).2 = some answer →
      Sound (executorStep answers (.popReverse entry) w).1 ∧
        (executorStep answers (.popReverse entry) w).1.checked = false := by
    intro answers w entry answer hs hw _
    refine ⟨sound_pop hs entry _, ?_⟩
    unfold executorStep StopState.pop
    dsimp only
    split
    · exact hw
    · exact hw
  have hread : ∀ (n : Nat) (r : ResultCollector) (e : DeletionPlanError) (w : StopState),
      Sound w ∧ w.checked = false → stopWorld.wp Sound (fun report w => Sound w ∧ Answered n report w)
        (planReadFailureReport host scanRoot plan r e false) w := by
    intro n r e w hw
    unfold planReadFailureReport
    refine World.wp_bind ((wp_push host r _ hP (hreport _) hw).mono ?_)
    rintro ⟨collected, error⟩ w ⟨hs, hw, -⟩
    cases error with
    | some e => exact wp_incomplete hP ⟨hs, hw⟩ rfl
    | none => exact wp_incomplete hP ⟨hs, hw⟩ rfl
  induction rest with
  | nil =>
    intro r k w hlength hfailed hw
    unfold failedReport
    refine wp_ask_bind hP hw ?_
    intro w answers popped hs hw hpopped
    have hnext := hpop answers w none popped hs hw hpopped
    cases popped with
    | some e => exact hread _ r e _ hnext
    | none =>
      refine wp_return hP hnext fun w hs hw => ⟨hs, fun _ => ⟨hlength, ?_, fun _ => hfailed⟩⟩
      intro hchecked
      rw [hw] at hchecked
      cases hchecked
  | cons entry rest ih =>
    intro r k w hlength hfailed hw
    unfold failedReport
    refine wp_ask_bind hP hw ?_
    intro w answers popped hs hw hpopped
    have hnext := hpop answers w (some entry) popped hs hw hpopped
    cases popped with
    | some e => exact hread _ r e _ hnext
    | none =>
      refine World.wp_bind ((wp_push host r _ hP (hreport _) hnext).mono ?_)
      rintro ⟨collected, error⟩ w ⟨hs, hw, hpushed⟩
      cases error with
      | some e => exact wp_incomplete hP ⟨hs, hw⟩ rfl
      | none =>
        have hentries := hpushed rfl
        have hcollected : collected.entries.length = k + 1 := by
          rw [hentries, List.length_append, hlength]
          rfl
        have hall : AllFailed collected.entries := by
          intro x hx
          rw [hentries] at hx
          rcases List.mem_append.mp hx with hold | hnew
          · exact hfailed x hold
          · rw [List.mem_singleton.mp hnew]
            exact ⟨_, rfl⟩
        have hrest := ih collected (k + 1) w hcollected hall ⟨hs, hw⟩
        rw [Nat.add_assoc, Nat.add_comm 1 rest.length] at hrest
        exact hrest

/-- Before the first entry. -/
def Untaken (w : StopState) : Prop := w.taken = 0 ∧ w.checked = false

theorem steady_untaken : Steady Untaken :=
  fun _ _ hd h => ⟨hd.taken.trans h.1, hd.checked.trans h.2⟩

theorem wp_executePlan (scanRoot : OsString) (plan : DeletionPlan) (storage : ResultStorage)
    (hw : Sound w ∧ Untaken w) :
    stopWorld.wp Sound (fun report w => Sound w ∧ Answered plan.entries.length report w)
      (executePlan host gatedClaim gatedBegin scanRoot plan storage) w := by
  have hrefused : ∀ (message : String) (w : StopState), Sound w ∧ w.checked = false →
      stopWorld.wp Sound (fun report w => Sound w ∧ Answered plan.entries.length report w)
        (failedReport host scanRoot plan message (storage.intoCollector plan.rootRelativePath)
          plan.entries.reverse) w := by
    intro message w hw
    have hall := wp_failedReport host scanRoot plan message plan.entries.reverse
      (storage.intoCollector plan.rootRelativePath) 0 w rfl (fun _ hx => nomatch hx) hw
    rwa [Nat.zero_add, List.length_reverse] at hall
  unfold executePlan
  refine wp_ask_bind steady_untaken hw ?_
  intro w answers opened hs hw _
  cases opened with
  | error e => exact hrefused _ w ⟨hs, hw.2⟩
  | ok root =>
    refine wp_ask_bind steady_untaken ⟨hs, hw⟩ ?_
    intro w answers visited hs hw hvisited
    have hcheck : (executorStep answers .visitEntries w).1 = w.check visited := by
      rw [← Option.some.inj hvisited]
      rfl
    have hsound : Sound (w.check visited) := ⟨hs.swaps, hs.soft, hs.softAt_le, hs.current, hs.judged⟩
    rw [hcheck]
    cases visited with
    | some e => exact hrefused _ _ ⟨hsound, rfl⟩
    | none =>
      have hlisting : Listing 0 (storage.intoCollector plan.rootRelativePath).entries
          (w.check none) := by
        refine ⟨hw.1, rfl, le_refl _, ?_⟩
        intro m _ i x _ hx
        cases hx
      have hloop := wp_executeEntries host scanRoot plan root plan.entries.reverse
        (storage.intoCollector plan.rootRelativePath) false 0 _ rfl ⟨hsound, hlisting⟩
      rwa [Nat.zero_add, List.length_reverse] at hloop

theorem revalidateEntries_calm (root : Handle) (target : RelativePath)
    (entries : List PlannedEntry) : (revalidateEntries host root target entries).Uses CalmCall := by
  induction entries with
  | nil => trivial
  | cons entry rest ih =>
    refine ⟨rfl, ?_⟩
    intro visited
    cases visited with
    | some e => trivial
    | none =>
      refine ⟨rfl, ?_⟩
      intro soft
      cases soft with
      | true => trivial
      | false =>
        refine Program.Uses.bind (inspectRelative_calm host root entry.relativePath) ?_
        intro read
        cases read with
        | error e => cases e <;> trivial
        | ok actual =>
          dsimp only
          split
          · trivial
          · exact ih

theorem revalidatePlan_calm (plan : DeletionPlan) : (revalidatePlan host plan).Uses CalmCall := by
  refine ⟨rfl, ?_⟩
  intro opened
  cases opened with
  | error e => trivial
  | ok root => exact revalidateEntries_calm host root _ _

theorem wp_executionWorker (scanRoot : OsString) (plan : DeletionPlan) (storage : ResultStorage)
    (hard : Bool) :
    stopWorld.wp Sound (fun out w => Sound w ∧ ∀ report, out = .ok report →
      Answered plan.entries.length report w)
      (executionWorker host scanRoot plan storage) (.start hard) := by
  have hstart : Sound (.start hard) ∧ Untaken (.start hard) := ⟨sound_start hard, rfl, rfl⟩
  unfold executionWorker
  refine World.wp_bind ((wp_calm (revalidatePlan_calm host plan) steady_untaken hstart).mono ?_)
  intro rejected w hw
  cases rejected with
  | some e =>
    exact wp_return steady_untaken hw fun w hs _ => ⟨hs, fun _ h => by cases h⟩
  | none =>
    refine World.wp_bind ((wp_executePlan host scanRoot plan storage hw).mono ?_)
    intro report w hw
    refine wp_return (steady_answered _ report) hw fun w hs hw => ⟨hs, ?_⟩
    intro report' heq
    rw [← Except.ok.inj heq]
    exact hw

/-! ## The protocol -/

/-- Whatever a step of the executor does, it records it, and stays a stopped executor. -/
theorem since_executorStep {w : StopState} (h : Sound w) (answers : Answers) (c : ExecutorCall) :
    ∃ new, Since w (executorStep answers c w).1 new := by
  by_cases hc : c.calm = true
  · exact (moves_calm h hc answers).since
  · cases c with
    | visitEntries => exact ⟨[], by simp [executorStep, StopState.check], le_refl _, fun _ h => h,
        by simp, by simp, fun h => h⟩
    | popReverse e =>
      refine ⟨[], ?_, ?_, ?_, by simp, by simp, ?_⟩ <;>
        unfold executorStep StopState.pop <;> dsimp only <;> split <;> simp
    | storeResult r =>
      unfold executorStep
      dsimp only
      split
      · exact ⟨_, since_record h _⟩
      · exact ⟨[], Since.refl w⟩
    | exchange d a b => exact ⟨_, since_record h .touches⟩
    | renameNoreplace d a b => exact ⟨_, since_record h .touches⟩
    | removeFile d a => exact ⟨_, since_record h .touches⟩
    | removeDir d a => exact ⟨_, since_record h .touches⟩
    | _ => exact absurd rfl hc

end Executor

/-- The executor of one command among any number of stop requests, after these steps. -/
def stopping (host : Host) (scanRoot : OsString) (plan : DeletionPlan) (storage : ResultStorage)
    (hard : Bool) (steps : List (Answers ⊕ StopAction)) :
    StopState × Executor (Except DeletionPlanError DeletionReport) :=
  (stopWorld.machine _).run (.start hard, Executor.executionWorker host scanRoot plan storage) steps

section Protocol
open StopState
variable (host : Host) (scanRoot : OsString) (plan : DeletionPlan) (storage : ResultStorage)
  (hard : Bool)

theorem sound_stopping (steps : List (Answers ⊕ StopAction)) :
    Sound (stopping host scanRoot plan storage hard steps).1 :=
  ((Executor.wp_executionWorker host scanRoot plan storage hard).run steps).invariant

theorem since_step {α : Type} {s : StopState × Executor α} (h : Sound s.1)
    (step : Answers ⊕ StopAction) : ∃ new, Since s.1 (stopWorld.step s step).1 new := by
  cases step with
  | inr a => exact (h.moves_others a).since
  | inl answers =>
    obtain ⟨w, p⟩ := s
    cases p with
    | done a => exact ⟨[], Since.refl w⟩
    | call c next => exact Executor.since_executorStep h answers c

theorem since_stopping (before after : List (Answers ⊕ StopAction)) :
    ∃ new, Since (stopping host scanRoot plan storage hard before).1
      (stopping host scanRoot plan storage hard (before ++ after)).1 new := by
  unfold stopping
  induction after using List.reverseRecOn with
  | nil => exact ⟨[], by rw [List.append_nil]; exact Since.refl _⟩
  | append_singleton steps step ih =>
    obtain ⟨new, hnew⟩ := ih
    have hsound := sound_stopping host scanRoot plan storage hard (before ++ steps)
    unfold stopping at hsound
    rw [← List.append_assoc, Machine.run_append _ _ (before ++ steps)]
    obtain ⟨new', hnew'⟩ := since_step hsound step
    exact ⟨_, hnew.trans hnew'⟩

/-- The stop protocol of one execution, for every interleaving. Where a stop was granted nothing is
touched. Once the mutation was seen to have started no stop is granted. Once the soft flag is set
only the entry at hand is touched, every later entry that is reported is unattempted, and a
complete report has all of them, or has every entry failed where the last check of the plan
failed. -/
theorem stop_protocol (before after : List (Answers ⊕ StopAction)) :
    (∀ r ∈ (stopping host scanRoot plan storage hard before).1.log, r.event = .answered true →
      ∀ r' ∈ (stopping host scanRoot plan storage hard before).1.log, r'.event ≠ .touches) ∧
    ∃ new, (stopping host scanRoot plan storage hard (before ++ after)).1.log =
        (stopping host scanRoot plan storage hard before).1.log ++ new ∧
      ((∃ r ∈ (stopping host scanRoot plan storage hard before).1.log, r.event = .observed true) →
        ∀ r ∈ new, ∀ stopped, r.event = .answered stopped → stopped = false) ∧
      ((stopping host scanRoot plan storage hard before).1.soft = true →
        (∀ r ∈ new, r.event = .touches →
          r.entry = some (stopping host scanRoot plan storage hard before).1.taken) ∧
        (∀ r ∈ new, r.checked = true → ∀ n outcome, r.event = .reports outcome → r.entry = some n →
          (stopping host scanRoot plan storage hard before).1.taken < n → outcome = .Unattempted) ∧
        ∀ report,
          (stopping host scanRoot plan storage hard (before ++ after)).2 = .done (.ok report) →
          report.entries.complete = true →
          report.entries.entries.length = plan.entries.length ∧
          ((stopping host scanRoot plan storage hard (before ++ after)).1.checked = true →
            ∀ i x, (stopping host scanRoot plan storage hard before).1.taken ≤ i →
              report.entries.entries[i]? = some x → x.outcome = .Unattempted) ∧
          ((stopping host scanRoot plan storage hard (before ++ after)).1.checked = false →
            ∀ x ∈ report.entries.entries, ∃ message, x.outcome = .Failed message)) := by
  have hsound := sound_stopping host scanRoot plan storage hard before
  have hsound' := sound_stopping host scanRoot plan storage hard (before ++ after)
  obtain ⟨new, hnew⟩ := since_stopping host scanRoot plan storage hard before after
  have hwp := (Executor.wp_executionWorker host scanRoot plan storage hard).run (before ++ after)
  have hjudged : ∀ r ∈ new,
      r.Judged (stopping host scanRoot plan storage hard (before ++ after)).1.gate := by
    intro r hr
    refine hsound'.judged r ?_
    rw [hnew.log]
    exact List.mem_append_right _ hr
  refine ⟨?_, new, hnew.log, ?_, ?_⟩
  · intro r hr hgranted r' hr' htouches
    have hstop := (hsound.judged r hr).answered hgranted
    rw [((hsound.judged r' hr').touches htouches).1] at hstop
    cases hstop
  · rintro ⟨r, hr, hobserved⟩ r' hr' stopped hanswered
    have hstarted := hnew.gate ((hsound.judged r hr).observed hobserved)
    cases stopped with
    | false => rfl
    | true =>
      have hstop := (hjudged r' hr').answered hanswered
      rw [hstarted] at hstop
      cases hstop
  · intro hsoft
    rw [hsound.soft] at hsoft
    obtain ⟨m, hm⟩ := Option.isSome_iff_exists.mp hsoft
    have hle := hsound.softAt_le m hm
    refine ⟨?_, ?_, ?_⟩
    · intro r hr htouches
      have hentry := ((hjudged r hr).touches htouches).2 m (hnew.recorded r hr m hm)
      have hge := hnew.entries r hr m hentry
      rw [hentry, le_antisymm hle hge]
    · intro r hr hchecked n outcome hreports hentry hlt
      exact (hjudged r hr).reports outcome hreports hchecked n hentry m (hnew.recorded r hr m hm)
        (lt_of_le_of_lt hle hlt)
    · intro report hdone hcomplete
      unfold stopping at hdone
      rw [hdone] at hwp
      obtain ⟨-, -, hanswered⟩ := hwp _ (.refl _)
      obtain ⟨hlength, hlisting, hfailed⟩ := hanswered report rfl hcomplete
      refine ⟨hlength, ?_, hfailed⟩
      intro hchecked i x hi hx
      exact (hlisting hchecked).late m (hnew.softAt m hm) i x (hle.trans hi) hx

end Protocol

/-! ## A stop before the plan's last check fails -/

def plainHost : Host := ⟨id, fun _ => "", 0⟩

def oneFile : PlannedEntry :=
  ⟨⟨[⟨[0x61], valid_a⟩]⟩, ⟨⟨.Inode 1 2, some 1, false⟩, .File, 0, some 0, none⟩⟩

def oneFilePlan : DeletionPlan := ⟨oneFile.relativePath, [oneFile], oneFile.snapshot, 0⟩

/-- A file system that still has the file, and a root that opens or not. -/
def oneFileAnswers (rootOpens : Bool) : Answers
  | .openRoot => if rootOpens then .ok 0 else .error .Changed
  | .statAt _ _ => .ok (.ok oneFile.snapshot)
  | .loadSoft | .loadHard | .tryClaim | .tryBegin => false
  | .storeSoft | .addProgress => ()
  | .visitEntries | .visitEntry _ | .popReverse _ | .storeResult _ => none
  | .cloneRoot _ | .openDirNofollow _ _ | .createNew _ _ => .ok 0
  | .placeholderName => .ok []
  | .fileMetadata _ | .statOpen _ => .ok oneFile.snapshot
  | .exchange .. | .renameNoreplace .. | .removeFile .. | .removeDir .. | .removePlaceholder .. =>
    none
  | .openReference .. | .referenceLinks _ => none

/-- The plan is revalidated; the soft flag is set. -/
def stoppedBeforeCheck : List (Answers ⊕ StopAction) :=
  List.replicate 5 (.inl (oneFileAnswers true)) ++ [.inr (.stop 0)]

/-- The root does not open any more, and the run ends. -/
def rootLost : List (Answers ⊕ StopAction) := List.replicate 4 (.inl (oneFileAnswers false))

theorem stopped_entry_reported_failed :
    ¬ ∀ before after : List (Answers ⊕ StopAction),
      (stopping plainHost [] oneFilePlan .Spilled false before).1.soft = true →
      ∀ r ∈ (stopping plainHost [] oneFilePlan .Spilled false (before ++ after)).1.log,
        ∀ n outcome, r.event = .reports outcome → r.entry = some n →
          (stopping plainHost [] oneFilePlan .Spilled false before).1.taken < n →
          outcome = .Unattempted := by
  intro hall
  have hsoft : (stopping plainHost [] oneFilePlan .Spilled false stoppedBeforeCheck).1.soft = true ∧
      (stopping plainHost [] oneFilePlan .Spilled false stoppedBeforeCheck).1.taken = 0 := by
    decide +kernel
  have hfailed : (((stopping plainHost [] oneFilePlan .Spilled false
      (stoppedBeforeCheck ++ rootLost)).1.log).any fun r =>
        decide (r.entry = some 1) && (match r.event with
          | .reports (.Failed _) => true
          | _ => false)) = true := by decide +kernel
  obtain ⟨r, hr, hr'⟩ := List.any_eq_true.mp hfailed
  rw [Bool.and_eq_true, decide_eq_true_eq] at hr'
  obtain ⟨hentry, hevent⟩ := hr'
  split at hevent
  · rename_i detail heq
    have hbad := hall stoppedBeforeCheck rootLost hsoft.1 r hr 1 _ heq hentry (by omega)
    cases hbad
  · cases hevent

end Excise
