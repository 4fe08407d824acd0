import Excise.Deletion.ResultRecords
import Excise.Deletion.Stopped

/-!
# The account of an execution

The executor of a plan that is read back and whose results are stored, whatever the system, the
flags and the gate answer: one result for each planned entry, in the reverse of the plan's order.
-/

namespace Excise
set_option autoImplicit false

/-! ## A plan that is read back -/

/-- Of each entry taken from the plan, whether the system refused to isolate it. The entry at hand
is `isolated` once its name was to be exchanged. -/
structure IsolationTrace where
  refused : List Bool
  isolated : Bool

namespace IsolationTrace

def take (t : IsolationTrace) (entry : Option PlannedEntry) : IsolationTrace :=
  if entry.isSome then ⟨t.refused ++ [false], false⟩ else t

def exchange (t : IsolationTrace) (answer : Option IoError) : IsolationTrace :=
  if t.isolated then t
  else
    ⟨if answer.any fun e => decide (e.kind ≠ .NotFound) then t.refused.dropLast ++ [true]
      else t.refused, true⟩

end IsolationTrace

/-- Every entry is read back and every result stored; the rest is answered as it likes. -/
def recordedStep (answers : Answers) :
    (c : ExecutorCall) → IsolationTrace → IsolationTrace × c.Answer
  | .popReverse entry, t => (t.take entry, none)
  | .storeResult _, t => (t, none)
  | .exchange d a b, t => (t.exchange (answers (.exchange d a b)), answers (.exchange d a b))
  | c, t => (t, answers c)

def recordedWorld : World executorSignature IsolationTrace Answers Empty where
  perform c answers t := ((recordedStep answers c t).1, some (recordedStep answers c t).2)
  others d := nomatch d

/-- `result_entry_bound`: a result of the entry with the longest detail. -/
def longestResultBytes (host : Host) (entry : PlannedEntry) : Nat :=
  satAdd 64 (satAdd 64 (satAdd 64 host.resultEntryBytes
    (min (entry.relativePath.nativeLength * 2) (satMax 64))) maxOutcomeDetailBytes) 128

/-- What is left of the storage holds a result of each entry. -/
def ResultStorage.Holds (host : Host) (entries : List PlannedEntry) : ResultStorage → Prop
  | .InMemory estimatedBytes maximumBytes =>
    satAdd 64 estimatedBytes (entries.map (longestResultBytes host)).sum ≤ maximumBytes
  | .Spilled => True

theorem residentBytes_le (host : Host) {result : DeletionEntryResult} {entry : PlannedEntry}
    (h : result.entry.relativePath = entry.relativePath) :
    resultEntryResidentBytes host { result with outcome := result.outcome.bound } ≤
      longestResultBytes host entry := by
  have hdetail := bound_detailBytes result.outcome
  unfold resultEntryResidentBytes longestResultBytes
  dsimp only
  rw [h]
  unfold satAdd
  omega

namespace Executor
variable {α : Type} {Q : α → IsolationTrace → Prop} {t : IsolationTrace} {p : Executor α}

/-- The weakest precondition where nothing else has to hold on the way. -/
abbrev ends (Q : α → IsolationTrace → Prop) (p : Executor α) (t : IsolationTrace) : Prop :=
  recordedWorld.wp (fun _ => True) Q p t

theorem ends_return {a : α} (h : Q a t) : ends Q (pure a) t := World.wp_return_alone h

theorem ends_call {c : ExecutorCall} {next : c.Answer → Executor α}
    (h : ∀ answers, ends Q (next (recordedStep answers c t).2) (recordedStep answers c t).1) :
    ends Q (.call c next) t := by
  refine World.wp_call_alone (S := executorSignature) (fun _ hnone => by cases hnone) ?_
  intro answers answer hanswer
  obtain rfl := Option.some.inj hanswer
  exact h answers

theorem recordedStep_calm {c : ExecutorCall} (hc : CalmCall c) (answers : Answers) :
    (recordedStep answers c t).1 = t := by
  cases c with
  | popReverse e => cases hc
  | storeResult r => cases hc
  | exchange d a b => cases hc
  | _ => rfl

theorem recordedStep_entry {c : ExecutorCall} (hc : EntryCall c) (ht : t.isolated = true)
    (answers : Answers) : (recordedStep answers c t).1 = t := by
  rcases hc with hc | hc
  · exact recordedStep_calm hc answers
  · cases c with
    | exchange d a b =>
      show t.exchange _ = t
      unfold IsolationTrace.exchange
      rw [if_pos ht]
    | renameNoreplace d a b => rfl
    | removeFile d a => rfl
    | removeDir d a => rfl
    | _ => cases hc

theorem ends_calm (hp : p.Uses CalmCall) : ends (fun _ t' => t' = t) p t :=
  World.wp_uses (P := fun t' => t' = t) rfl (fun _ d _ => nomatch d) (fun _ _ => trivial)
    (fun _ hc _ answers h => h ▸ recordedStep_calm hc answers) hp

theorem ends_entry (hp : p.Uses EntryCall) (ht : t.isolated = true) :
    ends (fun _ t' => t' = t) p t := by
  refine World.wp_uses (P := fun t' => t' = t) rfl (fun _ d _ => nomatch d) (fun _ _ => trivial)
    ?_ hp
  rintro c hc _ answers rfl
  exact recordedStep_entry hc ht answers

theorem ends_exchange {d : Handle} {a b : OsString} {f : Option IoError → Executor α}
    (h : ∀ answer, ends Q (f answer) (t.exchange answer)) : ends Q (exchange d a b >>= f) t :=
  ends_call fun answers => h (answers (.exchange d a b))

theorem ends_popReverse {entry : Option PlannedEntry} {f : Option DeletionPlanError → Executor α}
    (h : ends Q (f none) (t.take entry)) : ends Q (popReverse entry >>= f) t :=
  ends_call fun _ => h

theorem ends_visitEntries {f : Option DeletionPlanError → Executor α}
    (h : ∀ answer, ends Q (f answer) t) : ends Q (visitEntries >>= f) t :=
  ends_call fun answers => h (answers .visitEntries)

theorem ends_storeResult {result : DeletionEntryResult} {f : Option IoError → Executor α}
    (h : ends Q (f none) t) : ends Q (storeResult result >>= f) t := ends_call fun _ => h

variable (host : Host)

/-! ## One entry -/

/-- An entry stays the planned one but for its link count. -/
structure Ran (entry : PlannedEntry) (isolation : Isolation) (refused : Bool) (x : Executed) :
    Prop where
  planned : withLinkCount x.entry none = withLinkCount entry none
  deep : x.isolation.deep = isolation.deep
  refused : x.isolation.refused = refused

theorem ends_removeIsolated (d : Detached) (entry : PlannedEntry) (isolation : Isolation)
    (reference : Option Handle) (ht : t.isolated = true) :
    ends (fun x t' => t' = t ∧ Ran entry isolation isolation.refused x)
      (removeIsolated host d entry isolation reference) t := by
  have hdone (outcome : DeletionEntryOutcome) : ends
      (fun x t' => t' = t ∧ Ran entry isolation isolation.refused x)
      (pure ⟨outcome, entry, isolation⟩) t := ends_return ⟨rfl, rfl, rfl, rfl⟩
  have hremove : (removeTarget d entry.snapshot.kind).Uses EntryCall := by
    cases entry.snapshot.kind with
    | Directory => exact Program.uses_ask (Or.inr rfl)
    | File => exact Program.uses_ask (Or.inr rfl)
    | Link => exact Program.uses_ask (Or.inr rfl)
  refine World.wp_bind ((ends_entry hremove ht).mono ?_)
  rintro removal _ rfl
  cases removal with
  | none =>
    dsimp only
    split
    · have hlinks : (survivingLinks reference).Uses EntryCall := by
        cases reference with
        | none => trivial
        | some r => exact Program.uses_ask (Or.inl rfl)
      refine World.wp_bind ((ends_entry hlinks ht).mono ?_)
      rintro links _ rfl
      refine World.wp_bind ((ends_entry (finalizeTo_entry host d _ _) ht).mono ?_)
      rintro outcome _ rfl
      split
      · exact ends_return ⟨rfl, rfl, rfl, rfl⟩
      · exact ends_return ⟨rfl, rfl, rfl, rfl⟩
    · refine World.wp_bind ((ends_entry (finalizeTo_entry host d _ _) ht).mono ?_)
      rintro outcome _ rfl
      exact hdone outcome
  | some e =>
    dsimp only
    split
    · refine World.wp_bind ((ends_entry (finalizeTo_entry host d _ _) ht).mono ?_)
      rintro outcome _ rfl
      exact hdone outcome
    · split
      · refine World.wp_bind ((ends_entry (restoreTo_entry host d _ _) ht).mono ?_)
        rintro outcome _ rfl
        exact hdone outcome
      · refine World.wp_bind ((ends_entry (restoreTo_entry host d _ _) ht).mono ?_)
        rintro outcome _ rfl
        exact hdone outcome

theorem ends_executeIsolated (d : Detached) (entry : PlannedEntry) (isolation : Isolation)
    (ht : t.isolated = true) :
    ends (fun x t' => t' = t ∧ Ran entry isolation isolation.refused x)
      (executeIsolated host d entry isolation) t := by
  have hinspect : ends (fun _ t' => t' = t)
      (inspectChild host d.parent d.detached (entryPath entry)) t :=
    ends_calm (inspectChild_calm host _ _ _)
  have hfailed (e : DeletionPlanError) (kept : PlannedEntry)
      (hkept : withLinkCount kept none = withLinkCount entry none) :
      ends (fun x t' => t' = t ∧ Ran entry isolation isolation.refused x)
        (do
          let outcome ← inspectionFailed host d e
          pure ⟨outcome, kept, isolation⟩) t := by
    refine World.wp_bind ((ends_entry (inspectionFailed_entry host d e) ht).mono ?_)
    rintro outcome _ rfl
    exact ends_return ⟨rfl, hkept, rfl, rfl⟩
  have hchanged (kept : PlannedEntry)
      (hkept : withLinkCount kept none = withLinkCount entry none) :
      ends (fun x t' => t' = t ∧ Ran entry isolation isolation.refused x)
        (do
          let outcome ← restoreTo host d (.Changed changedDetail) "entry changed"
          pure ⟨outcome, kept, isolation⟩) t := by
    refine World.wp_bind ((ends_entry (restoreTo_entry host d _ _) ht).mono ?_)
    rintro outcome _ rfl
    exact ends_return ⟨rfl, hkept, rfl, rfl⟩
  unfold executeIsolated
  refine World.wp_bind (hinspect.mono ?_)
  rintro read _ rfl
  cases read with
  | error e => exact hfailed e entry rfl
  | ok actual =>
    dsimp only
    split
    · exact hchanged _ rfl
    · refine World.wp_bind ((ends_calm (p := addProgress) (Program.uses_ask rfl)).mono ?_)
      rintro - _ rfl
      refine World.wp_bind (hinspect.mono ?_)
      rintro again _ rfl
      cases again with
      | error e => exact hfailed e _ rfl
      | ok revalidated =>
        dsimp only
        split
        · exact hchanged _ rfl
        · have hreference : (linkReference d entry.snapshot.kind actual.identity).Uses EntryCall := by
            unfold linkReference
            split
            · exact Program.uses_ask (Or.inl rfl)
            · trivial
          refine World.wp_bind ((ends_entry hreference ht).mono ?_)
          rintro reference _ rfl
          exact (ends_removeIsolated host d _ isolation reference ht).mono
            fun x t' h => ⟨h.1, h.2.planned, h.2.deep, h.2.refused⟩

theorem ends_isolationFailed (d : Detached) (entry : PlannedEntry) (deep : Bool) (e : IoError)
    (taken : List Bool) :
    ends (fun x t' => ∃ refused, t'.refused = taken ++ [refused] ∧
        Ran entry ⟨deep, false, false⟩ refused x)
      (isolationFailed host d entry ⟨deep, false, false⟩ e)
      (IsolationTrace.exchange ⟨taken ++ [false], false⟩ (some e)) := by
  unfold isolationFailed
  refine World.wp_bind ((ends_calm (removeVerifiedPlaceholder_calm host _ _ _)).mono ?_)
  rintro cleanup _ rfl
  unfold IsolationTrace.exchange
  dsimp only
  rw [if_neg Bool.false_ne_true, Option.any_some]
  by_cases hfound : e.kind = .NotFound
  · rw [if_pos hfound, decide_eq_false (not_not_intro hfound), if_neg Bool.false_ne_true]
    cases cleanup with
    | none => exact ends_return ⟨false, rfl, rfl, rfl, rfl⟩
    | some c => exact ends_return ⟨false, rfl, rfl, rfl, rfl⟩
  · rw [if_neg hfound, decide_eq_true hfound, if_pos rfl, List.dropLast_concat]
    exact ends_return ⟨true, rfl, rfl, rfl, rfl⟩

/-- The trace notes the refusal of the executor. -/
theorem ends_executeUnixEntry (root : Handle) (entry : PlannedEntry) (deep : Bool)
    {taken : List Bool} (ht : t = ⟨taken ++ [false], false⟩) :
    ends (fun x t' => ∃ refused, t'.refused = taken ++ [refused] ∧
        Ran entry ⟨deep, false, false⟩ refused x)
      (executeUnixEntry host tryClaim tryBegin root entry ⟨deep, false, false⟩) t := by
  subst ht
  have hdone (outcome : DeletionEntryOutcome) : ends
      (fun x t' => ∃ refused, t'.refused = taken ++ [refused] ∧
        Ran entry ⟨deep, false, false⟩ refused x)
      (pure ⟨outcome, entry, ⟨deep, false, false⟩⟩) ⟨taken ++ [false], false⟩ :=
    ends_return ⟨false, rfl, rfl, rfl, rfl⟩
  unfold executeUnixEntry
  refine World.wp_bind ((ends_calm (openParent_calm host root _)).mono ?_)
  rintro opened _ rfl
  cases opened with
  | error e =>
    dsimp only
    split
    · exact hdone _
    · exact hdone _
  | ok found =>
    refine World.wp_bind ((ends_calm (p := tryClaim) (Program.uses_ask rfl)).mono ?_)
    rintro claimed _ rfl
    cases claimed with
    | false => exact hdone _
    | true =>
      refine World.wp_bind ((ends_calm (createPlaceholder_calm found.1 _)).mono ?_)
      rintro created _ rfl
      cases created with
      | error e => exact hdone _
      | ok made =>
        refine World.wp_bind ((ends_calm (p := tryBegin) (Program.uses_ask rfl)).mono ?_)
        rintro begun _ rfl
        cases begun with
        | false =>
          refine World.wp_bind ((ends_calm (p := storeSoft) (Program.uses_ask rfl)).mono ?_)
          rintro - _ rfl
          refine World.wp_bind ((ends_calm (removeVerifiedPlaceholder_calm host _ _ _)).mono ?_)
          rintro cleanup _ rfl
          cases cleanup with
          | some e => exact hdone _
          | none => exact hdone _
        | true =>
          refine ends_exchange fun answer => ?_
          cases answer with
          | none =>
            refine (ends_executeIsolated host _ entry _ rfl).mono ?_
            rintro x _ ⟨rfl, hran⟩
            exact ⟨false, rfl, hran⟩
          | some e => exact ends_isolationFailed host _ entry deep e taken

/-! ## Results -/

/-- Of a summary what `note` counts. -/
def counts (s : DeletionSummary) : DeletionSummary := { s with deletedWithOtherLinks := false }

theorem counts_note (s : DeletionSummary) (result : DeletionEntryResult) :
    counts (s.note result) = (counts s).note result := by
  unfold DeletionSummary.note
  cases result.outcome <;> rfl

/-- The result as it is kept. -/
def kept (result : DeletionEntryResult) : DeletionEntryResult :=
  { result with outcome := result.outcome.bound }

theorem outcome_kept_unattempted (result : DeletionEntryResult) :
    (kept result).outcome = .Unattempted ↔ result.outcome = .Unattempted := by
  unfold kept DeletionEntryOutcome.bound
  cases result.outcome <;> simp

/-- What one stored result adds to a collector. -/
structure Collected (r : ResultCollector) (result : DeletionEntryResult) (rest : List PlannedEntry)
    (out : ResultCollector × Option IoError) : Prop where
  stored : out.2 = none
  entries : out.1.entries = r.entries ++ [kept result]
  summary : counts out.1.summary = (counts r.summary).note (kept result)
  room : out.1.storage.Holds host rest

theorem ends_push {r : ResultCollector} {result : DeletionEntryResult} {entry : PlannedEntry}
    {rest : List PlannedEntry} (hroom : r.storage.Holds host (entry :: rest))
    (hpath : result.entry.relativePath = entry.relativePath) :
    ends (fun out t' => t' = t ∧ Collected host r result rest out) (push host r result) t := by
  unfold push
  cases hstorage : r.storage with
  | Spilled =>
    exact ends_storeResult (ends_return ⟨rfl, rfl, rfl, counts_note _ _, trivial⟩)
  | InMemory estimatedBytes maximumBytes =>
    rw [hstorage] at hroom
    have hle := residentBytes_le host hpath
    have hboth : satAdd 64 estimatedBytes (longestResultBytes host entry +
        (rest.map (longestResultBytes host)).sum) ≤ maximumBytes := by
      unfold ResultStorage.Holds at hroom
      rw [List.map_cons, List.sum_cons] at hroom
      exact hroom
    dsimp only
    rw [if_neg]
    · refine ends_storeResult (ends_return ⟨rfl, rfl, rfl, counts_note _ _, ?_⟩)
      show satAdd 64 _ _ ≤ maximumBytes
      unfold satAdd at hboth ⊢
      omega
    · unfold satAdd at hboth ⊢
      omega

/-! ## The loop -/

/-- After this result, with what the trace says of its isolation, nothing is executed. -/
def Stops (scanRoot : OsString) (x : DeletionEntryResult × Bool) : Prop :=
  x.1.outcome = .Unattempted ∨ pastPathMax scanRoot x.1.entry.relativePath = true ∧ x.2 = true

/-- The results of these entries in this order, with what the trace says of their isolations. -/
structure Account (scanRoot : OsString) (entries : List PlannedEntry) (stopped : Bool)
    (results : List DeletionEntryResult) (refused : List Bool) : Prop where
  planned : results.map (fun x => withLinkCount x.entry none) =
    entries.map (fun e => withLinkCount e none)
  traced : refused.length = results.length
  stops : (results.zip refused).Pairwise fun x y => Stops scanRoot x → y.1.outcome = .Unattempted
  unattempted : stopped = true → ∀ x ∈ results, x.outcome = .Unattempted

variable (scanRoot : OsString) (plan : DeletionPlan)

theorem Account.nil (stopped : Bool) : Account scanRoot [] stopped [] [] :=
  ⟨rfl, rfl, .nil, fun _ _ h => by cases h⟩

theorem Account.cons {entry : PlannedEntry} {entries : List PlannedEntry} {stopped stops : Bool}
    {result : DeletionEntryResult} {isolationRefused : Bool} {results : List DeletionEntryResult}
    {refused : List Bool} (h : Account scanRoot entries stops results refused)
    (hplanned : withLinkCount result.entry none = withLinkCount entry none)
    (hstops : Stops scanRoot (result, isolationRefused) → stops = true)
    (hstopped : stopped = true → result.outcome = .Unattempted) :
    Account scanRoot (entry :: entries) stopped (result :: results)
      (isolationRefused :: refused) where
  planned := by rw [List.map_cons, List.map_cons, hplanned, h.planned]
  traced := congrArg (· + 1) h.traced
  stops := by
    refine List.Pairwise.cons ?_ h.stops
    intro y hy hx
    exact h.unattempted (hstops hx) y.1 (List.of_mem_zip hy).1
  unattempted := by
    intro hstop x hx
    have hout := hstopped hstop
    rcases List.mem_cons.mp hx with rfl | hx
    · exact hout
    · exact h.unattempted (hstops (Or.inl hout)) x hx

theorem mayExecute_calm (stopped : Bool) : (mayExecute stopped).Uses CalmCall := by
  cases stopped with
  | true => trivial
  | false =>
    refine ⟨rfl, fun soft => ?_⟩
    cases soft with
    | true => trivial
    | false =>
      refine ⟨rfl, fun hard => ?_⟩
      cases hard with
      | true => trivial
      | false => trivial

theorem stopAfter_calm (outcome : DeletionEntryOutcome) : (stopAfter outcome).Uses CalmCall := by
  unfold stopAfter
  split
  · exact Program.uses_ask rfl
  · trivial

theorem withLinkCount_recorded (x : Executed) :
    withLinkCount (recorded x).entry none = withLinkCount x.entry none := by
  unfold recorded noteDeletedLink
  dsimp only
  split
  · split
    · rfl
    · rfl
  · rfl

theorem relativePath_of_withLinkCount {e e' : PlannedEntry}
    (h : withLinkCount e none = withLinkCount e' none) : e.relativePath = e'.relativePath := by
  have hpath := congrArg PlannedEntry.relativePath h
  exact hpath

/-- What one turn of the loop adds. -/
theorem ends_executeEntry (root : Handle) {r : ResultCollector} (stopped : Bool)
    {entry : PlannedEntry} {rest : List PlannedEntry} {taken : List Bool}
    (hroom : r.storage.Holds host (entry :: rest)) (ht : t = ⟨taken ++ [false], false⟩) :
    ends (fun out t' => ∃ result refused, t'.refused = taken ++ [refused] ∧
        Collected host r result rest (out.1, out.2.2) ∧
        withLinkCount result.entry none = withLinkCount entry none ∧
        (Stops scanRoot (result, refused) → out.2.1 = true) ∧
        (stopped = true → result.outcome = .Unattempted))
      (executeEntry host tryClaim tryBegin scanRoot root r stopped entry) t := by
  subst ht
  have hskip : ends (fun out t' => ∃ result refused, t'.refused = taken ++ [refused] ∧
        Collected host r result rest (out.1, out.2.2) ∧
        withLinkCount result.entry none = withLinkCount entry none ∧
        (Stops scanRoot (result, refused) → out.2.1 = true) ∧
        (stopped = true → result.outcome = .Unattempted))
      (push host r ⟨entry, .Unattempted⟩ >>= fun out => pure (out.1, true, out.2))
      ⟨taken ++ [false], false⟩ := by
    have hpush := ends_push host (t := ⟨taken ++ [false], false⟩) hroom
      (show (⟨entry, .Unattempted⟩ : DeletionEntryResult).entry.relativePath = entry.relativePath
        from rfl)
    refine World.wp_bind (hpush.mono ?_)
    rintro ⟨collected, error⟩ _ ⟨rfl, hcollected⟩
    exact ends_return ⟨⟨entry, .Unattempted⟩, false, rfl, hcollected, rfl, fun _ => rfl, fun _ => rfl⟩
  unfold executeEntry
  have hmay : ends (fun go t' => t' = ⟨taken ++ [false], false⟩ ∧ (stopped = true → go = false))
      (mayExecute stopped) ⟨taken ++ [false], false⟩ := by
    cases stopped with
    | true => exact ends_return ⟨rfl, fun _ => rfl⟩
    | false =>
      refine (ends_calm (mayExecute_calm false)).mono ?_
      rintro go _ rfl
      exact ⟨rfl, fun h => by cases h⟩
  refine World.wp_bind (hmay.mono ?_)
  rintro go _ ⟨rfl, hgo⟩
  cases go with
  | false => exact hskip
  | true =>
    have hrunning : ¬stopped = true := fun h => by cases hgo h
    refine World.wp_bind ((ends_executeUnixEntry host root entry _ rfl).mono ?_)
    rintro x t' ⟨refused, htaken, hran⟩
    refine World.wp_bind ((ends_calm (stopAfter_calm x.outcome)).mono ?_)
    rintro - _ rfl
    have hplanned := (withLinkCount_recorded x).trans hran.planned
    have hpath := relativePath_of_withLinkCount hplanned
    let linked := if removedWithOtherLinks x.entry.snapshot.kind x.outcome x.isolation.noLinkSurvived
      then r.noteOtherLinks else r
    have hlinked : linked.storage = r.storage ∧ linked.entries = r.entries ∧
        counts linked.summary = counts r.summary := by
      show (if _ then _ else r).storage = _ ∧ (if _ then _ else r).entries = _ ∧
        counts (if _ then _ else r).summary = _
      split
      · exact ⟨rfl, rfl, rfl⟩
      · exact ⟨rfl, rfl, rfl⟩
    have hlinkedRoom : linked.storage.Holds host (entry :: rest) := by
      rw [hlinked.1]
      exact hroom
    refine World.wp_bind ((ends_push host (r := linked) hlinkedRoom hpath).mono ?_)
    rintro ⟨collected, error⟩ _ ⟨rfl, hcollected⟩
    refine ends_return ⟨recorded x, refused, htaken, ?_, hplanned, ?_, fun h => absurd h hrunning⟩
    · exact ⟨hcollected.stored, hlinked.2.1 ▸ hcollected.entries,
        hlinked.2.2 ▸ hcollected.summary, hcollected.room⟩
    · rintro (hunattempted | ⟨hdeep, hrefused⟩)
      · have houtcome : x.outcome = .Unattempted := hunattempted
        show (decide (x.outcome = .Unattempted) || _) = true
        rw [decide_eq_true houtcome, Bool.true_or]
      · show (_ || x.isolation.deep && x.isolation.refused) = true
        have hpast : x.isolation.deep = true := by
          rw [hran.deep, ← hpath]
          exact hdeep
        rw [hpast, hran.refused.trans hrefused, Bool.and_true, Bool.or_true]

/-- A report of these results on top of what the collector holds. -/
structure Reported (r : ResultCollector) (results : List DeletionEntryResult)
    (report : DeletionReport) : Prop where
  entries : report.entries.entries = r.entries ++ results
  summary : counts report.entries.summary = results.foldl DeletionSummary.note (counts r.summary)
  complete : report.entries.complete = true

theorem Reported.finished (r : ResultCollector) (softCancelled precise : Bool) :
    Reported r [] (finishReport scanRoot plan r softCancelled precise) :=
  ⟨(List.append_nil _).symm, rfl, rfl⟩

theorem Reported.cons {r : ResultCollector} {result : DeletionEntryResult}
    {rest : List PlannedEntry} {out : ResultCollector × Option IoError}
    {results : List DeletionEntryResult} {report : DeletionReport}
    (hcollected : Collected host r result rest out) (h : Reported out.1 results report) :
    Reported r (kept result :: results) report where
  entries := by rw [h.entries, hcollected.entries, List.append_assoc, List.singleton_append]
  summary := by rw [h.summary, hcollected.summary, List.foldl_cons]
  complete := h.complete

theorem stops_kept {result : DeletionEntryResult} {refused : Bool}
    (h : Stops scanRoot (kept result, refused)) : Stops scanRoot (result, refused) :=
  h.imp (outcome_kept_unattempted result).mp fun h => h

theorem ends_executeEntries (root : Handle) (rest : List PlannedEntry) :
    ∀ {r : ResultCollector} (stopped : Bool) {t : IsolationTrace},
      r.storage.Holds host rest →
      ends (fun report t' => ∃ results refused, t'.refused = t.refused ++ refused ∧
          Account scanRoot rest stopped results refused ∧ Reported r results report)
        (executeEntries host tryClaim tryBegin scanRoot plan root r stopped rest) t := by
  induction rest with
  | nil =>
    intro r stopped t _
    refine ends_popReverse ?_
    refine World.wp_bind ((ends_calm (p := loadSoft) (Program.uses_ask rfl)).mono ?_)
    rintro soft _ rfl
    refine World.wp_bind ((ends_calm (p := loadHard) (Program.uses_ask rfl)).mono ?_)
    rintro hard _ rfl
    exact ends_return ⟨[], [], (List.append_nil _).symm, Account.nil scanRoot stopped,
      Reported.finished scanRoot plan r soft !hard⟩
  | cons entry rest ih =>
    intro r stopped t hroom
    refine ends_popReverse ?_
    refine World.wp_bind ((ends_executeEntry host scanRoot root stopped hroom rfl).mono ?_)
    rintro ⟨collected, stops, error⟩ t' ⟨result, refused, htaken, hcollected, hplanned, hstops,
      hstopped⟩
    obtain rfl : error = none := hcollected.stored
    refine (ih stops hcollected.room).mono ?_
    rintro report t'' ⟨results, more, htrace, haccount, hreported⟩
    refine ⟨kept result :: results, refused :: more, ?_, ?_, hreported.cons host hcollected⟩
    · rw [htrace, htaken, List.append_assoc, List.singleton_append]
    · exact haccount.cons scanRoot hplanned (fun h => hstops (stops_kept scanRoot h))
        fun h => (outcome_kept_unattempted result).mpr (hstopped h)

/-- A plan that cannot be executed: every entry failed. -/
theorem ends_failedReport (message : String) (rest : List PlannedEntry) :
    ∀ {r : ResultCollector} {t : IsolationTrace}, r.storage.Holds host rest →
      ends (fun report t' => ∃ results refused, t'.refused = t.refused ++ refused ∧
          Account scanRoot rest false results refused ∧ Reported r results report)
        (failedReport host scanRoot plan message r rest) t := by
  induction rest with
  | nil =>
    intro r t _
    refine ends_popReverse (ends_return ?_)
    exact ⟨[], [], (List.append_nil _).symm, Account.nil scanRoot false,
      Reported.finished scanRoot plan r false true⟩
  | cons entry rest ih =>
    intro r t hroom
    refine ends_popReverse ?_
    refine World.wp_bind ((ends_push host hroom (show
      (⟨entry, .Failed message⟩ : DeletionEntryResult).entry.relativePath = entry.relativePath
        from rfl)).mono ?_)
    rintro ⟨collected, error⟩ _ ⟨rfl, hcollected⟩
    obtain rfl : error = none := hcollected.stored
    refine (ih hcollected.room).mono ?_
    rintro report t' ⟨results, more, htrace, haccount, hreported⟩
    refine ⟨kept ⟨entry, .Failed message⟩ :: results, false :: more, ?_, ?_,
      hreported.cons host hcollected⟩
    · rw [htrace]
      show t.refused ++ [false] ++ more = _
      rw [List.append_assoc, List.singleton_append]
    · refine haccount.cons scanRoot rfl ?_ fun h => by cases h
      rintro (hunattempted | ⟨-, hrefused⟩)
      · cases hunattempted
      · cases hrefused

theorem ends_executePlan (storage : ResultStorage)
    (hroom : storage.Holds host plan.entries.reverse) :
    ends (fun report t => ∃ results, Account scanRoot plan.entries.reverse false results t.refused ∧
        Reported (storage.intoCollector plan.rootRelativePath) results report)
      (executePlan host tryClaim tryBegin scanRoot plan storage) ⟨[], false⟩ := by
  have hfailed (message : String) : ends (fun report t => ∃ results,
      Account scanRoot plan.entries.reverse false results t.refused ∧
      Reported (storage.intoCollector plan.rootRelativePath) results report)
      (failedReport host scanRoot plan message (storage.intoCollector plan.rootRelativePath)
        plan.entries.reverse) ⟨[], false⟩ := by
    refine World.wp.mono (ends_failedReport host scanRoot plan message _ hroom) ?_
    rintro report t ⟨results, refused, htrace, haccount, hreported⟩
    exact ⟨results, htrace.trans (List.nil_append refused) ▸ haccount, hreported⟩
  unfold executePlan
  refine World.wp_bind ((ends_calm (p := openRoot) (Program.uses_ask rfl)).mono ?_)
  rintro opened _ rfl
  cases opened with
  | error e => exact hfailed _
  | ok root =>
    refine ends_visitEntries fun visited => ?_
    cases visited with
    | some e => exact hfailed _
    | none =>
      refine World.wp.mono (ends_executeEntries host scanRoot plan root _ false hroom) ?_
      rintro report t ⟨results, refused, htrace, haccount, hreported⟩
      exact ⟨results, htrace.trans (List.nil_append refused) ▸ haccount, hreported⟩

end Executor

/-! ## What is counted -/

/-- A result whose allocated bytes are counted as freed. -/
def CountedFreed (result : DeletionEntryResult) : Bool :=
  decide (result.outcome = .Deleted) && (result.entry.snapshot.kind.isFileOrLink &&
    decide (result.entry.snapshot.identity.linkCount = some 1))

@[simp] def DeletionEntryOutcome.isChanged : DeletionEntryOutcome → Bool
  | .Changed _ => true
  | _ => false

@[simp] def DeletionEntryOutcome.isFailed : DeletionEntryOutcome → Bool
  | .Failed _ => true
  | _ => false

/-- What a list of results comes to: how many there are of each outcome, and the bytes of what was
deleted and of what that freed. -/
def tally (results : List DeletionEntryResult) : DeletionSummary where
  deleted := min (results.countP fun x => x.outcome = .Deleted) (satMax 64)
  changed := min (results.countP fun x => x.outcome.isChanged) (satMax 64)
  missing := min (results.countP fun x => x.outcome = .Missing) (satMax 64)
  failed := min (results.countP fun x => x.outcome.isFailed) (satMax 64)
  unattempted := min (results.countP fun x => x.outcome = .Unattempted) (satMax 64)
  deletedApparentBytes :=
    min ((results.filter fun x => x.outcome = .Deleted).map fun x =>
      x.entry.snapshot.apparentBytes).sum (satMax 128)
  deletedAllocatedBytes :=
    min ((results.filter CountedFreed).map fun x =>
      x.entry.snapshot.allocatedBytes.getD 0).sum (satMax 128)

theorem tally_append (results : List DeletionEntryResult) (result : DeletionEntryResult) :
    tally (results ++ [result]) = (tally results).note result := by
  unfold tally DeletionSummary.note
  simp only [List.countP_append, List.countP_singleton, List.filter_append, List.map_append,
    List.sum_append]
  cases houtcome : result.outcome with
  | Deleted =>
    have hcounted : CountedFreed result = (result.entry.snapshot.kind.isFileOrLink &&
        decide (result.entry.snapshot.identity.linkCount = some 1)) := by
      unfold CountedFreed
      rw [houtcome, decide_eq_true rfl, Bool.true_and]
    rw [← hcounted]
    cases hfreed : CountedFreed result with
    | true => simp [satAdd_min, houtcome, hfreed]
    | false => simp [satAdd_min, houtcome, hfreed]
  | Changed detail => simp [CountedFreed, satAdd_min, houtcome]
  | Missing => simp [CountedFreed, satAdd_min, houtcome]
  | Failed detail => simp [CountedFreed, satAdd_min, houtcome]
  | Unattempted => simp [CountedFreed, satAdd_min, houtcome]

theorem foldl_note_eq_tally (results : List DeletionEntryResult) :
    results.foldl DeletionSummary.note {} = tally results := by
  induction results using List.reverseRecOn with
  | nil => rfl
  | append_singleton results result ih =>
    rw [List.foldl_append, ih, tally_append, List.foldl_cons, List.foldl_nil]

/-! ## The report -/

open Executor

/-- No entry of the plan comes before a folder that holds it. -/
def DeletionPlan.FoldersFirst (plan : DeletionPlan) : Prop :=
  plan.entries.Pairwise fun e e' => ¬e'.relativePath.components <+: e.relativePath.components

/-- Nothing in a folder is executed after the folder. -/
def FoldersLast (results : List DeletionEntryResult) : Prop :=
  results.Pairwise fun x y =>
    ¬x.entry.relativePath.components <+: y.entry.relativePath.components

theorem foldersLast_of_reverse {plan : DeletionPlan} {results : List DeletionEntryResult}
    (h : results.map (fun x => withLinkCount x.entry none) =
      plan.entries.reverse.map fun e => withLinkCount e none) (hplan : plan.FoldersFirst) :
    FoldersLast results := by
  have hpaths : (results.map fun x => withLinkCount x.entry none).Pairwise
      fun e e' => ¬e.relativePath.components <+: e'.relativePath.components := by
    rw [h]
    exact (List.pairwise_reverse.mpr hplan).map _ fun _ _ h => h
  exact List.pairwise_map.mp hpaths

/-- Whatever is answered to a plan that is read back and whose results are stored, its execution
ends with a complete report: one result of each planned entry and no other, folders last, none but
unattempted ones after the first that stops, and a summary that counts the results. -/
theorem execution_accounted (host : Host) (scanRoot : OsString) (plan : DeletionPlan)
    (storage : ResultStorage) (hroom : storage.Holds host plan.entries)
    (answers : Nat → Answers) :
    ∃ n t report, (recordedWorld.machine DeletionReport).run
        (⟨[], false⟩, executePlan host tryClaim tryBegin scanRoot plan storage)
        ((List.range n).map fun i => .inl (answers i)) = (t, .done report) ∧
      report.entries.complete = true ∧
      report.entries.entries.map (fun x => withLinkCount x.entry none) =
        plan.entries.reverse.map (fun e => withLinkCount e none) ∧
      (plan.FoldersFirst → FoldersLast report.entries.entries) ∧
      t.refused.length = report.entries.entries.length ∧
      ((report.entries.entries.zip t.refused).Pairwise
        fun x y => Stops scanRoot x → y.1.outcome = .Unattempted) ∧
      counts report.entries.summary = report.entries.entries.foldl DeletionSummary.note {} ∧
      counts report.entries.summary = tally report.entries.entries := by
  have hreversed : storage.Holds host plan.entries.reverse := by
    cases storage with
    | Spilled => trivial
    | InMemory estimatedBytes maximumBytes =>
      unfold ResultStorage.Holds at hroom ⊢
      rw [List.map_reverse, List.sum_reverse]
      exact hroom
  obtain ⟨n, report, t, hrun, results, haccount, hreported⟩ :=
    (ends_executePlan host scanRoot plan storage hreversed).finishes (fun _ _ _ => rfl) answers
  have hresults : report.entries.entries = results := hreported.entries
  refine ⟨n, t, report, hrun, hreported.complete, ?_, ?_, ?_, ?_, ?_, ?_⟩
  · rw [hresults]
    exact haccount.planned
  · rw [hresults]
    exact foldersLast_of_reverse haccount.planned
  · rw [hresults]
    exact haccount.traced
  · rw [hresults]
    exact haccount.stops
  · rw [hresults]
    exact hreported.summary
  · rw [hresults, ← foldl_note_eq_tally]
    exact hreported.summary

/-! ## A folder with two files -/

def stoppedFolder : PlannedEntry :=
  ⟨oneFile.relativePath, ⟨⟨.Inode 1 3, none, false⟩, .Directory, 0, none, none⟩⟩

def fileInFolder (name : Component) (inode : UInt64) : PlannedEntry :=
  ⟨⟨stoppedFolder.relativePath.components ++ [name]⟩,
    ⟨⟨.Inode 1 inode, some 1, false⟩, .File, 4096, some 4096, none⟩⟩

def stoppedFolderPlan : DeletionPlan :=
  let files := [fileInFolder ⟨[0x61], valid_a⟩ 4, fileInFolder ⟨[0x62], valid_b⟩ 5]
  ⟨stoppedFolder.relativePath, stoppedFolder :: files, stoppedFolder.snapshot, 8192⟩

/-- The file that comes first is found under its private name and removed; the soft flag is set
before the next entry. -/
def stoppedAfterOne (i : Nat) : Answers
  | .statAt _ _ =>
    .ok (.ok (if i < 18 then (fileInFolder ⟨[0x62], valid_b⟩ 5).snapshot else oneFile.snapshot))
  | .tryClaim | .tryBegin => true
  | .openReference .. => some 3
  | .referenceLinks _ => some 0
  | .loadSoft => decide (18 ≤ i)
  | c => oneFileAnswers true c

/-- The results are spilled; one file is deleted, and the other and the folder are left. -/
theorem execution_accounted_folder : ∃ n t report, (recordedWorld.machine DeletionReport).run
      (⟨[], false⟩, executePlan plainHost tryClaim tryBegin [] stoppedFolderPlan .Spilled)
      ((List.range n).map fun i => .inl (stoppedAfterOne i)) = (t, .done report) ∧
    report.entries.complete = true ∧
    report.entries.entries.map (fun x => withLinkCount x.entry none) =
      stoppedFolderPlan.entries.reverse.map (fun e => withLinkCount e none) ∧
    FoldersLast report.entries.entries ∧
    ((report.entries.entries.zip t.refused).Pairwise
      fun x y => Stops [] x → y.1.outcome = .Unattempted) ∧
    counts report.entries.summary = tally report.entries.entries ∧
    report.entries.entries.map DeletionEntryResult.outcome =
      [.Deleted, .Unattempted, .Unattempted] ∧
    report.entries.summary.deletedAllocatedBytes = 4096 := by
  obtain ⟨n, t, report, hrun, hcomplete, hplanned, hlast, -, hstops, -, htally⟩ :=
    execution_accounted plainHost [] stoppedFolderPlan .Spilled trivial stoppedAfterOne
  have hfirst : stoppedFolderPlan.FoldersFirst := by
    unfold DeletionPlan.FoldersFirst
    decide
  have hdone : ∃ report', ((recordedWorld.machine DeletionReport).run
      (⟨[], false⟩, executePlan plainHost tryClaim tryBegin [] stoppedFolderPlan .Spilled)
      ((List.range 32).map fun i => .inl (stoppedAfterOne i))).2 = .done report' ∧
      report'.entries.entries.map DeletionEntryResult.outcome =
        [.Deleted, .Unattempted, .Unattempted] ∧
      report'.entries.summary.deletedAllocatedBytes = 4096 :=
    ⟨_, rfl, by decide +kernel, by decide +kernel⟩
  obtain ⟨report', hdone, houtcomes, hbytes⟩ := hdone
  obtain rfl := World.done_unique (congrArg Prod.snd hrun) hdone
  exact ⟨n, t, report, hrun, hcomplete, hplanned, hlast hfirst, hstops, htally, houtcomes, hbytes⟩

end Excise
