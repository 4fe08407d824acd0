import Excise.Deletion.ExecutionAccount
import Excise.Deletion.OwnRemovals

/-!
# A whole execution among others

What the executor has removed and what it has counted, entry by entry. Space is counted of objects
that no name holds any more, of each once; a report without other links is of removals that left
none.
-/

namespace Excise
set_option autoImplicit false

open Executor

/-- The object of a result, of which the executor counted no links, and which no name holds. -/
structure Frees (objects : ObjectTable) (s : SharedState) (result : DeletionEntryResult)
    (x : FileId) : Prop where
  object : objects.isObject x result.entry.snapshot.identity = true
  gone : s.Gone x

/-- The results noted so far, the objects whose space was counted, and the links the summary denies. -/
structure Ledger (w : Setting) (summary : DeletionSummary) (noted : List DeletionEntryResult)
    (freed : List FileId) (s : SharedState) : Prop where
  noted_all : counts summary = noted.foldl DeletionSummary.note {}
  counted : List.Forall₂ (Frees w.objects s) (noted.filter CountedFreed) freed
  once : freed.Nodup
  unlinked : w.respectful = true → summary.deletedWithOtherLinks = false →
    ∀ r ∈ s.removals, r.placeholder = false → ∀ entry, r.planned = some entry →
      entry.snapshot.kind.isFileOrLink = true → r.object ∈ s.table.used ∧ ¬s.table.Named r.object

section
variable {w : Setting} {s s' : SharedState} {summary : DeletionSummary}
  {noted : List DeletionEntryResult} {freed : List FileId} {entry : PlannedEntry}
  {result : DeletionEntryResult}

theorem Ledger.start (w : Setting) (table : FolderTable) :
    Ledger w {} [] [] (SharedState.start table) :=
  ⟨rfl, .nil, List.nodup_nil, fun _ _ _ hr => nomatch hr⟩

theorem Frees.onward {objects : ObjectTable} {x : FileId} (h : Frees objects s result x)
    (hs : Onward s s') : Frees objects s' result x :=
  ⟨h.object, h.gone.onward hs⟩

theorem Ledger.cleans (h : Ledger w summary noted freed s) (hs : Cleans s s') :
    Ledger w summary noted freed s' := by
  refine ⟨h.noted_all, h.counted.imp fun _ _ hf => hf.onward hs.toOnward, h.once, ?_⟩
  intro hrespect hflag r hr htarget entry hplanned hfile
  obtain ⟨rs, hrs, hplaceholder⟩ := hs.removals
  rw [hrs] at hr
  rcases List.mem_append.mp hr with hold | hnew
  · obtain ⟨hknown, hdead⟩ := h.unlinked hrespect hflag r hold htarget entry hplanned hfile
    exact ⟨hs.used _ hknown, hs.dead hknown hdead⟩
  · rw [hplaceholder r hnew] at htarget
    cases htarget

theorem deletedWithOtherLinks_note (s : DeletionSummary) (result : DeletionEntryResult) :
    (s.note result).deletedWithOtherLinks = s.deletedWithOtherLinks := by
  unfold DeletionSummary.note
  cases result.outcome <;> rfl

theorem Ledger.note_summary (h : counts summary = noted.foldl DeletionSummary.note {})
    (result : DeletionEntryResult) :
    counts (summary.note result) = (noted ++ [result]).foldl DeletionSummary.note {} := by
  rw [counts_note, h, List.foldl_append, List.foldl_cons, List.foldl_nil]

theorem Ledger.note (h : Ledger w summary noted freed s)
    (hresult : result.outcome ≠ .Deleted) :
    Ledger w (summary.note result) (noted ++ [result]) freed s := by
  have hcounted : CountedFreed result = false := by
    unfold CountedFreed
    rw [decide_eq_false hresult, Bool.false_and]
  refine ⟨Ledger.note_summary h.noted_all result, ?_, h.once, ?_⟩
  · rw [List.filter_append, List.filter_cons_of_neg (by simp [hcounted]), List.filter_nil,
      List.append_nil]
    exact h.counted
  · rw [deletedWithOtherLinks_note]
    exact h.unlinked

theorem outcome_kept_deleted (result : DeletionEntryResult) :
    (kept result).outcome = .Deleted ↔ result.outcome = .Deleted := by
  unfold kept DeletionEntryOutcome.bound
  cases result.outcome <;> simp

theorem isObject_of_withLinkCount {objects : ObjectTable} {x : FileId} {e e' : PlannedEntry}
    (h : withLinkCount e none = withLinkCount e' none)
    (hx : objects.isObject x e'.snapshot.identity = true) :
    objects.isObject x e.snapshot.identity = true := by
  have hfile := congrArg (fun e : PlannedEntry => e.snapshot.identity.fileId) h
  have hreparse := congrArg (fun e : PlannedEntry => e.snapshot.identity.reparsePoint) h
  have hfile : e.snapshot.identity.fileId = e'.snapshot.identity.fileId := hfile
  have hreparse : e.snapshot.identity.reparsePoint = e'.snapshot.identity.reparsePoint := hreparse
  unfold ObjectTable.isObject at hx ⊢
  rw [hfile, hreparse]
  exact hx

theorem linkCount_of_recorded {x : Executed}
    (h : (recorded x).entry.snapshot.identity.linkCount = some 1) :
    x.entry.snapshot.identity.linkCount ≠ none := by
  intro hnone
  unfold recorded noteDeletedLink at h
  dsimp only at h
  split at h
  · split at h
    · cases h
    · cases hnone.symm.trans h
  · cases hnone.symm.trans h

theorem exists_of_mem_right {α β : Type} {R : α → β → Prop} {as : List α} {bs : List β} {b : β}
    (h : List.Forall₂ R as bs) (hb : b ∈ bs) : ∃ a, R a b := by
  induction h with
  | nil => cases hb
  | cons hab _ ih =>
    rcases List.mem_cons.mp hb with rfl | hrest
    · exact ⟨_, hab⟩
    · exact ih hrest

/-- One entry more. -/
theorem Ledger.executed (h : Ledger w summary noted freed s) {x : Executed}
    (hx : Concludes w s entry x s') :
    ∃ freed', Ledger w
      ((if removedWithOtherLinks x.entry.snapshot.kind x.outcome x.isolation.noLinkSurvived then
        { summary with deletedWithOtherLinks := true } else summary).note (kept (recorded x)))
      (noted ++ [kept (recorded x)]) freed' s' := by
  have honward := hx.removes.toOnward
  have hkind := congrArg (fun e : PlannedEntry => e.snapshot.kind) hx.entry_eq
  have hkind : x.entry.snapshot.kind = entry.snapshot.kind := hkind
  have hentry : withLinkCount (kept (recorded x)).entry none = withLinkCount entry none :=
    (withLinkCount_recorded x).trans hx.entry_eq
  have hsummary : counts (if removedWithOtherLinks x.entry.snapshot.kind x.outcome
      x.isolation.noLinkSurvived then { summary with deletedWithOtherLinks := true }
      else summary) = noted.foldl DeletionSummary.note {} := by
    rw [← h.noted_all]
    split
    · rfl
    · rfl
  have hfreed := h.counted.imp fun _ _ hf => hf.onward honward
  -- whichever objects are counted, the flag is set unless the removal left no link
  have hunlinked : w.respectful = true →
      ((if removedWithOtherLinks x.entry.snapshot.kind x.outcome x.isolation.noLinkSurvived then
        { summary with deletedWithOtherLinks := true } else summary).note
          (kept (recorded x))).deletedWithOtherLinks = false →
      ∀ r ∈ s'.removals, r.placeholder = false → ∀ e, r.planned = some e →
        e.snapshot.kind.isFileOrLink = true →
          r.object ∈ s'.table.used ∧ ¬s'.table.Named r.object := by
    intro hrespect hflag r hr htarget e hplanned hfile
    rw [deletedWithOtherLinks_note] at hflag
    split at hflag
    · cases hflag
    · rename_i hlinks
      obtain ⟨rs, hrs, htargets⟩ := hx.removes.removals
      rw [hrs] at hr
      rcases List.mem_append.mp hr with hold | hnew
      · obtain ⟨hknown, hdead⟩ := h.unlinked hrespect hflag r hold htarget e hplanned hfile
        exact ⟨honward.used _ hknown, honward.dead hknown hdead⟩
      · obtain ⟨hentry, hattempted, hdead⟩ := htargets r hnew htarget
        obtain rfl := Option.some.inj (hplanned.symm.trans hentry)
        refine hdead hfile ?_ hrespect
        unfold removedWithOtherLinks at hlinks
        rw [hkind, hfile, decide_eq_false hattempted, Bool.not_false, Bool.true_and, Bool.true_and,
          Bool.not_eq_true, Bool.not_eq_false'] at hlinks
        exact hlinks
  cases hcounted : CountedFreed (kept (recorded x)) with
  | false =>
    refine ⟨freed, Ledger.note_summary hsummary _, ?_, h.once, hunlinked⟩
    rw [List.filter_append, List.filter_cons_of_neg (by simp [hcounted]), List.filter_nil,
      List.append_nil]
    exact hfreed
  | true =>
    obtain ⟨hdeleted, hfile, hlink⟩ : x.outcome = .Deleted ∧
        entry.snapshot.kind.isFileOrLink = true ∧
        (recorded x).entry.snapshot.identity.linkCount = some 1 := by
      unfold CountedFreed at hcounted
      rw [Bool.and_eq_true, Bool.and_eq_true, decide_eq_true_eq, decide_eq_true_eq,
        outcome_kept_deleted] at hcounted
      have hsame := congrArg (fun e : PlannedEntry => e.snapshot.kind) hentry
      have hsame : (kept (recorded x)).entry.snapshot.kind = entry.snapshot.kind := hsame
      rw [hsame] at hcounted
      exact ⟨hcounted.1, hcounted.2.1, hcounted.2.2⟩
    have hnone := (hx.counted hdeleted hfile).resolve_right (linkCount_of_recorded hlink)
    obtain ⟨y, hobject, halive, hgone⟩ := hx.freed hnone
    refine ⟨freed ++ [y], Ledger.note_summary hsummary _, ?_, ?_, hunlinked⟩
    · rw [List.filter_append, List.filter_cons_of_pos hcounted, List.filter_nil]
      refine List.rel_append hfreed ?_
      exact .cons ⟨isObject_of_withLinkCount hentry hobject, hgone⟩ .nil
    · rw [List.nodup_append]
      refine ⟨h.once, List.nodup_singleton y, ?_⟩
      rintro z hz y' hy rfl
      obtain rfl := List.mem_singleton.mp hy
      obtain ⟨earlier, hfrees⟩ := exists_of_mem_right h.counted hz
      rcases halive with hnamed | hnew
      · exact hfrees.gone.unnamed hnamed
      · exact hnew hfrees.gone.known

end

/-! ## The loop -/

/-- The account of a collector: it holds what was noted, but for a last result that could not be
stored. -/
def Accounts (w : Setting) (entries : List DeletionEntryResult) (summary : DeletionSummary)
    (s : SharedState) : Prop :=
  ∃ noted freed, Ledger w summary noted freed s ∧ entries <+: noted

section
variable {w : Setting} {s s' : SharedState} {r : ResultCollector}
  {noted : List DeletionEntryResult} {freed : List FileId} {entry : PlannedEntry}

theorem Accounts.cleans {entries : List DeletionEntryResult} {summary : DeletionSummary}
    (h : Accounts w entries summary s) (hs : Cleans s s') : Accounts w entries summary s' := by
  obtain ⟨noted, freed, hledger, hentries⟩ := h
  exact ⟨noted, freed, hledger.cleans hs, hentries⟩

variable (host : Host)

theorem guards_push (result : DeletionEntryResult) (hs : w.Safe s) :
    w.guards (fun out s' => Waits w.respectful s s' ∧
        out.1.summary = r.summary.note (kept result) ∧
        ((out.1.entries = r.entries ∧ out.2.isSome = true) ∨
          out.1.entries = r.entries ++ [kept result] ∧ out.2 = none))
      (push host r result) s := by
  have hstored (storage : ResultStorage)
      {f : Option IoError → Executor (ResultCollector × Option IoError)}
      (hsome : ∀ e, f (some e) = pure (r.noted (kept result), some e))
      (hnone : f none = pure (r.stored (kept result) storage, none)) :
      w.guards (fun out s' => Waits w.respectful s s' ∧
      out.1.summary = r.summary.note (kept result) ∧
      ((out.1.entries = r.entries ∧ out.2.isSome = true) ∨
        out.1.entries = r.entries ++ [kept result] ∧ out.2 = none))
      (storeResult (kept result) >>= f) s := by
    refine guards_ask hs (fun _ _ _ => rfl) fun s₁ answer hw hs₁ => ?_
    cases answer with
    | some e =>
      rw [hsome]
      exact guards_return hs₁ fun _ hw₂ => ⟨hw.trans hw₂, rfl, Or.inl ⟨rfl, rfl⟩⟩
    | none =>
      rw [hnone]
      exact guards_return hs₁ fun _ hw₂ => ⟨hw.trans hw₂, rfl, Or.inr ⟨rfl, rfl⟩⟩
  unfold push
  split
  · dsimp only
    split
    · exact guards_return hs fun _ hw => ⟨hw, rfl, Or.inl ⟨rfl, rfl⟩⟩
    · exact hstored _ (fun _ => rfl) rfl
  · exact hstored _ (fun _ => rfl) rfl

theorem guards_loadSoft {α : Type} {Q : α → SharedState → Prop} {f : Bool → Executor α}
    (hs : w.Safe s)
    (h : ∀ s₁ soft, Waits w.respectful s s₁ → w.Safe s₁ → w.guards Q (f soft) s₁) :
    w.guards Q (loadSoft >>= f) s :=
  guards_ask hs (fun _ _ _ => rfl) h

/-- What is done with an entry that is not executed, or could not be. -/
theorem guards_push_ledger (result : DeletionEntryResult) (hresult : result.outcome ≠ .Deleted)
    (hs : w.Safe s) (h : Ledger w r.summary r.entries freed s) :
    w.guards (fun out s' => Accounts w out.1.entries out.1.summary s' ∧
        (out.2 = none → Ledger w out.1.summary out.1.entries freed s'))
      (push host r result) s := by
  refine (guards_push host result hs).mono ?_
  rintro out s₁ ⟨hw, hsummary, hentries⟩
  have hkept : (kept result).outcome ≠ .Deleted := by
    rw [Ne, outcome_kept_deleted]
    exact hresult
  have hledger := (h.note hkept).cleans hw.toLooks.cleans
  rw [← hsummary] at hledger
  rcases hentries with ⟨hsame, hfailed⟩ | ⟨hstored, -⟩
  · refine ⟨⟨_, freed, hledger, by rw [hsame]; exact List.prefix_append ..⟩, fun hnone => ?_⟩
    rw [hnone] at hfailed
    cases hfailed
  · rw [hstored]
    exact ⟨⟨_, freed, hledger, List.prefix_rfl⟩, fun _ => hledger⟩

theorem guards_popReverse {α : Type} {Q : α → SharedState → Prop} {entry : Option PlannedEntry}
    {f : Option DeletionPlanError → Executor α} (hs : w.Safe s)
    (h : ∀ s₁ answer, Waits w.respectful s s₁ → w.Safe { s₁ with planned := entry } →
      w.guards Q (f answer) { s₁ with planned := entry }) :
    w.guards Q (popReverse entry >>= f) s :=
  guards_call hs fun _ _ _ hw hs₁ => Or.inr ⟨_, _, rfl, h _ _ hw hs₁⟩

theorem Ledger.turn {summary : DeletionSummary} (h : Ledger w summary noted freed s)
    (planned : Option PlannedEntry) :
    Ledger w summary noted freed { s with planned := planned } :=
  ⟨h.noted_all, h.counted.imp fun _ _ hf => ⟨hf.object, hf.gone.counted, hf.gone.known,
    hf.gone.unnamed⟩, h.once, h.unlinked⟩

variable (scanRoot : OsString)

theorem guards_planReadFailureReport (e : DeletionPlanError) (soft : Bool) (hs : w.Safe s)
    (h : Ledger w r.summary r.entries freed s) :
    w.guards (fun report s' => Accounts w report.entries.entries report.entries.summary s')
      (planReadFailureReport host scanRoot w.plan r e soft) s := by
  unfold planReadFailureReport
  refine World.wp_seq (guards_push_ledger host _ (by simp) hs h) ?_
  rintro ⟨r', failed⟩ s₁ hs₁ ⟨haccounts, -⟩
  cases failed with
  | some e => exact guards_return hs₁ fun _ hw => haccounts.cleans hw.toLooks.cleans
  | none => exact guards_return hs₁ fun _ hw => haccounts.cleans hw.toLooks.cleans

theorem guards_failedReport (message : String) (rest : List PlannedEntry) :
    ∀ {r : ResultCollector} {freed : List FileId} {s : SharedState}, w.Safe s →
      Ledger w r.summary r.entries freed s →
      w.guards (fun report s' => Accounts w report.entries.entries report.entries.summary s')
        (failedReport host scanRoot w.plan message r rest) s := by
  induction rest with
  | nil =>
    intro r freed s hs h
    refine guards_popReverse hs fun s₁ answer hw hs₁ => ?_
    have h₁ := (h.cleans hw.toLooks.cleans).turn none
    cases answer with
    | some e => exact guards_planReadFailureReport host scanRoot e false hs₁ h₁
    | none =>
      have haccounts : Accounts w r.entries r.summary { s₁ with planned := none } :=
        ⟨_, freed, h₁, List.prefix_rfl⟩
      exact guards_return hs₁ fun _ hw₂ => haccounts.cleans hw₂.toLooks.cleans
  | cons entry rest ih =>
    intro r freed s hs h
    refine guards_popReverse hs fun s₁ answer hw hs₁ => ?_
    have h₁ := (h.cleans hw.toLooks.cleans).turn (some entry)
    cases answer with
    | some e => exact guards_planReadFailureReport host scanRoot e false hs₁ h₁
    | none =>
      refine World.wp_seq (guards_push_ledger host ⟨entry, .Failed message⟩ (by simp) hs₁ h₁) ?_
      rintro ⟨r', failed⟩ s₂ hs₂ ⟨haccounts, hledger⟩
      cases failed with
      | some e => exact guards_return hs₂ fun _ hw => haccounts.cleans hw.toLooks.cleans
      | none => exact ih hs₂ (hledger rfl)

/-- A load or store of a flag. -/
def FlagCall (c : ExecutorCall) : Prop := c = .loadSoft ∨ c = .loadHard ∨ c = .storeSoft

theorem guards_flags {α : Type} {p : Executor α} (hs : w.Safe s)
    (hp : p.Uses FlagCall) :
    w.guards (fun _ s' => Waits w.respectful s s') p s := by
  refine World.wp_uses (.refl s) (fun _ a hw => hw.trans (waits_others _ _ a))
    (fun _ hw => hs.looks hw.toLooks) ?_ hp
  rintro c (rfl | rfl | rfl) s₁ answers hw
  · exact hw
  · exact hw
  · exact hw

theorem mayExecute_flags (stopped : Bool) :
    (mayExecute stopped).Uses FlagCall := by
  cases stopped with
  | true => trivial
  | false =>
    refine ⟨Or.inl rfl, fun soft => ?_⟩
    cases soft with
    | true => trivial
    | false =>
      refine ⟨Or.inr (Or.inl rfl), fun hard => ?_⟩
      cases hard with
      | true => trivial
      | false => trivial

theorem stopAfter_flags (outcome : DeletionEntryOutcome) :
    (stopAfter outcome).Uses FlagCall := by
  unfold stopAfter
  split
  · exact Program.uses_ask (Or.inr (Or.inr rfl))
  · trivial

theorem guards_executeEntry (root : Handle) (stopped : Bool) (hs : w.Safe s)
    (hplanned : s.planned = some entry) (hmem : entry ∈ w.plan.entries)
    (h : Ledger w r.summary r.entries freed s) :
    w.guards (fun out s' => Accounts w out.1.entries out.1.summary s' ∧
        (out.2.2 = none → ∃ freed', Ledger w out.1.summary out.1.entries freed' s'))
      (executeEntry host tryClaim tryBegin scanRoot root r stopped entry) s := by
  unfold executeEntry
  refine World.wp_seq (guards_flags hs (mayExecute_flags stopped)) ?_
  intro may s₁ hs₁ hw₁
  have h₁ := h.cleans hw₁.toLooks.cleans
  cases may with
  | false =>
    refine World.wp_seq (guards_push_ledger host ⟨entry, .Unattempted⟩ (by simp) hs₁ h₁) ?_
    rintro ⟨r', failed⟩ s₂ hs₂ ⟨haccounts, hledger⟩
    exact guards_return hs₂ fun _ hw => ⟨haccounts.cleans hw.toLooks.cleans,
      fun hnone => ⟨freed, (hledger hnone).cleans hw.toLooks.cleans⟩⟩
  | true =>
    refine World.wp_seq (guards_executeUnixEntry host root hs₁ (hw₁.planned.trans hplanned) hmem
      rfl) ?_
    intro x s₂ hs₂ hx
    obtain ⟨freed', h₂⟩ := h₁.executed hx
    refine World.wp_seq (guards_flags hs₂ (stopAfter_flags x.outcome)) ?_
    intro _ s₃ hs₃ hw₃
    have h₃ := h₂.cleans hw₃.toLooks.cleans
    refine World.wp_seq (guards_push host (recorded x) hs₃) ?_
    rintro ⟨r', failed⟩ s₄ hs₄ ⟨hw₄, hsummary, hentries⟩
    dsimp only at hsummary hentries
    have h₄ := h₃.cleans hw₄.toLooks.cleans
    have hflagged : r'.summary =
        (if removedWithOtherLinks x.entry.snapshot.kind x.outcome x.isolation.noLinkSurvived then
          { r.summary with deletedWithOtherLinks := true } else r.summary).note
            (kept (recorded x)) := by
      rw [hsummary]
      split
      · rfl
      · rfl
    have hheld (removed : Bool) :
        (if removed then r.noteOtherLinks else r).entries = r.entries := by
      cases removed with
      | true => rfl
      | false => rfl
    rw [hheld] at hentries
    rw [← hflagged] at h₄
    refine guards_return hs₄ fun s₅ hw₅ => ?_
    have h₅ := h₄.cleans hw₅.toLooks.cleans
    rcases hentries with ⟨hsame, hfailed⟩ | ⟨hstored, -⟩
    · refine ⟨⟨_, freed', h₅, hsame ▸ List.prefix_append ..⟩, fun hnone => ?_⟩
      dsimp only at hnone
      rw [hnone] at hfailed
      cases hfailed
    · rw [← hstored] at h₅
      exact ⟨⟨_, freed', h₅, List.prefix_rfl⟩, fun _ => ⟨freed', h₅⟩⟩

theorem guards_executeEntries (root : Handle) (rest : List PlannedEntry)
    (hrest : ∀ entry ∈ rest, entry ∈ w.plan.entries) :
    ∀ {r : ResultCollector} {freed : List FileId} {s : SharedState} (stopped : Bool), w.Safe s →
      Ledger w r.summary r.entries freed s →
      w.guards (fun report s' => Accounts w report.entries.entries report.entries.summary s')
        (executeEntries host tryClaim tryBegin scanRoot w.plan root r stopped rest) s := by
  induction rest with
  | nil =>
    intro r freed s stopped hs h
    refine guards_popReverse hs fun s₁ answer hw hs₁ => ?_
    have h₁ := (h.cleans hw.toLooks.cleans).turn none
    cases answer with
    | some e =>
      refine guards_loadSoft hs₁ fun s₂ soft hw₂ hs₂ => ?_
      exact guards_planReadFailureReport host scanRoot e soft hs₂ (h₁.cleans hw₂.toLooks.cleans)
    | none =>
      refine guards_loadSoft hs₁ fun s₂ soft hw₂ hs₂ => ?_
      refine guards_ask hs₂ (fun _ _ _ => rfl) fun s₃ hard hw₃ hs₃ => ?_
      have haccounts : Accounts w r.entries r.summary s₃ :=
        ⟨_, freed, h₁.cleans (hw₂.trans hw₃).toLooks.cleans, List.prefix_rfl⟩
      exact guards_return hs₃ fun _ hw₄ => haccounts.cleans hw₄.toLooks.cleans
  | cons entry rest ih =>
    intro r freed s stopped hs h
    refine guards_popReverse hs fun s₁ answer hw hs₁ => ?_
    have h₁ := (h.cleans hw.toLooks.cleans).turn (some entry)
    cases answer with
    | some e =>
      refine guards_loadSoft hs₁ fun s₂ soft hw₂ hs₂ => ?_
      exact guards_planReadFailureReport host scanRoot e soft hs₂ (h₁.cleans hw₂.toLooks.cleans)
    | none =>
      refine World.wp_seq (guards_executeEntry host scanRoot root stopped hs₁ rfl
        (hrest entry List.mem_cons_self) h₁) ?_
      rintro ⟨r', stopped', failed⟩ s₂ hs₂ ⟨haccounts, hledger⟩
      cases failed with
      | some e =>
        refine guards_loadSoft hs₂ fun s₃ soft hw₃ hs₃ => ?_
        exact guards_return hs₃ fun _ hw₄ => haccounts.cleans (hw₃.trans hw₄).toLooks.cleans
      | none =>
        obtain ⟨freed', h₂⟩ := hledger rfl
        exact ih (fun e he => hrest e (List.mem_cons_of_mem _ he)) stopped' hs₂ h₂

theorem guards_executePlan (storage : ResultStorage) (hs : w.Safe s)
    (h : Ledger w {} [] freed s) :
    w.guards (fun report s' => Accounts w report.entries.entries report.entries.summary s')
      (executePlan host tryClaim tryBegin scanRoot w.plan storage) s := by
  unfold executePlan
  refine guards_openRoot hs (fun s₁ e hl hs₁ => ?_) fun s₁ root hl hs₁ => ?_
  · exact guards_failedReport host scanRoot _ _ hs₁ (h.cleans hl.cleans)
  · refine guards_ask hs₁ (fun _ _ _ => rfl) fun s₂ answer hw hs₂ => ?_
    have h₂ := h.cleans (hl.trans hw.toLooks).cleans
    cases answer with
    | some e => exact guards_failedReport host scanRoot _ _ hs₂ h₂
    | none =>
      exact guards_executeEntries host scanRoot root _ (fun _ he => List.mem_reverse.mp he) false hs₂
        h₂

end

/-! ## Removals -/

/-- What one step of the executor does to the names. -/
inductive NameStep (s s' : SharedState) : Prop where
  | kept (hnamed : ∀ x, s'.table.Named x ↔ s.table.Named x)
      (hused : s'.table.used = s.table.used) (hremovals : s'.removals = s.removals)
      (hplaceholders : s'.placeholders = s.placeholders) (hunlinked : s'.unlinked = s.unlinked)
  | counted (x : FileId) (htable : s'.table = s.table) (hremovals : s'.removals = s.removals)
      (hplaceholders : s'.placeholders = s.placeholders) (hgone : s'.Gone x)
      (hunlinked : s'.unlinked = x :: s.unlinked)
  | created (p : FolderName) (x : FileId) (hfree : s.table.names p = none)
      (hfresh : x ∉ s.table.used) (htable : s'.table = s.table.create p x)
      (hremovals : s'.removals = s.removals)
      (hplaceholders : s'.placeholders = x :: s.placeholders) (hunlinked : s'.unlinked = s.unlinked)
  | removed (p : FolderName) (r : Removal) (hobject : s.table.names p = some r.object)
      (htable : s'.table = s.table.clear p) (hremovals : s'.removals = s.removals ++ [r])
      (hplaceholders : s'.placeholders = s.placeholders) (hunlinked : s'.unlinked = s.unlinked)

theorem NameStep.refl (s : SharedState) : NameStep s s := .kept (fun _ => Iff.rfl) rfl rfl rfl rfl

theorem nameStep_statOpen (objects : ObjectTable) (s : SharedState) (h : Handle)
    (asked : Except IoError PlannedSnapshot) : NameStep s (s.statOpen objects h asked).1 := by
  rcases s.statOpen_cases objects h asked with hstep | ⟨e, hstep⟩ | ⟨_, _, -, -, -, hstep⟩
  · rw [hstep]
    exact .refl s
  · rw [hstep]
    exact .refl s
  · rw [hstep]
    exact .kept (fun _ => Iff.rfl) rfl rfl rfl rfl

theorem nameStep_opens {ε : Type} (s : SharedState) (x : Option FileId) (asked : Except ε Handle) :
    NameStep s (s.opens x asked).1 := by
  rcases s.opens_cases x asked with hstep | ⟨e, hstep⟩ | ⟨_, _, -, -, hstep⟩
  · rw [hstep]
    exact .refl s
  · rw [hstep]
    exact .refl s
  · rw [hstep]
    exact .kept (fun _ => Iff.rfl) rfl rfl rfl rfl

theorem nameStep_statAt (objects : ObjectTable) (s : SharedState) (d : Handle) (n : OsString)
    (asked : Except IoError (Except String PlannedSnapshot)) :
    NameStep s (s.statAt objects d n asked).1 := by
  unfold SharedState.statAt
  split
  · split
    · rename_i hsees
      obtain ⟨x, -, -, -, rfl⟩ := SharedState.sees_eq_some hsees
      exact .kept (fun _ => Iff.rfl) rfl rfl rfl rfl
    · exact .refl s
  · exact .refl s

theorem nameStep_creates (s : SharedState) (fresh : FileId) (d : Handle) (n : OsString)
    (asked : Except IoError Handle) : NameStep s (s.creates fresh d n asked).1 := by
  unfold SharedState.creates
  split
  · split
    · split
      · rename_i hnew
        exact .created _ fresh hnew.1 hnew.2 rfl rfl rfl rfl
      · exact .refl s
    · exact .refl s
  · exact .refl s

theorem nameStep_changes {s : SharedState} {changed : Option SharedState}
    (h : ∀ s', changed = some s' → NameStep s s') (asked : Option IoError) :
    NameStep s (s.changes changed asked).1 := by
  rcases s.changes_cases changed asked with hstep | ⟨s', hchanged, hstep⟩ | ⟨e, hstep⟩
  · rw [hstep]
    exact .refl s
  · rw [hstep]
    exact h s' hchanged
  · rw [hstep]
    exact .refl s

theorem nameStep_removes {s s' : SharedState} {placeholder : Bool} {d : Handle} {n : OsString}
    (h : s.removes placeholder d n = some s') : NameStep s s' := by
  obtain ⟨p, -, h⟩ := Option.bind_eq_some_iff.mp h
  obtain ⟨x, hx, rfl⟩ := Option.map_eq_some_iff.mp h
  exact .removed p _ hx rfl rfl rfl rfl

theorem nameStep_notesUnlinked (s : SharedState) (x : FileId) : NameStep s (s.notesUnlinked x) := by
  unfold SharedState.notesUnlinked
  split
  · rename_i hcounted
    have hgone : ({ s with unlinked := x :: s.unlinked } : SharedState).Gone x :=
      ⟨List.mem_cons_self, hcounted.2, LinkTable.links_eq_zero.mp hcounted.1⟩
    exact .counted x rfl rfl rfl hgone rfl
  · exact .refl s

theorem nameStep_sharedStep (objects : ObjectTable) (root : FileId) (answers : Answers)
    (fresh : FileId) (c : ExecutorCall) (s : SharedState) :
    NameStep s (sharedStep objects root answers fresh c s).1 := by
  cases c with
  | openRoot => exact nameStep_opens s _ _
  | cloneRoot h => exact nameStep_opens s _ _
  | openDirNofollow d n => exact nameStep_opens s _ _
  | createNew d n => exact nameStep_creates s fresh d n _
  | fileMetadata h => exact nameStep_statOpen objects s h _
  | statOpen h => exact nameStep_statOpen objects s h _
  | statAt d n => exact nameStep_statAt objects s d n _
  | exchange d a b =>
    refine nameStep_changes (fun s' hchanged => ?_) _
    obtain ⟨p, -, hchanged⟩ := Option.bind_eq_some_iff.mp hchanged
    obtain ⟨q, -, hchanged⟩ := Option.bind_eq_some_iff.mp hchanged
    obtain ⟨t, ht, rfl⟩ := Option.map_eq_some_iff.mp hchanged
    obtain ⟨-, -, -, -, hused, -⟩ := LinkTable.names_exchange ht
    exact .kept (fun _ => LinkTable.named_exchange ht) hused rfl rfl rfl
  | renameNoreplace d a b =>
    refine nameStep_changes (fun s' hchanged => ?_) _
    obtain ⟨p, -, hchanged⟩ := Option.bind_eq_some_iff.mp hchanged
    obtain ⟨q, -, hchanged⟩ := Option.bind_eq_some_iff.mp hchanged
    obtain ⟨t, ht, rfl⟩ := Option.map_eq_some_iff.mp hchanged
    obtain ⟨-, -, -, hused, -⟩ := LinkTable.names_rename ht
    exact .kept (fun _ => LinkTable.named_rename ht) hused rfl rfl rfl
  | removeFile d n => exact nameStep_changes (fun _ h => nameStep_removes h) _
  | removeDir d n => exact nameStep_changes (fun _ h => nameStep_removes h) _
  | removePlaceholder d n => exact nameStep_changes (fun _ h => nameStep_removes h) _
  | openReference d n expected =>
    show NameStep s (s.refers objects d n expected _).1
    unfold SharedState.refers
    split
    · split
      · split
        · exact .kept (fun _ => Iff.rfl) rfl rfl rfl rfl
        · exact .refl s
      · exact .refl s
    · exact .refl s
  | referenceLinks h =>
    show NameStep s (s.countsLinks h _).1
    unfold SharedState.countsLinks
    split
    · split
      · split
        · exact nameStep_notesUnlinked s _
        · exact .refl s
      · exact .refl s
    · exact .refl s
  | popReverse entry => exact .kept (fun _ => Iff.rfl) rfl rfl rfl rfl
  | _ => exact .refl s

/-- Only a removal takes the last name of an object. -/
theorem NameStep.last_name {s s' : SharedState} (h : NameStep s s') {x : FileId}
    (hx : s.table.Named x) (hx' : ¬s'.table.Named x) : ∃ r ∈ s'.removals, r.object = x := by
  cases h with
  | kept hnamed _ _ _ _ => exact absurd ((hnamed x).mpr hx) hx'
  | counted y htable _ _ _ _ =>
    rw [htable] at hx'
    exact absurd hx hx'
  | created p y hfree _ htable _ _ _ =>
    rw [htable] at hx'
    exact absurd (hx.create hfree) hx'
  | removed p r hobject htable hremovals _ _ =>
    rw [htable] at hx'
    rcases hx.clear (p := p) with hkept | hheld
    · exact absurd hkept hx'
    · rw [hremovals]
      exact ⟨r, List.mem_append_right _ (List.mem_singleton_self r),
        Option.some.inj (hobject.symm.trans hheld)⟩

/-- An execution in shared folders. -/
def sharedRun (w : Setting) (host : Host) (scanRoot : OsString) (storage : ResultStorage)
    (table : FolderTable) (steps : List ((Answers × FileId) ⊕ OtherAction)) :
    SharedState × Executor DeletionReport :=
  ((sharedWorld w.objects w.root w.respectful).machine DeletionReport).run
    (.start table, executePlan host tryClaim tryBegin scanRoot w.plan storage) steps

theorem sharedRun_guards (w : Setting) (host : Host) (scanRoot : OsString)
    (storage : ResultStorage) (table : FolderTable)
    (steps : List ((Answers × FileId) ⊕ OtherAction)) :
    w.guards (fun report s' => Accounts w report.entries.entries report.entries.summary s')
      (sharedRun w host scanRoot storage table steps).2
      (sharedRun w host scanRoot storage table steps).1 :=
  (guards_executePlan host scanRoot storage (fun _ _ hr => absurd hr List.not_mem_nil)
    (Ledger.start w table)).run steps

/-- The placeholders were made while the executor ran. -/
def NewPlaceholders (table : FolderTable) (s : SharedState) : Prop :=
  (∀ x ∈ table.used, x ∈ s.table.used) ∧ ∀ x ∈ s.placeholders, x ∉ table.used

theorem NameStep.newPlaceholders {table : FolderTable} {s s' : SharedState} (h : NameStep s s')
    (hs : NewPlaceholders table s) : NewPlaceholders table s' := by
  cases h with
  | kept _ hused _ hplaceholders _ =>
    unfold NewPlaceholders
    rw [hused, hplaceholders]
    exact hs
  | counted _ htable _ hplaceholders _ _ =>
    unfold NewPlaceholders
    rw [htable, hplaceholders]
    exact hs
  | created p x _ hfresh htable _ hplaceholders _ =>
    unfold NewPlaceholders
    rw [htable, hplaceholders]
    refine ⟨fun y hy => List.mem_cons_of_mem _ (hs.1 y hy), fun y hy => ?_⟩
    rcases List.mem_cons.mp hy with rfl | hold
    · exact fun hused => hfresh (hs.1 y hused)
    · exact hs.2 y hold
  | removed p r _ htable _ hplaceholders _ =>
    unfold NewPlaceholders
    rw [htable, hplaceholders]
    exact hs

theorem newPlaceholders_step {α : Type} {table : FolderTable} (w : Setting)
    (s : SharedState × Executor α) (step : (Answers × FileId) ⊕ OtherAction)
    (hs : NewPlaceholders table s.1) :
    NewPlaceholders table ((sharedWorld w.objects w.root w.respectful).step s step).1 := by
  obtain ⟨s, p⟩ := s
  cases step with
  | inr a =>
    have hw : Waits w.respectful s ((sharedWorld w.objects w.root w.respectful).others a s) :=
      waits_others w.objects w.root a
    refine ⟨fun x hx => hw.used x (hs.1 x hx), fun x hx => hs.2 x ?_⟩
    have hsame := hw.placeholder_eq
    exact hsame ▸ hx
  | inl e =>
    cases p with
    | done a => exact hs
    | call c next => exact (nameStep_sharedStep w.objects w.root e.1 e.2 c s).newPlaceholders hs

theorem nameStep_step {α : Type} (w : Setting) (s : SharedState × Executor α)
    (e : Answers × FileId) :
    NameStep s.1 ((sharedWorld w.objects w.root w.respectful).step s (.inl e)).1 := by
  obtain ⟨s, p⟩ := s
  cases p with
  | done a => exact .refl s
  | call c next => exact nameStep_sharedStep w.objects w.root e.1 e.2 c s

/-- No step of the executor gives an object without links a name again. -/
theorem NameStep.gone {s s' : SharedState} (h : NameStep s s') {x : FileId} (hx : s.Gone x) :
    s'.Gone x := by
  cases h with
  | kept hnamed hused _ _ hunlinked =>
    exact ⟨hunlinked ▸ hx.counted, hused ▸ hx.known, fun hno => hx.unnamed ((hnamed x).mp hno)⟩
  | counted y htable _ _ _ hunlinked =>
    exact ⟨hunlinked ▸ List.mem_cons_of_mem y hx.counted, htable ▸ hx.known, htable ▸ hx.unnamed⟩
  | created p y _ hfresh htable _ _ hunlinked =>
    refine ⟨hunlinked ▸ hx.counted, htable ▸ List.mem_cons_of_mem y hx.known, fun hno => ?_⟩
    rw [htable] at hno
    rcases hno.of_create with rfl | hnamed
    · exact hfresh hx.known
    · exact hx.unnamed hnamed
  | removed p r _ htable _ _ hunlinked =>
    refine ⟨hunlinked ▸ hx.counted, htable ▸ hx.known, fun hno => ?_⟩
    rw [htable] at hno
    exact hx.unnamed hno.of_clear

theorem NameStep.counted_gone {s s' : SharedState} (h : NameStep s s') {x : FileId}
    (hx : x ∈ s'.unlinked) : x ∈ s.unlinked ∨ s'.Gone x := by
  cases h with
  | kept _ _ _ _ hunlinked => exact Or.inl (hunlinked ▸ hx)
  | counted y _ _ _ hgone hunlinked =>
    rw [hunlinked] at hx
    rcases List.mem_cons.mp hx with rfl | hold
    · exact Or.inr hgone
    · exact Or.inl hold
  | created _ _ _ _ _ _ _ hunlinked => exact Or.inl (hunlinked ▸ hx)
  | removed _ _ _ _ _ _ hunlinked => exact Or.inl (hunlinked ▸ hx)

theorem unlinked_others (objects : ObjectTable) (root : FileId) (respectful : Bool)
    (a : OtherAction) (s : SharedState) :
    ((sharedWorld objects root respectful).others a s).unlinked = s.unlinked := by
  show SharedState.unlinked (if _ then s else _) = _
  split
  · rfl
  · rfl

section
variable (w : Setting) (host : Host) (scanRoot : OsString) (storage : ResultStorage)
  (table : FolderTable)

theorem gone_step {α : Type} {s : SharedState × Executor α} {x : FileId} (hx : s.1.Gone x)
    (step : (Answers × FileId) ⊕ OtherAction) :
    ((sharedWorld w.objects w.root w.respectful).step s step).1.Gone x := by
  cases step with
  | inl e => exact (nameStep_step w s e).gone hx
  | inr a =>
    have hw : Waits w.respectful s.1 ((sharedWorld w.objects w.root w.respectful).others a s.1) :=
      waits_others w.objects w.root a
    exact hx.onward hw.toOnward

/-- From the count on an object without links has no name, whatever the executor and others do. -/
theorem gone_sharedRun (before more : List ((Answers × FileId) ⊕ OtherAction)) {x : FileId}
    (hx : x ∈ (sharedRun w host scanRoot storage table before).1.unlinked) :
    (sharedRun w host scanRoot storage table (before ++ more)).1.Gone x := by
  have hcounted : ∀ x ∈ (sharedRun w host scanRoot storage table before).1.unlinked,
      (sharedRun w host scanRoot storage table before).1.Gone x := by
    refine ((sharedWorld w.objects w.root w.respectful).machine DeletionReport).run_invariant
      (I := fun s => ∀ x ∈ s.1.unlinked, s.1.Gone x) (fun _ h => absurd h List.not_mem_nil) ?_ before
    rintro s (e | a) hs x hx
    · rcases (nameStep_step w s e).counted_gone hx with hold | hgone
      · exact gone_step w (hs x hold) (.inl e)
      · exact hgone
    · have hold : x ∈ s.1.unlinked := unlinked_others w.objects w.root w.respectful a s.1 ▸ hx
      exact gone_step w (hs x hold) (.inr a)
  have happend : sharedRun w host scanRoot storage table (before ++ more) =
      ((sharedWorld w.objects w.root w.respectful).machine DeletionReport).run
        (sharedRun w host scanRoot storage table before) more := Machine.run_append _ _ before more
  rw [happend]
  exact ((sharedWorld w.objects w.root w.respectful).machine DeletionReport).run_invariant
    (I := fun s => s.1.Gone x) (hcounted x hx) (fun _ step hs => gone_step w hs step) more

end

/-- Whatever others do to the names that are not its own, and whatever calls fail: the executor
removes placeholders it made itself and objects it has just found to be the planned ones, and no
step of it takes the last name of another object. -/
theorem executor_removes_its_own (objects : ObjectTable) (root : FileId) (host : Host)
    (scanRoot : OsString) (plan : DeletionPlan) (storage : ResultStorage) (table : FolderTable)
    (steps : List ((Answers × FileId) ⊕ OtherAction)) :
    let run := sharedRun ⟨objects, root, plan, true⟩ host scanRoot storage table
    (∀ r ∈ (run steps).1.removals, r.Allowed objects plan (run steps).1.placeholders) ∧
      (∀ x ∈ (run steps).1.placeholders, x ∉ table.used) ∧
      ∀ e x, (run steps).1.table.Named x → ¬(run (steps ++ [.inl e])).1.table.Named x →
        ∃ r ∈ (run (steps ++ [.inl e])).1.removals, r.object = x ∧
          r.Allowed objects plan (run (steps ++ [.inl e])).1.placeholders := by
  intro run
  let w : Setting := ⟨objects, root, plan, true⟩
  have hsafe (steps : List ((Answers × FileId) ⊕ OtherAction)) : w.Safe (run steps).1 :=
    (sharedRun_guards w host scanRoot storage table steps).invariant
  refine ⟨hsafe steps rfl, ?_, fun e x hx hx' => ?_⟩
  · have hnew : NewPlaceholders table (run steps).1 :=
      ((sharedWorld objects root true).machine DeletionReport).run_invariant
        (I := fun s => NewPlaceholders table s.1) ⟨fun _ h => h, fun _ h => absurd h List.not_mem_nil⟩
        (fun s step hs => newPlaceholders_step w s step hs) steps
    exact hnew.2
  · have hstep : NameStep (run steps).1 (run (steps ++ [.inl e])).1 := by
      have happend : run (steps ++ [.inl e]) =
          (sharedWorld objects root true).step (run steps) (.inl e) :=
        ((sharedWorld objects root true).machine DeletionReport).run_append _ steps [.inl e]
      rw [happend]
      exact nameStep_step w (run steps) e
    obtain ⟨r, hr, hobject⟩ := hstep.last_name hx hx'
    exact ⟨r, hr, hobject, hsafe (steps ++ [.inl e]) rfl r hr⟩

end Excise
