import Excise.Lib.Machine
import Excise.Store.Publication

/-!
# Sealing and accepting in any order

The scanner's threads seal batches with ids of the session's counter while the store accepts
sealed runs in whatever order they arrive. The active generation then holds exactly the accepted
facts, however they were cut into runs, and the merge that publication consumes is their one sorted
list.
-/

namespace Excise
set_option autoImplicit false

/-! ## The run-id counter -/

/-- The program never moves the counter back. -/
def Grows {α : Type} (c : StagingM α) : Prop :=
  ∀ n : Nat, Triple (fun s => n ≤ s.nextRunId.toNat) c (fun _ s => n ≤ s.nextRunId.toNat)
    (fun _ s => n ≤ s.nextRunId.toNat)

theorem Grows.of_same {α : Type} {c : StagingM α}
    (h : ∀ s, (∀ a s', c s = .ok a s' → s'.nextRunId = s.nextRunId) ∧
      ∀ e s', c s = .error e s' → s'.nextRunId = s.nextRunId) : Grows c := by
  refine fun n => Triple.of_result fun s hs => ⟨fun a s' hc => ?_, fun e s' hc => ?_⟩
  · rw [(h s).1 a s' hc]
    exact hs
  · rw [(h s).2 e s' hc]
    exact hs

theorem Grows.bind {α β : Type} {c : StagingM α} {f : α → StagingM β} (hc : Grows c)
    (hf : ∀ a, Grows (f a)) : Grows (c >>= f) := fun n => Triple.bind (hc n) fun a => hf a n

theorem Grows.pure {α : Type} (a : α) : Grows (Pure.pure a : StagingM α) :=
  fun _ => Triple.pure fun _ hs => hs

theorem toNat_succ {n : UInt64} (h : ¬2 ^ 64 ≤ n.toNat + 1) : (n + 1).toNat = n.toNat + 1 := by
  rw [UInt64.toNat_add]
  simp only [UInt64.toNat_one]
  omega

theorem newRunWriter_grows (io : Io) (g : ScanGeneration) (kind : RunKind) :
    Grows (newRunWriter io g kind) := by
  refine fun n => Triple.of_result fun s hs => ⟨fun a s' hc => ?_, fun e s' hc => ?_⟩ <;>
    unfold newRunWriter at hc <;> split at hc
  · cases hc
  · rename_i hid
    split at hc
    · cases hc
    · cases hc
      show n ≤ (s.nextRunId + 1).toNat
      rw [toNat_succ hid]
      omega
  · cases hc
    exact hs
  · rename_i hid
    split at hc
    · cases hc
      show n ≤ (s.nextRunId + 1).toNat
      rw [toNat_succ hid]
      omega
    · cases hc

theorem writeRun_grows {α : Type} (io : Io) (d : RunDescriptor) (outcome : Except ScanStoreError α) :
    Grows (writeRun io d outcome) := by
  refine Grows.of_same fun s => ⟨fun a s' hc => ?_, fun e s' hc => ?_⟩ <;>
    unfold writeRun at hc <;> split at hc
  · cases hc
  · split at hc <;> cases hc
    rfl
  · cases hc
    rfl
  · split at hc <;> cases hc
    rfl

theorem readRuns_grows (io : Io) (pass : ReadPass) (ds : List RunDescriptor) :
    Grows (readRuns io pass ds) := by
  induction ds with
  | nil => exact Grows.pure ()
  | cons d ds ih =>
    refine Grows.bind (Grows.of_same fun s => ⟨fun a s' hc => ?_, fun e s' hc => ?_⟩) fun _ => ih
    all_goals
      unfold readRun at hc
      split at hc <;> cases hc
      rfl

theorem recordAddedRun_grows (d : RunDescriptor) : Grows (recordAddedRun d) := by
  refine Grows.of_same fun s => ⟨fun a s' hc => ?_, fun e s' hc => ?_⟩
  all_goals
    unfold recordAddedRun at hc
    split at hc <;> cases hc
    rfl

theorem recordReplacedRuns_grows (removed : List RunDescriptor) (d : RunDescriptor) :
    Grows (recordReplacedRuns removed d) := by
  refine Grows.of_same fun s => ⟨fun a s' hc => ?_, fun e s' hc => ?_⟩
  all_goals
    unfold recordReplacedRuns at hc
    split at hc <;> cases hc
    rfl

theorem mergeFamily_grows (io : Io) (g : ScanGeneration) (kind : RunKind) (runs : List FactRun) :
    Grows (mergeFamily io g kind runs) := by
  match runs with
  | [] =>
    unfold mergeFamily
    exact (newRunWriter_grows io g kind).bind fun d => (writeRun_grows io d _).bind fun out =>
      (recordAddedRun_grows d).bind fun _ => Grows.pure out
  | [run] =>
    unfold mergeFamily
    exact Grows.pure run
  | first :: second :: rest =>
    rw [mergeFamily]
    · exact (readRuns_grows io .Merge _).bind fun _ => (newRunWriter_grows io g kind).bind fun d =>
        (writeRun_grows io d _).bind fun out =>
          (recordReplacedRuns_grows _ d).bind fun _ => Grows.pure out
    · intro h
      cases h
    · intro run h
      cases h

/-- The counter after a call is at least `n`. -/
def CounterFrom (n : Nat) (r : EStateM.Result ScanStoreError Staging Unit) : Prop :=
  match r with
  | .ok _ s => n ≤ s.nextRunId.toNat
  | .error _ s => n ≤ s.nextRunId.toNat

theorem compactLoop_grows (io : Io) (g : ScanGeneration) (kind : RunKind)
    (levels : RunLevels Fact.key) (s : Staging) (n : Nat) (hn : n ≤ s.nextRunId.toNat) :
    CounterFrom n (compactLoop io g kind levels s).2 := by
  induction hlen : levels.intoRuns.length using Nat.strong_induction_on generalizing levels s with
  | _ len ih =>
    rw [compactLoop]
    split
    · exact hn
    · rename_i level runs rest ht
      obtain ⟨hfull, -, -, hperm⟩ := RunLevels.takeFullLevel_spec ht
      have hmerge := mergeFamily_grows io g kind runs n
      split
      · rename_i e s' hm
        exact hmerge.error hn hm
      · rename_i merged s' hm
        split
        · exact hmerge.ok hn hm
        · rename_i levels' hpush
          refine ih _ ?_ levels' s' (hmerge.ok hn hm) rfl
          have h1 := hperm.length_eq
          have h2 := (RunLevels.pushMerged_intoRuns hpush).length_eq
          rw [List.length_append] at h1
          rw [List.length_cons] at h2
          unfold maxActiveInputRuns at hfull
          omega

/-- The store's counter after a call is at least `n`. -/
def StoreCounterFrom (n : Nat) (r : EStateM.Result ScanStoreError ScanStore Unit) : Prop :=
  match r with
  | .ok _ s => n ≤ s.nextRunId.toNat
  | .error _ s => n ≤ s.nextRunId.toNat

/-- Accepting a run never moves the counter back. -/
theorem acceptInputRun_grows (io : Io) (run : FactRun) (s : ScanStore) :
    StoreCounterFrom s.nextRunId.toNat (ScanStore.acceptInputRun io run s) := by
  unfold ScanStore.acceptInputRun
  dsimp only
  split
  · exact Nat.le_refl _
  split
  · exact Nat.le_refl _
  split
  · exact Nat.le_refl _
  split
  · exact Nat.le_refl _
  split
  · exact Nat.le_refl _
  · rename_i active _
    split
    · exact Nat.le_refl _
    · rename_i family _
      unfold ScanStore.compactActive
      dsimp only
      have hgrows := compactLoop_grows io active.generation family.kind
        ((active.runsOf family).push run) ⟨s.nextRunId, active.manifest⟩ _ (Nat.le_refl _)
      cases hr : (compactLoop io active.generation family.kind ((active.runsOf family).push run)
          ⟨s.nextRunId, active.manifest⟩).2 with
      | ok u st =>
        rw [hr] at hgrows
        exact hgrows
      | error e st =>
        rw [hr] at hgrows
        exact hgrows

/-! ## How many run ids are drawn -/

/-- From a counter of at most `n` the program draws at most `k` ids, less one for each run that
`left` counts of what it returns; only the want of so many ids makes it throw `RunIdOverflow`. -/
def Draws {α : Type} (k : Nat) (left : α → Nat) (c : StagingM α) : Prop :=
  ∀ n : Nat, Triple (fun s => s.nextRunId.toNat ≤ n) c
    (fun a s => s.nextRunId.toNat + left a ≤ n + k)
    (fun e _ => e = .RunIdOverflow → 2 ^ 64 ≤ n + k + 1)

section
variable {α β : Type} {k l : Nat} {left : α → Nat} {right : β → Nat} {c : StagingM α}
  {f : α → StagingM β}

theorem Draws.of_same
    (h : ∀ s, (∀ a s', c s = .ok a s' → s'.nextRunId = s.nextRunId) ∧
      ∀ e s', c s = .error e s' → e ≠ .RunIdOverflow) : Draws 0 (fun _ => 0) c := by
  refine fun n => Triple.of_result fun s hs => ⟨fun a s' hc => ?_, fun e s' hc hover => ?_⟩
  · rw [(h s).1 a s' hc]
    exact hs
  · exact absurd hover ((h s).2 e s' hc)

theorem Draws.pure {a : α} (h : left a ≤ k) : Draws k left (Pure.pure a : StagingM α) :=
  fun n => Triple.pure fun s (hs : s.nextRunId.toNat ≤ n) => Nat.add_le_add hs h

theorem Draws.mono (h : Draws k left c) (hkl : k ≤ l) : Draws l left c := by
  refine fun n => (h n).weaken (fun _ hs => hs) (fun _ _ hs => ?_) fun _ _ he hover => ?_
  · exact Nat.le_trans hs (Nat.add_le_add_left hkl n)
  · have hfull := he hover
    omega

theorem Draws.bind (hc : Draws k left c) (hf : ∀ a, Draws (left a + l) right (f a)) :
    Draws (k + l) right (c >>= f) := by
  intro n
  have hfirst : Triple (fun s : Staging => s.nextRunId.toNat ≤ n) c
      (fun a s => s.nextRunId.toNat + left a ≤ n + k)
      fun e _ => e = ScanStoreError.RunIdOverflow → 2 ^ 64 ≤ n + (k + l) + 1 :=
    (hc n).weaken (fun _ hs => hs) (fun _ _ hs => hs) fun _ _ he hover => by
      have hfull := he hover
      omega
  refine Triple.bind hfirst fun a => ?_
  -- the ids that are still to be drawn from the counter that is reached
  refine Triple.of_fact (p := left a ≤ n + k) (fun s hs => by omega) fun hleft => ?_
  refine (hf a (n + k - left a)).weaken (fun s hs => by omega) (fun b s hs => ?_)
    fun e s he hover => ?_
  · omega
  · have hfull := he hover
    omega

theorem Draws.andThen (hc : Draws k (fun _ => 0) c) (hf : ∀ a, Draws l right (f a)) :
    Draws (k + l) right (c >>= f) := hc.bind fun a => (Nat.zero_add l).symm ▸ hf a

theorem newRunWriter_draws (io : Io) (g : ScanGeneration) (kind : RunKind) :
    Draws 1 (fun _ => 0) (newRunWriter io g kind) := by
  refine fun n => Triple.of_result fun s hs => ⟨fun a s' hc => ?_, fun e s' hc => ?_⟩ <;>
    unfold newRunWriter at hc <;> split at hc
  · cases hc
  · rename_i hid
    split at hc
    · cases hc
    · cases hc
      show (s.nextRunId + 1).toNat + 0 ≤ n + 1
      rw [toNat_succ hid]
      omega
  · rename_i hid
    intro _
    omega
  · split at hc
    · cases hc
      exact fun hover => nomatch hover
    · cases hc

theorem writeRun_draws (io : Io) (d : RunDescriptor) {outcome : Except ScanStoreError α}
    (h : outcome ≠ .error .RunIdOverflow) : Draws 0 (fun _ => 0) (writeRun io d outcome) := by
  refine Draws.of_same fun s => ⟨fun a s' hc => ?_, fun e s' hc => ?_⟩ <;>
    unfold writeRun at hc <;> split at hc
  · cases hc
  · split at hc <;> cases hc
    rfl
  · cases hc
    exact fun hover => nomatch hover
  · split at hc
    · cases hc
      rintro rfl
      exact h rfl
    · cases hc

theorem readRuns_draws (io : Io) (pass : ReadPass) (ds : List RunDescriptor) :
    Draws 0 (fun _ => 0) (readRuns io pass ds) := by
  induction ds with
  | nil => exact Draws.pure (Nat.le_refl 0)
  | cons d ds ih =>
    refine Draws.andThen (l := 0) (Draws.of_same fun s => ⟨fun a s' hc => ?_, fun e s' hc => ?_⟩)
      fun _ => ih
    all_goals
      unfold readRun at hc
      split at hc
    · cases hc
    · cases hc
      rfl
    · cases hc
      exact fun hover => nomatch hover
    · cases hc

theorem recordAddedRun_draws (d : RunDescriptor) : Draws 0 (fun _ => 0) (recordAddedRun d) := by
  refine Draws.of_same fun s => ⟨fun a s' hc => ?_, fun e s' hc => ?_⟩
  all_goals
    unfold recordAddedRun at hc
    split at hc
  · cases hc
    rfl
  · cases hc
  · cases hc
  · cases hc
    exact fun hover => nomatch hover

theorem recordReplacedRuns_draws (removed : List RunDescriptor) (d : RunDescriptor) :
    Draws 0 (fun _ => 0) (recordReplacedRuns removed d) := by
  refine Draws.of_same fun s => ⟨fun a s' hc => ?_, fun e s' hc => ?_⟩
  all_goals
    unfold recordReplacedRuns at hc
    split at hc
  · cases hc
    rfl
  · cases hc
  · cases hc
  · cases hc
    exact fun hover => nomatch hover

/-- A merge of several runs draws one id and hands on one run. -/
theorem mergeFamily_draws (io : Io) (g : ScanGeneration) (kind : RunKind) (first : FactRun)
    (rest : List FactRun) :
    Draws (rest.length + 1) (fun _ => 1) (mergeFamily io g kind (first :: rest)) := by
  cases rest with
  | nil =>
    unfold mergeFamily
    exact Draws.pure (Nat.le_refl 1)
  | cons second rest =>
    rw [mergeFamily]
    · have hwrite (d : RunDescriptor) : mergedRun (first :: second :: rest) d ≠
          .error .RunIdOverflow := by
        unfold mergedRun
        intro hover
        split at hover <;> cases hover
      have hone : Draws (0 + (1 + (0 + (0 + 1)))) (fun _ => 1) (do
          readRuns io .Merge ((first :: second :: rest).map SealedRun.descriptor)
          let descriptor ← newRunWriter io g kind
          let output ← writeRun io descriptor (mergedRun (first :: second :: rest) descriptor)
          recordReplacedRuns ((first :: second :: rest).map SealedRun.descriptor) descriptor
          pure output) := by
        refine (readRuns_draws io .Merge _).andThen fun _ => ?_
        refine (newRunWriter_draws io g kind).andThen fun d => ?_
        refine (writeRun_draws io d (hwrite d)).andThen fun out => ?_
        exact (recordReplacedRuns_draws _ d).andThen fun _ => Draws.pure (Nat.le_refl 1)
      exact hone.mono (by rw [List.length_cons]; omega)
    · intro h
      cases h
    · intro run h
      cases h

/-- A group of runs becomes one, at the cost of one id at most. -/
theorem mergeGroups_draws (io : Io) (g : ScanGeneration) (kind : RunKind) (pending : List FactRun) :
    Draws pending.length List.length (mergeGroups io g kind pending) := by
  induction hn : pending.length using Nat.strong_induction_on generalizing pending with
  | _ n ih =>
    subst hn
    cases pending with
    | nil =>
      rw [mergeGroups]
      exact Draws.pure (Nat.le_refl 0)
    | cons first rest =>
      rw [mergeGroups]
      have hsplit : (first :: rest).length = ((rest.take (maxActiveInputRuns - 1)).length + 1) +
          (rest.drop (maxActiveInputRuns - 1)).length := by
        rw [List.length_cons, List.length_take, List.length_drop]
        omega
      have hlater := ih _ (by rw [hsplit]; omega) (rest.drop (maxActiveInputRuns - 1)) rfl
      rw [hsplit]
      refine (mergeFamily_draws io g kind first _).bind fun merged => ?_
      rw [Nat.add_comm 1]
      exact hlater.bind fun next => Draws.pure (Nat.le_refl _)

theorem mergeRounds_draws (io : Io) (g : ScanGeneration) (kind : RunKind) (pending : List FactRun) :
    Draws (pending.length + 1) (fun _ => 0) (fun s => mergeRounds io g kind pending s) := by
  induction hn : pending.length using Nat.strong_induction_on generalizing pending with
  | _ m ih =>
    subst hn
    intro n s hs
    rcases pending with _ | ⟨first, _ | ⟨second, rest⟩⟩
    · simp only [mergeRounds, mergeFamily]
      have hempty : Draws (1 + (0 + (0 + 0))) (fun _ => 0) (do
          let descriptor ← newRunWriter io g kind
          let output ← writeRun io descriptor
            (.ok (RunWriter.new descriptor : RunWriter Fact.key).sealRun)
          recordAddedRun descriptor
          pure output) := by
        refine (newRunWriter_draws io g kind).andThen fun d => ?_
        have hwrite : (.ok (RunWriter.new d : RunWriter Fact.key).sealRun :
            Except ScanStoreError FactRun) ≠ .error .RunIdOverflow := by
          intro hover
          cases hover
        refine (writeRun_draws io d hwrite).andThen fun out => ?_
        exact (recordAddedRun_draws d).andThen fun _ => Draws.pure (Nat.le_refl 0)
      exact hempty n s hs
    · simp only [mergeRounds]
      show s.nextRunId.toNat + 0 ≤ n + (1 + 1)
      omega
    · simp only [mergeRounds]
      have hgroups := mergeGroups_draws io g kind (first :: second :: rest)
      cases hm : mergeGroups io g kind (first :: second :: rest) s with
      | error e s' =>
        intro hover
        have hfull := (hgroups n).error hs hm hover
        omega
      | ok next s' =>
        have hleft : s'.nextRunId.toNat + next.length ≤ n + (first :: second :: rest).length :=
          (hgroups n).ok hs hm
        have hless := ((mergeGroups_length io g kind _).ok trivial hm).2 (by simp)
        have hcounted : s'.nextRunId.toNat ≤ n + (first :: second :: rest).length - next.length := by
          omega
        have hnext := ih next.length hless next rfl _ s' hcounted
        have hsame : n + (first :: second :: rest).length - next.length + (next.length + 1) =
            n + ((first :: second :: rest).length + 1) := by omega
        rw [hsame] at hnext
        exact hnext

end

/-! ## Sealing -/

theorem foldlM_appendFact_ok {facts : List Fact} {w w' : RunWriter Fact.key}
    (h : facts.foldlM appendFact w = .ok w') :
    w'.descriptor = w.descriptor ∧ w'.records = w.records ++ facts := by
  induction facts generalizing w with
  | nil =>
    cases h
    exact ⟨rfl, (List.append_nil _).symm⟩
  | cons fact rest ih =>
    obtain ⟨m, hm, hrest⟩ := foldlM_cons_ok h
    unfold appendFact at hm
    split at hm
    · cases hm
    · split at hm
      · cases hm
      · rename_i v hv
        cases hm
        unfold RunWriter.append at hv
        split at hv
        · cases hv
          obtain ⟨hd, hr⟩ := ih hrest
          exact ⟨hd, by rw [hr, List.append_assoc, List.singleton_append]⟩
        · cases hv

/-- Encodable facts in strictly increasing order are all appended. -/
theorem foldlM_appendFact_returns {facts : List Fact} {w : RunWriter Fact.key}
    (he : ∀ fact ∈ facts, fact.encodeCheck = .ok ()) (hs : SortedBy Fact.key (w.records ++ facts)) :
    ∃ w', facts.foldlM appendFact w = .ok w' := by
  induction facts generalizing w with
  | nil => exact ⟨w, rfl⟩
  | cons fact rest ih =>
    have hlt : ∀ k, w.lastKey = some k → k < fact.key := by
      intro k hk
      obtain ⟨y, hy, rfl⟩ := Option.map_eq_some_iff.mp hk
      exact (List.pairwise_append.mp hs).2.2 y (List.mem_of_getLast? hy) fact List.mem_cons_self
    have happ : appendFact w fact =
        .ok ⟨w.descriptor, w.records ++ [fact], RunWriter.sorted_append hlt⟩ := by
      rw [appendFact, he fact List.mem_cons_self]
      dsimp only
      rw [RunWriter.append, dif_pos hlt]
    rw [List.foldlM_cons, happ]
    apply ih
    · exact fun f hf => he f (List.mem_cons_of_mem _ hf)
    · rwa [List.append_assoc, List.singleton_append]

theorem sortFacts_perm (facts : List Fact) : (sortFacts facts).Perm facts :=
  List.mergeSort_perm facts _

theorem sortFacts_sorted {facts : List Fact} (h : DistinctKeys facts) :
    SortedBy Fact.key (sortFacts facts) :=
  SortedBy.mergeSort (fun _ _ => decide_eq_true_iff) h

/-- Facts a quiet environment can refuse to seal only for want of run ids. -/
structure Sealable (io : Io) (facts : List Fact) : Prop where
  quiet : io = Io.none
  encodable : ∀ fact ∈ facts, fact.encodeCheck = .ok ()
  distinct : DistinctKeys facts

/-- Runs just sealed between the counters `n` and `n'`. -/
structure SealedRuns (g : ScanGeneration) (n n' : UInt64) (runs : List FactRun) : Prop where
  generation : ∀ r ∈ runs, r.descriptor.generation = g
  input : ∀ r ∈ runs, isInputKind r.descriptor.kind = true
  above : ∀ r ∈ runs, n ≤ r.descriptor.runId
  below : ∀ r ∈ runs, r.descriptor.runId < n'
  ids : (runs.map fun r => r.descriptor.runId).Nodup

/-- How sealing one family may end: with the counter not moved back, and with one run of exactly
the facts, or none when there are none. -/
def SealOutcome (io : Io) (g : ScanGeneration) (family : InputFamily) (facts : List Fact)
    (s : Staging) (r : EStateM.Result ScanStoreError Staging (List FactRun)) : Prop :=
  match r with
  | .ok runs s' => s.nextRunId ≤ s'.nextRunId ∧ SealedRuns g s.nextRunId s'.nextRunId runs ∧
      (∀ r ∈ runs, r.descriptor.kind = family.kind) ∧ (recordsOf runs).Perm facts
  | .error e s' => s.nextRunId ≤ s'.nextRunId ∧ (Sealable io facts → e = .RunIdOverflow)

theorem le_succ_id {n : UInt64} (h : ¬2 ^ 64 ≤ n.toNat + 1) : n < n + 1 := by
  rw [UInt64.lt_iff_toNat_lt, toNat_succ h]
  exact Nat.lt_succ_self _

theorem sealFamily_outcome (io : Io) (g : ScanGeneration) (family : InputFamily)
    (facts : List Fact) (s : Staging) :
    SealOutcome io g family facts s (sealFamily io g family.kind facts s) := by
  have hkind : isInputKind family.kind = true := by cases family <;> rfl
  unfold sealFamily
  by_cases hempty : facts.isEmpty = true
  · rw [if_pos hempty, List.isEmpty_iff.mp hempty]
    refine ⟨UInt64.le_refl _, ⟨?_, ?_, ?_, ?_, List.nodup_nil⟩, ?_, List.Perm.refl _⟩ <;>
      · intro r hr
        cases hr
  rw [if_neg hempty]
  show SealOutcome io g family facts s (EStateM.bind _ _ s)
  unfold EStateM.bind newRunWriter
  by_cases hid : 2 ^ 64 ≤ s.nextRunId.toNat + 1
  · rw [if_pos hid]
    exact ⟨UInt64.le_refl _, fun _ => rfl⟩
  rw [if_neg hid]
  have hnext := le_succ_id hid
  cases hcreate : io.create (RunDescriptor.slot ⟨g, s.nextRunId, family.kind⟩) with
  | some error =>
    refine ⟨UInt64.le_of_lt hnext, fun h => ?_⟩
    rw [h.quiet] at hcreate
    cases hcreate
  | none =>
    dsimp only
    show SealOutcome io g family facts s (EStateM.bind _ _ _)
    unfold EStateM.bind writeRun
    cases hwrite : io.write (RunDescriptor.slot ⟨g, s.nextRunId, family.kind⟩) with
    | some error =>
      refine ⟨UInt64.le_of_lt hnext, fun h => ?_⟩
      rw [h.quiet] at hwrite
      cases hwrite
    | none =>
      dsimp only
      cases hfold : (sortFacts facts).foldlM appendFact
          (RunWriter.new ⟨g, s.nextRunId, family.kind⟩) with
      | error e =>
        refine ⟨UInt64.le_of_lt hnext, fun h => ?_⟩
        obtain ⟨w, hw⟩ := foldlM_appendFact_returns
          (w := RunWriter.new ⟨g, s.nextRunId, family.kind⟩)
          (fun fact hf => h.encodable fact ((sortFacts_perm facts).subset hf))
          (by simpa [RunWriter.new] using sortFacts_sorted h.distinct)
        rw [hfold] at hw
        cases hw
      | ok w =>
        obtain ⟨hd, hr⟩ := foldlM_appendFact_ok hfold
        have hrun : w.sealRun.descriptor = ⟨g, s.nextRunId, family.kind⟩ := hd
        have hone : ∀ r ∈ [w.sealRun], r = w.sealRun := fun r hr => List.mem_singleton.mp hr
        refine ⟨UInt64.le_of_lt hnext, ⟨fun r hr => ?_, fun r hr => ?_, fun r hr => ?_,
          fun r hr => ?_, List.nodup_singleton _⟩, fun r hr => ?_, ?_⟩
        · rw [hone r hr, hrun]
        · rw [hone r hr, hrun]
          exact hkind
        · rw [hone r hr, hrun]
          exact UInt64.le_refl _
        · rw [hone r hr, hrun]
          exact hnext
        · rw [hone r hr, hrun]
        · show (w.records ++ []).Perm facts
          rw [hr, List.append_nil]
          exact sortFacts_perm facts

/-- The facts of a batch, by family. -/
def batchFacts (paths : List PathObservation) (identities : List IdentityObservation) :
    InputFamily → List Fact
  | .Paths => paths.map Fact.path
  | .Identities => identities.map Fact.identity

/-- The runs of one family. -/
def runsOfFamily (f : InputFamily) (runs : List FactRun) : List FactRun :=
  runs.filter fun r => decide (r.descriptor.kind = f.kind)

theorem runsOfFamily_self {f : InputFamily} {runs : List FactRun}
    (h : ∀ r ∈ runs, r.descriptor.kind = f.kind) : runsOfFamily f runs = runs :=
  List.filter_eq_self.mpr fun r hr => decide_eq_true (h r hr)

theorem runsOfFamily_other {f f' : InputFamily} {runs : List FactRun} (hne : f ≠ f')
    (h : ∀ r ∈ runs, r.descriptor.kind = f'.kind) : runsOfFamily f runs = [] := by
  apply List.filter_eq_nil_iff.mpr
  intro r hr hd
  exact hne (InputFamily.kind_inj ((of_decide_eq_true hd).symm.trans (h r hr)))

structure BatchSealable (io : Io) (paths : List PathObservation)
    (identities : List IdentityObservation) : Prop where
  pathCount : paths.length ≤ maxObservationsPerBatch
  identityCount : identities.length ≤ maxObservationsPerBatch
  facts : ∀ f, Sealable io (batchFacts paths identities f)

/-- How sealing a batch may end. -/
def BatchOutcome (io : Io) (g : ScanGeneration) (paths : List PathObservation)
    (identities : List IdentityObservation) (s : Staging)
    (r : EStateM.Result ScanStoreError Staging (List FactRun)) : Prop :=
  match r with
  | .ok runs s' => s.nextRunId ≤ s'.nextRunId ∧ SealedRuns g s.nextRunId s'.nextRunId runs ∧
      ∀ f, (recordsOf (runsOfFamily f runs)).Perm (batchFacts paths identities f)
  | .error e s' => s.nextRunId ≤ s'.nextRunId ∧
      (BatchSealable io paths identities → e = .RunIdOverflow)

theorem sealObservationBatch_outcome (io : Io) (g : ScanGeneration) (paths : List PathObservation)
    (identities : List IdentityObservation) (s : Staging) :
    BatchOutcome io g paths identities s (sealObservationBatch io g paths identities s) := by
  unfold sealObservationBatch
  by_cases hsize : maxObservationsPerBatch < paths.length ∨ maxObservationsPerBatch < identities.length
  · rw [if_pos hsize]
    refine ⟨UInt64.le_refl _, fun h => ?_⟩
    have h1 := h.pathCount
    have h2 := h.identityCount
    omega
  rw [if_neg hsize]
  show BatchOutcome io g paths identities s (EStateM.bind _ _ s)
  unfold EStateM.bind
  have hp := sealFamily_outcome io g .Paths (paths.map Fact.path) s
  change SealOutcome io g .Paths _ s (sealFamily io g .PathObservation _ s) at hp
  cases hpath : sealFamily io g .PathObservation (paths.map Fact.path) s with
  | error e s' =>
    rw [hpath] at hp
    exact ⟨hp.1, fun h => hp.2 (h.facts .Paths)⟩
  | ok pathRuns s₁ =>
    rw [hpath] at hp
    obtain ⟨hle, hsealed, hkind, hrec⟩ := hp
    dsimp only
    show BatchOutcome io g paths identities s (EStateM.bind _ _ s₁)
    unfold EStateM.bind
    have hi := sealFamily_outcome io g .Identities (identities.map Fact.identity) s₁
    change SealOutcome io g .Identities _ s₁ (sealFamily io g .IdentityObservation _ s₁) at hi
    cases hid : sealFamily io g .IdentityObservation (identities.map Fact.identity) s₁ with
    | error e s' =>
      rw [hid] at hi
      exact ⟨UInt64.le_trans hle hi.1, fun h => hi.2 (h.facts .Identities)⟩
    | ok identityRuns s₂ =>
      rw [hid] at hi
      obtain ⟨hle', hsealed', hkind', hrec'⟩ := hi
      refine ⟨UInt64.le_trans hle hle', ⟨fun r hr => ?_, fun r hr => ?_, fun r hr => ?_,
        fun r hr => ?_, ?_⟩, fun f => ?_⟩
      · rcases List.mem_append.mp hr with hr | hr
        · exact hsealed.generation r hr
        · exact hsealed'.generation r hr
      · rcases List.mem_append.mp hr with hr | hr
        · exact hsealed.input r hr
        · exact hsealed'.input r hr
      · rcases List.mem_append.mp hr with hr | hr
        · exact hsealed.above r hr
        · exact UInt64.le_trans hle (hsealed'.above r hr)
      · rcases List.mem_append.mp hr with hr | hr
        · exact UInt64.lt_of_lt_of_le (hsealed.below r hr) hle'
        · exact hsealed'.below r hr
      · rw [List.map_append, List.nodup_append]
        refine ⟨hsealed.ids, hsealed'.ids, fun a ha b hb hab => ?_⟩
        obtain ⟨r, hr, rfl⟩ := List.mem_map.mp ha
        obtain ⟨r', hr', rfl⟩ := List.mem_map.mp hb
        have hlt := UInt64.lt_of_lt_of_le (hsealed.below r hr) (hsealed'.above r' hr')
        rw [hab] at hlt
        exact UInt64.lt_irrefl _ hlt
      · show (recordsOf (List.filter _ (pathRuns ++ identityRuns))).Perm _
        rw [List.filter_append]
        show (recordsOf (runsOfFamily f pathRuns ++ runsOfFamily f identityRuns)).Perm _
        cases f with
        | Paths =>
          rw [runsOfFamily_self hkind, runsOfFamily_other (show InputFamily.Paths ≠ .Identities by decide) hkind',
            List.append_nil]
          exact hrec
        | Identities =>
          rw [runsOfFamily_other (show InputFamily.Identities ≠ .Paths by decide) hkind, runsOfFamily_self hkind',
            List.nil_append]
          exact hrec'

/-! ## The intake -/

/-- A session and the sealed runs still on their way to it. -/
structure Intake where
  store : ScanStore
  pool : List FactRun

inductive IntakeCall where
  /-- A scanner thread seals a batch for the generation it scans. -/
  | sealBatch (io : Io) (generation : ScanGeneration) (paths : List PathObservation)
      (identities : List IdentityObservation)
  /-- The sealed run at this place arrives. -/
  | accept (io : Io) (place : Nat)

inductive IntakeAnswer where
  | sealed (runs : List FactRun)
  | accepted (run : FactRun)
  | refused (error : ScanStoreError)
  | nothing

namespace Intake

def start (session : ScanSessionId) (generation : ScanGeneration) : Intake :=
  ⟨ScanStore.new session generation, []⟩

def step (s : Intake) : IntakeCall → Intake × IntakeAnswer
  | .sealBatch io generation paths identities =>
    match sealObservationBatch io generation paths identities
        ⟨s.store.nextRunId, .new s.store.session generation⟩ with
    | .ok runs staging =>
      (⟨{ s.store with nextRunId := staging.nextRunId }, s.pool ++ runs⟩, .sealed runs)
    | .error e staging => (⟨{ s.store with nextRunId := staging.nextRunId }, s.pool⟩, .refused e)
  | .accept io place =>
    match s.pool[place]? with
    | none => (s, .nothing)
    | some run =>
      match ScanStore.acceptInputRun io run s.store with
      | .ok () store => (⟨store, s.pool.eraseIdx place⟩, .accepted run)
      | .error e store => (⟨store, s.pool.eraseIdx place⟩, .refused e)

def machine : Machine Intake IntakeCall IntakeAnswer := ⟨step⟩

/-- The facts of family `f` that were accepted over a history. -/
def acceptedFacts (f : InputFamily) (h : List (IntakeCall × IntakeAnswer)) : List Fact :=
  recordsOf (runsOfFamily f (h.filterMap fun e =>
    match e.2 with
    | .accepted run => some run
    | _ => none))

/-- The facts of family `f` that were handed to the scanner's sealing over a history. -/
def offeredFacts (f : InputFamily) (h : List (IntakeCall × IntakeAnswer)) : List Fact :=
  (h.map fun e =>
    match e.1 with
    | .sealBatch _ _ paths identities => batchFacts paths identities f
    | .accept .. => []).flatten

abbrev History := List (IntakeCall × IntakeAnswer)

variable {f : InputFamily} {h : History} {c : IntakeCall}

theorem acceptedFacts_accepted (run : FactRun) :
    acceptedFacts f (h ++ [(c, .accepted run)]) =
      acceptedFacts f h ++ if run.descriptor.kind = f.kind then run.records else [] := by
  unfold acceptedFacts runsOfFamily
  rw [List.filterMap_append, List.filter_append, recordsOf_append]
  congr 1
  by_cases hk : run.descriptor.kind = f.kind
  · simp [hk]
  · simp [hk]

theorem acceptedFacts_other {o : IntakeAnswer} (ho : ∀ run, o ≠ .accepted run) :
    acceptedFacts f (h ++ [(c, o)]) = acceptedFacts f h := by
  unfold acceptedFacts
  rw [List.filterMap_append]
  cases o with
  | accepted run => exact absurd rfl (ho run)
  | sealed runs => simp
  | refused e => simp
  | nothing => simp

theorem offeredFacts_seal {io : Io} {g : ScanGeneration} {paths : List PathObservation}
    {identities : List IdentityObservation} {o : IntakeAnswer} :
    offeredFacts f (h ++ [(.sealBatch io g paths identities, o)]) =
      offeredFacts f h ++ batchFacts paths identities f := by
  simp [offeredFacts]

theorem offeredFacts_accept {io : Io} {place : Nat} {o : IntakeAnswer} :
    offeredFacts f (h ++ [(.accept io place, o)]) = offeredFacts f h := by
  simp [offeredFacts]

/-- A call that a quiet environment cannot refuse but for want of run ids. -/
def CleanCall (generation : ScanGeneration) : IntakeCall → Prop
  | .sealBatch io g paths identities => g = generation ∧ io = Io.none ∧
      paths.length ≤ maxObservationsPerBatch ∧ identities.length ≤ maxObservationsPerBatch ∧
      ∀ f, ∀ fact ∈ batchFacts paths identities f, fact.encodeCheck = .ok ()
  | .accept io _ => io = Io.none

/-- Only clean calls, offering no key twice. -/
structure Clean (generation : ScanGeneration) (h : History) : Prop where
  calls : ∀ e ∈ h, CleanCall generation e.1
  distinct : ∀ f, DistinctKeys (offeredFacts f h)

/-- The run ids sufficed. -/
def IdsSufficed (h : History) : Prop := ∀ e ∈ h, e.2 ≠ .refused .RunIdOverflow

/-- What a clean history leaves: nothing was refused, and every fact offered is in the pool or in
the active generation. -/
structure Unrefused (generation : ScanGeneration) (h : History) (s : Intake) (a : ActiveGeneration) :
    Prop where
  answers : ∀ e ∈ h, ∀ error, e.2 ≠ .refused error
  scanning : a.manifest.state = .Scanning
  fresh : Staging.Fresh (s.pool.map fun r => r.descriptor.runId) ⟨s.store.nextRunId, a.manifest⟩
  ids : (s.pool.map fun r => r.descriptor.runId).Nodup
  notAccepted : ∀ r ∈ s.pool, r.descriptor.runId ∉ a.acceptedRunIds
  drawn : ∀ id ∈ a.acceptedRunIds, id < s.store.nextRunId
  generation : ∀ r ∈ s.pool, r.descriptor.generation = generation
  input : ∀ r ∈ s.pool, isInputKind r.descriptor.kind = true
  facts : ∀ f, (recordsOf (runsOfFamily f s.pool) ++ recordsOf (a.runsOf f).intoRuns).Perm
    (offeredFacts f h)

/-- What holds of every history of the intake. -/
def Holds (generation : ScanGeneration) (h : History) (s : Intake) : Prop :=
  ∃ a, s.store.active = some a ∧ a.Valid ∧ a.generation = generation ∧
    (a.manifest.state = .Scanning →
      ∀ f, (recordsOf (a.runsOf f).intoRuns).Perm (acceptedFacts f h)) ∧
    (Clean generation h → IdsSufficed h → Unrefused generation h s a)

theorem Clean.before {generation : ScanGeneration} {e : IntakeCall × IntakeAnswer}
    (hc : Clean generation (h ++ [e])) : Clean generation h := by
  refine ⟨fun x hx => hc.calls x (List.mem_append_left _ hx), fun f => ?_⟩
  have hd := hc.distinct f
  unfold offeredFacts at hd
  rw [List.map_append, List.flatten_append] at hd
  exact hd.left

theorem IdsSufficed.before {e : IntakeCall × IntakeAnswer} (hi : IdsSufficed (h ++ [e])) :
    IdsSufficed h := fun x hx => hi x (List.mem_append_left _ hx)

theorem answers_snoc {e : IntakeCall × IntakeAnswer}
    (hh : ∀ x ∈ h, ∀ error, x.2 ≠ .refused error) (he : ∀ error, e.2 ≠ .refused error) :
    ∀ x ∈ h ++ [e], ∀ error, x.2 ≠ .refused error := by
  intro x hx
  rcases List.mem_append.mp hx with hx | hx
  · exact hh x hx
  · rw [List.mem_singleton.mp hx]
    exact he

/-- Freshly sealed runs join the pool. -/
theorem Unrefused.sealed {generation : ScanGeneration} {s : Intake} {a : ActiveGeneration} {io : Io}
    {paths : List PathObservation} {identities : List IdentityObservation} {runs : List FactRun}
    {next : UInt64} (hu : Unrefused generation h s a) (hle : s.store.nextRunId ≤ next)
    (hs : SealedRuns generation s.store.nextRunId next runs)
    (hrec : ∀ f, (recordsOf (runsOfFamily f runs)).Perm (batchFacts paths identities f)) :
    Unrefused generation (h ++ [(.sealBatch io generation paths identities, .sealed runs)])
      ⟨{ s.store with nextRunId := next }, s.pool ++ runs⟩ a := by
  refine ⟨answers_snoc hu.answers (by intro error he; cases he), hu.scanning, ⟨fun e he => ?_,
    fun u hmem => ?_, fun e he hmem => ?_⟩, ?_, fun r hr => ?_, fun id hid => ?_, fun r hr => ?_,
    fun r hr => ?_, fun f => ?_⟩
  · exact UInt64.lt_of_lt_of_le (hu.fresh.drawn e he) hle
  · rw [List.map_append] at hmem
    rcases List.mem_append.mp hmem with hmem | hmem
    · exact UInt64.lt_of_lt_of_le (hu.fresh.reserved u hmem) hle
    · obtain ⟨r, hr, rfl⟩ := List.mem_map.mp hmem
      exact hs.below r hr
  · rw [List.map_append] at hmem
    rcases List.mem_append.mp hmem with hmem | hmem
    · exact hu.fresh.apart e he hmem
    · obtain ⟨r, hr, hid⟩ := List.mem_map.mp hmem
      have hlt := UInt64.lt_of_lt_of_le (hu.fresh.drawn e he) (hs.above r hr)
      rw [hid] at hlt
      exact UInt64.lt_irrefl _ hlt
  · rw [List.map_append, List.nodup_append]
    refine ⟨hu.ids, hs.ids, fun x hx y hy hxy => ?_⟩
    obtain ⟨r, hr, rfl⟩ := List.mem_map.mp hy
    have hlt := UInt64.lt_of_lt_of_le (hu.fresh.reserved x hx) (hs.above r hr)
    rw [hxy] at hlt
    exact UInt64.lt_irrefl _ hlt
  · rcases List.mem_append.mp hr with hr | hr
    · exact hu.notAccepted r hr
    · intro hacc
      exact UInt64.lt_irrefl _ (UInt64.lt_of_lt_of_le (hu.drawn _ hacc) (hs.above r hr))
  · exact UInt64.lt_of_lt_of_le (hu.drawn id hid) hle
  · rcases List.mem_append.mp hr with hr | hr
    · exact hu.generation r hr
    · exact hs.generation r hr
  · rcases List.mem_append.mp hr with hr | hr
    · exact hu.input r hr
    · exact hs.input r hr
  · rw [offeredFacts_seal]
    show (recordsOf (List.filter _ (s.pool ++ runs)) ++ _).Perm _
    rw [List.filter_append, recordsOf_append, List.append_assoc]
    refine (List.perm_append_comm.append_left _).trans ?_
    rw [← List.append_assoc]
    exact (hu.facts f).append (hrec f)

theorem runsOfFamily_cons {run : FactRun} {runs : List FactRun} :
    recordsOf (runsOfFamily f (run :: runs)) =
      (if run.descriptor.kind = f.kind then run.records else []) ++ recordsOf (runsOfFamily f runs) := by
  unfold runsOfFamily
  by_cases hk : run.descriptor.kind = f.kind
  · simp [hk]
  · simp [hk]

theorem Unrefused.apart {generation : ScanGeneration} {s : Intake} {a : ActiveGeneration}
    {run : FactRun} {rest : List FactRun} (hu : Unrefused generation h s a)
    (hp : s.pool.Perm (run :: rest)) (f : InputFamily) :
    ((if run.descriptor.kind = f.kind then run.records else []) ++
      (recordsOf (runsOfFamily f rest) ++ recordsOf (a.runsOf f).intoRuns)).Perm
      (offeredFacts f h) := by
  refine List.Perm.trans ?_ (hu.facts f)
  rw [← List.append_assoc, ← runsOfFamily_cons]
  exact (recordsOf_perm (hp.symm.filter _)).append_right _

/-- A run of the pool can be refused only for want of run ids. -/
theorem Unrefused.admissible {generation : ScanGeneration} {s : Intake} {a : ActiveGeneration}
    {run : FactRun} {rest : List FactRun} (hu : Unrefused generation h s a)
    (hg : a.generation = generation) (hd : ∀ f, DistinctKeys (offeredFacts f h))
    (hp : s.pool.Perm (run :: rest)) :
    Admissible (rest.map fun r => r.descriptor.runId) run a s.store := by
  have hmem : run ∈ s.pool := hp.symm.subset List.mem_cons_self
  have hids := hp.map fun r => r.descriptor.runId
  have hnodup := hids.nodup_iff.mp hu.ids
  refine ⟨hu.input run hmem, (hu.generation run hmem).trans hg.symm, hu.scanning,
    ⟨hu.fresh.drawn, fun u hmem' => hu.fresh.reserved u (hids.symm.subset hmem'), fun e he hmem' =>
      hu.fresh.apart e he (hids.symm.subset hmem')⟩, (List.nodup_cons.mp hnodup).1,
    hu.notAccepted run hmem, fun f hk => ?_⟩
  have happart := (hd f).of_perm (hu.apart hp f)
  rw [if_pos hk] at happart
  refine @DistinctKeys.left _ (recordsOf (runsOfFamily f rest)) (happart.of_perm ?_)
  rw [List.append_assoc]
  exact List.perm_append_comm.append_left _

/-- An accepted run moves from the pool into the active generation. -/
theorem Unrefused.accepted {generation : ScanGeneration} {s : Intake} {a a' : ActiveGeneration}
    {run : FactRun} {rest : List FactRun} {io : Io} {place : Nat} {store : ScanStore} {O : Prop}
    (hO : O) (hu : Unrefused generation h s a) (hp : s.pool.Perm (run :: rest))
    (hacc : Accepted O (rest.map fun r => r.descriptor.runId) run a a' store.nextRunId)
    (hle : s.store.nextRunId.toNat ≤ store.nextRunId.toNat) :
    Unrefused generation (h ++ [(.accept io place, .accepted run)]) ⟨store, rest⟩ a' := by
  have hsub : ∀ r ∈ rest, r ∈ s.pool := fun r hr => hp.symm.subset (List.mem_cons_of_mem _ hr)
  have hids := hp.map fun r => r.descriptor.runId
  have hnodup := List.nodup_cons.mp (hids.nodup_iff.mp hu.ids)
  have hle' : s.store.nextRunId ≤ store.nextRunId := UInt64.le_iff_toNat_le.mpr hle
  refine ⟨answers_snoc hu.answers (by intro error he; cases he), hacc.inStep.scanning,
    hacc.fresh hO, hnodup.2, fun r hr hid => ?_, fun id hid => ?_,
    fun r hr => hu.generation r (hsub r hr), fun r hr => hu.input r (hsub r hr), fun f => ?_⟩
  · rw [hacc.ids] at hid
    rcases Finset.mem_insert.mp hid with hid | hid
    · refine hnodup.1 (List.mem_map.mpr ⟨r, hr, hid⟩)
    · exact hu.notAccepted r (hsub r hr) hid
  · rw [hacc.ids] at hid
    rcases Finset.mem_insert.mp hid with rfl | hid
    · exact UInt64.lt_of_lt_of_le (hu.fresh.reserved _ (hids.symm.subset List.mem_cons_self)) hle'
    · exact UInt64.lt_of_lt_of_le (hu.drawn id hid) hle'
  · rw [offeredFacts_accept]
    refine List.Perm.trans ?_ (hu.apart hp f)
    by_cases hk : run.descriptor.kind = f.kind
    · rw [if_pos hk, ← List.append_assoc]
      refine ((hacc.records f hk).append_left _).trans ?_
      rw [← List.append_assoc]
      exact List.perm_append_comm.append_right _
    · rw [if_neg hk, hacc.others f hk]
      exact List.Perm.refl _

theorem getElem?_perm {α : Type} {l : List α} {i : Nat} {x : α} (hx : l[i]? = some x) :
    l.Perm (x :: l.eraseIdx i) := by
  obtain ⟨hi, rfl⟩ := List.getElem?_eq_some_iff.mp hx
  exact (List.getElem_cons_eraseIdx_perm hi).symm

/-- The step lemma of the intake. -/
theorem Holds.step {generation : ScanGeneration} {s : Intake} (hs : Holds generation h s)
    (c : IntakeCall) : Holds generation (h ++ [(c, (machine.step s c).2)]) (machine.step s c).1 := by
  obtain ⟨a, ha, hv, hg, hfacts, hquiet⟩ := hs
  cases c with
  | sealBatch io g paths identities =>
    have hout := sealObservationBatch_outcome io g paths identities
      ⟨s.store.nextRunId, .new s.store.session g⟩
    cases hr : sealObservationBatch io g paths identities
        ⟨s.store.nextRunId, .new s.store.session g⟩ with
    | ok runs staging =>
      have hstep : machine.step s (.sealBatch io g paths identities) =
          (⟨{ s.store with nextRunId := staging.nextRunId }, s.pool ++ runs⟩, .sealed runs) := by
        simp only [machine, Intake.step, hr]
      rw [hr] at hout
      rw [hstep]
      obtain ⟨hle, hsealed, hrec⟩ := hout
      refine ⟨a, ha, hv, hg, fun hscan f => ?_, fun hclean hids => ?_⟩
      · rw [acceptedFacts_other (by intro run h; cases h)]
        exact hfacts hscan f
      · have hcall := hclean.calls _ (List.mem_append_right _ List.mem_cons_self)
        obtain rfl : g = generation := hcall.1
        exact (hquiet hclean.before hids.before).sealed hle hsealed hrec
    | error e staging =>
      have hstep : machine.step s (.sealBatch io g paths identities) =
          (⟨{ s.store with nextRunId := staging.nextRunId }, s.pool⟩, .refused e) := by
        simp only [machine, Intake.step, hr]
      rw [hr] at hout
      rw [hstep]
      refine ⟨a, ha, hv, hg, fun hscan f => ?_, fun hclean hids => ?_⟩
      · rw [acceptedFacts_other (by intro run h; cases h)]
        exact hfacts hscan f
      · -- a clean batch is refused only when the ids ran out
        exfalso
        obtain ⟨-, hio, hp, hi, henc⟩ :=
          hclean.calls _ (List.mem_append_right _ List.mem_cons_self)
        have hover := hout.2 ⟨hp, hi, fun f => ⟨hio, henc f, ?_⟩⟩
        · refine hids _ (List.mem_append_right _ List.mem_cons_self) ?_
          rw [hover]
        · have hd := hclean.distinct f
          rw [offeredFacts_seal] at hd
          exact hd.right
  | accept io place =>
    cases hplace : s.pool[place]? with
    | none =>
      have hstep : machine.step s (.accept io place) = (s, .nothing) := by
        simp only [machine, Intake.step, hplace]
      rw [hstep]
      refine ⟨a, ha, hv, hg, fun hscan f => ?_, fun hclean hids => ?_⟩
      · rw [acceptedFacts_other (by intro run h; cases h)]
        exact hfacts hscan f
      · have hu := hquiet hclean.before hids.before
        exact { hu with
          answers := answers_snoc hu.answers (by intro error he; cases he)
          facts := fun f => by rw [offeredFacts_accept]; exact hu.facts f }
    | some run =>
      have hp := getElem?_perm hplace
      -- the two readings of the same acceptance: of any environment, and of a clean history
      have hout := @acceptInputRun_spec (CleanCall generation (.accept io place) ∧
          Clean generation h ∧ IdsSufficed h)
        ((s.pool.eraseIdx place).map fun r => r.descriptor.runId) io run _ _ ha hv (fun hO => hO.1)
        (fun hO => (hquiet hO.2.1 hO.2.2).admissible hg hO.2.1.distinct hp)
      have hgrows := acceptInputRun_grows io run s.store
      cases hr : ScanStore.acceptInputRun io run s.store with
      | ok u store =>
        have hstep : machine.step s (.accept io place) =
            (⟨store, s.pool.eraseIdx place⟩, .accepted run) := by
          simp only [machine, Intake.step, hplace, hr]
        rw [hr] at hout hgrows
        rw [hstep]
        obtain ⟨-, a', ha', -, hacc⟩ := hout
        refine ⟨a', ha', Or.inl hacc.inStep, hacc.generation.trans hg, fun _ f => ?_,
          fun hclean hids => ?_⟩
        · rw [acceptedFacts_accepted]
          have hscan := hacc.before
          by_cases hk : run.descriptor.kind = f.kind
          · rw [if_pos hk]
            exact (hacc.records f hk).trans
              (((hfacts hscan f).append_left _).trans List.perm_append_comm)
          · rw [if_neg hk, List.append_nil, hacc.others f hk]
            exact hfacts hscan f
        · have hcall := hclean.calls _ (List.mem_append_right _ List.mem_cons_self)
          exact (hquiet hclean.before hids.before).accepted ⟨hcall, hclean.before, hids.before⟩ hp
            hacc hgrows
      | error e store =>
        have hstep : machine.step s (.accept io place) =
            (⟨store, s.pool.eraseIdx place⟩, .refused e) := by
          simp only [machine, Intake.step, hplace, hr]
        rw [hr] at hout
        rw [hstep]
        obtain ⟨-, hover, a', ha', hcont, hsame⟩ := hout
        refine ⟨a', ha', hcont.valid, hcont.generation.trans hg, fun hscan f => ?_,
          fun hclean hids => ?_⟩
        · rw [acceptedFacts_other (by intro run h; cases h), (hsame hscan).2 f]
          exact hfacts (hsame hscan).1 f
        · exfalso
          have hcall := hclean.calls _ (List.mem_append_right _ List.mem_cons_self)
          refine hids _ (List.mem_append_right _ List.mem_cons_self) ?_
          rw [hover ⟨hcall, hclean.before, hids.before⟩]

theorem holds_run (session : ScanSessionId) (generation : ScanGeneration) (calls : List IntakeCall) :
    Holds generation (machine.trace (start session generation) calls)
      (machine.run (start session generation) calls) := by
  refine machine.run_induction (P := Holds generation) ?_ (fun _ _ c hs => hs.step c) calls
  have hin := ActiveGeneration.new_inStep session generation
  have hruns (f : InputFamily) :
      recordsOf ((ActiveGeneration.new session generation).runsOf f).intoRuns = [] := by
    have hempty : (ActiveGeneration.new session generation).runsOf f = .empty := by cases f <;> rfl
    rw [hempty, RunLevels.intoRuns_empty]
    rfl
  refine ⟨ActiveGeneration.new session generation, rfl, Or.inl hin, rfl, fun _ f => ?_,
    fun _ _ => ⟨?_, rfl, ⟨?_, ?_, ?_⟩, List.nodup_nil, ?_, ?_, ?_, ?_, fun f => ?_⟩⟩
  · rw [hruns]
    exact List.Perm.refl _
  · intro e he
    cases he
  · intro e he
    cases he
  · intro e he
    cases he
  · intro e he
    cases he
  · intro r hr
    cases hr
  · intro id hid
    exact absurd hid (Finset.notMem_empty id)
  · intro r hr
    cases hr
  · intro r hr
    cases hr
  · rw [hruns]
    exact List.Perm.refl _

/-- The two merged input runs of a publication. -/
def mergedInputs (io : Io) (a : ActiveGeneration) : StagingM (FactRun × FactRun) := do
  let paths ← mergeTieredFamily io a.generation .PathObservation a.pathRuns
  let identities ← mergeTieredFamily io a.generation .IdentityObservation a.identityRuns
  pure (paths, identities)

/-- Both merges of a generation in step. -/
theorem mergedInputs_spec {O : Prop} {U : List UInt64} {a : ActiveGeneration} {n : UInt64} (io : Io)
    (hin : a.InStep) (hq : O → io = Io.none)
    (hfresh : O → Staging.Fresh U ⟨n, a.reducing.manifest⟩)
    (hd : O → ∀ f, DistinctKeys (recordsOf (a.runsOf f).intoRuns)) :
    Triple (fun s => s = ⟨n, a.reducing.manifest⟩) (mergedInputs io a)
      (fun runs _ => runs.1.records.Perm (recordsOf a.pathRuns.intoRuns) ∧
        runs.2.records.Perm (recordsOf a.identityRuns.intoRuns))
      (Staging.Blocked O a.generation .Reducing) := by
  have hst : O → TakesRuns .Reducing := fun _ => Or.inr rfl
  unfold mergedInputs
  apply Triple.bind ((mergeRounds_spec (O := O) (U := U) io
    (a.identityRuns.intoRuns.map SealedRun.descriptor) (hin.families .Paths) hq hst
    fun hO => hd hO .Paths).weaken (fun s hs => ?_) (fun _ _ h => h) fun _ _ h => h)
  · intro paths
    apply Triple.of_fact (fun s hs => hs.2.2)
    intro hpaths
    apply Triple.bind ((mergeRounds_spec (O := O) (U := U) io [paths.descriptor]
      (hin.families .Identities) hq hst fun hO => hd hO .Identities).weaken
      (fun s hs => hs.1.congr (List.perm_append_singleton _ _).symm) (fun _ _ h => h)
      fun _ _ h => h)
    intro identities
    apply Triple.pure
    intro s hs
    exact ⟨hpaths, hs.2.2⟩
  · subst hs
    refine ⟨⟨rfl, rfl, hin.belong, hin.unique⟩, ?_, hfresh⟩
    show a.manifest.runs.Perm _
    refine hin.held.trans ?_
    rw [ActiveGeneration.allRuns, List.map_append]
    exact List.Perm.refl _

theorem mergedInputs_draws (io : Io) (a : ActiveGeneration) :
    Draws ((a.pathRuns.intoRuns.length + 1) + (a.identityRuns.intoRuns.length + 1)) (fun _ => 0)
      (mergedInputs io a) := by
  unfold mergedInputs
  refine (mergeRounds_draws io _ .PathObservation _).bind fun paths => ?_
  rw [Nat.zero_add]
  exact (mergeRounds_draws io _ .IdentityObservation _).bind (l := 0) fun identities =>
    Draws.pure (Nat.le_refl 0)

theorem records_eq_sortFacts {run : FactRun} {facts : List Fact} (hd : DistinctKeys facts)
    (hp : run.records.Perm facts) : run.records = sortFacts facts :=
  run.sorted.eq_of_perm (sortFacts_sorted hd) (hp.trans (sortFacts_perm facts).symm)

/-- However a set of facts without duplicate keys was cut into runs, and in whatever order these
were sealed and accepted: every level stays below the fan-in, what publication merges is the one
sorted list of the facts, and only the end of the run ids can stop a clean history or its merge,
which returns where an id is left for each run. -/
theorem merged_inputs_canonical (session : ScanSessionId) (generation : ScanGeneration)
    (facts : InputFamily → List Fact) (hd : ∀ f, DistinctKeys (facts f)) (calls : List IntakeCall)
    (hall : ∀ f, (acceptedFacts f (machine.trace (start session generation) calls)).Perm (facts f)) :
    (∀ earlier, earlier <+: calls → ∀ a,
        (machine.run (start session generation) earlier).store.active = some a →
        a.manifest.state = .Scanning → ∀ f, (a.runsOf f).Bounded) ∧
      (∀ a, (machine.run (start session generation) calls).store.active = some a →
        a.manifest.state = .Scanning → ∀ (io : Io) (n : UInt64),
        (∀ runs s, mergedInputs io a ⟨n, a.reducing.manifest⟩ = .ok runs s →
          runs.1.records = sortFacts (facts .Paths) ∧
            runs.2.records = sortFacts (facts .Identities)) ∧
        ∀ reduced w, reduceActiveGeneration io a.generation a.unreadable ⟨n, a.reducing⟩ =
            .ok reduced w →
          reduced.pathObservations.records = sortFacts (facts .Paths) ∧
            reduced.identityObservations.records = sortFacts (facts .Identities)) ∧
      (Clean generation (machine.trace (start session generation) calls) →
        IdsSufficed (machine.trace (start session generation) calls) →
        (∀ e ∈ machine.trace (start session generation) calls, ∀ error, e.2 ≠ .refused error) ∧
        ∃ a, (machine.run (start session generation) calls).store.active = some a ∧
          a.manifest.state = .Scanning ∧
          (∀ error s, mergedInputs Io.none a
              ⟨(machine.run (start session generation) calls).store.nextRunId,
                a.reducing.manifest⟩ = .error error s → error = .RunIdOverflow) ∧
          ((machine.run (start session generation) calls).store.nextRunId.toNat +
              ((a.pathRuns.intoRuns.length + 1) + (a.identityRuns.intoRuns.length + 1)) + 1 <
                2 ^ 64 →
            ∃ runs s, mergedInputs Io.none a
              ⟨(machine.run (start session generation) calls).store.nextRunId,
                a.reducing.manifest⟩ = .ok runs s)) := by
  refine ⟨fun earlier _ a ha hscan f => ?_, fun a ha hscan io n => ?_, fun hclean hids => ?_⟩
  · obtain ⟨b, hb, hv, -⟩ := holds_run session generation earlier
    rw [ha] at hb
    cases hb
    exact (hv.inStep hscan).bounded f
  · obtain ⟨b, hb, hv, -, hfacts, -⟩ := holds_run session generation calls
    rw [ha] at hb
    cases hb
    have hin := hv.inStep hscan
    have hpaths := (hfacts hscan .Paths).trans (hall .Paths)
    have hids := (hfacts hscan .Identities).trans (hall .Identities)
    refine ⟨fun runs s hr => ?_, fun reduced w hr => ?_⟩
    · obtain ⟨h1, h2⟩ := (mergedInputs_spec (O := False) (U := []) io hin False.elim False.elim
        False.elim).ok rfl hr
      exact ⟨records_eq_sortFacts (hd .Paths) (h1.trans hpaths),
        records_eq_sortFacts (hd .Identities) (h2.trans hids)⟩
    · obtain ⟨hfrom, -⟩ := (hin.reduce io).ok rfl hr
      exact ⟨records_eq_sortFacts (hd .Paths) (hfrom.paths.trans hpaths),
        records_eq_sortFacts (hd .Identities) (hfrom.identities.trans hids)⟩
  · obtain ⟨a, ha, hv, -, hfacts, hquiet⟩ := holds_run session generation calls
    have hu := hquiet hclean hids
    have hin := hv.inStep hu.scanning
    have hspec := mergedInputs_spec (O := True) (a := a)
      (n := (machine.run (start session generation) calls).store.nextRunId) Io.none hin
      (fun _ => rfl) (fun _ => ⟨hu.fresh.drawn, hu.fresh.reserved, hu.fresh.apart⟩)
      fun _ f => (hd f).of_perm ((hfacts hu.scanning f).trans (hall f))
    have hover (error : ScanStoreError) (s : Staging) (hr : mergedInputs Io.none a
        ⟨(machine.run (start session generation) calls).store.nextRunId, a.reducing.manifest⟩ =
          .error error s) : error = .RunIdOverflow := (hspec.error rfl hr).2 trivial
    refine ⟨hu.answers, a, ha, hu.scanning, hover, fun hleft => ?_⟩
    cases hr : mergedInputs Io.none a
        ⟨(machine.run (start session generation) calls).store.nextRunId, a.reducing.manifest⟩ with
    | ok runs s => exact ⟨runs, s, rfl⟩
    | error error s =>
      have hfull := (mergedInputs_draws Io.none a _).error (Nat.le_refl _) hr (hover error s hr)
      dsimp only at hfull
      omega

/-- A folder and a file in it, sealed apart and accepted the other way round. -/
def twoPaths : InputFamily → List Fact
  | .Paths =>
    [.path ⟨⟨[⟨[97], valid_a⟩]⟩, .Directory, .zero, .Complete, none⟩,
      .path ⟨⟨[⟨[97], valid_a⟩, ⟨[98], valid_b⟩]⟩, .File, .leaf 1 (.exact 1) (.exact 1), .Complete,
        none⟩]
  | .Identities => []

def twoCalls : List IntakeCall :=
  [.sealBatch Io.none ⟨0⟩ [⟨⟨[⟨[97], valid_a⟩]⟩, .Directory, .zero, .Complete, none⟩] [],
    .sealBatch Io.none ⟨0⟩ [⟨⟨[⟨[97], valid_a⟩, ⟨[98], valid_b⟩]⟩, .File,
      .leaf 1 (.exact 1) (.exact 1), .Complete, none⟩] [],
    .accept Io.none 1, .accept Io.none 0]

theorem merged_inputs_canonical_two :
    (∀ f, DistinctKeys (twoPaths f)) ∧
      (∀ f, (acceptedFacts f (machine.trace (start ⟨0⟩ ⟨0⟩) twoCalls)).Perm (twoPaths f)) ∧
      ∃ a, (machine.run (start ⟨0⟩ ⟨0⟩) twoCalls).store.active = some a ∧
        a.manifest.state = .Scanning ∧
        ∃ runs s, mergedInputs Io.none a ⟨2, a.reducing.manifest⟩ = .ok runs s ∧
          runs.1.records = sortFacts (twoPaths .Paths) ∧ runs.2.records = [] := by
  have hd : ∀ f, DistinctKeys (twoPaths f) := by
    intro f
    unfold DistinctKeys
    cases f <;> decide +kernel
  have hall : ∀ f,
      (acceptedFacts f (machine.trace (start ⟨0⟩ ⟨0⟩) twoCalls)).Perm (twoPaths f) := by
    intro f
    cases f <;> decide +kernel
  have hmerges : ((machine.run (start ⟨0⟩ ⟨0⟩) twoCalls).store.active.any fun a =>
      decide (a.manifest.state = .Scanning) &&
        match mergedInputs Io.none a ⟨2, a.reducing.manifest⟩ with
        | .ok _ _ => true
        | .error _ _ => false) = true := by decide +kernel
  obtain ⟨a, ha, hchecked⟩ := (Option.any_eq_true _ _).mp hmerges
  obtain ⟨hscan, hreturns⟩ := (Bool.and_eq_true _ _).mp hchecked
  have hscan := of_decide_eq_true hscan
  cases hr : mergedInputs Io.none a ⟨2, a.reducing.manifest⟩ with
  | error error s =>
    rw [hr] at hreturns
    cases hreturns
  | ok runs s =>
    obtain ⟨hpaths, hids⟩ := ((merged_inputs_canonical ⟨0⟩ ⟨0⟩ twoPaths hd twoCalls hall).2.1 a ha
      hscan Io.none 2).1 runs s hr
    have hnone : sortFacts (twoPaths .Identities) = [] := (sortFacts_perm _).eq_nil
    exact ⟨hd, hall, a, ha, hscan, runs, s, hr, hpaths, hids.trans hnone⟩

end Intake

end Excise
