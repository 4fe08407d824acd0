import Excise.Deletion.PlanCompleteness

/-!
# The order of a plan

The entries of a plan come back in the order they were planned in, or the other way round, whether
or not they were moved to disk. The directories that wait come back too, those in memory before
those on disk, so one that was moved there may be read after one that was found earlier.
-/

namespace Excise
set_option autoImplicit false

variable {host : PlanHost} {target : RelativePath} {listed : List PlannedEntry}

/-! ## Entries off the end -/

namespace PlanEntries

def popReverse (host : PlanHost) (entries : PlanEntries) (target : RelativePath) :
    Except PlanningError (Option PlannedEntry × PlanEntries) :=
  match entries with
  | .InMemory resident =>
    match resident.getLast? with
    | none => .ok (none, .InMemory resident)
    | some entry =>
      (validateEntryForTarget entry.relativePath target).map fun _ =>
        (some entry, .InMemory resident.dropLast)
  | .Spilled spill =>
    match runSpill (RecordSpill.pop host.entriesSpill.host) spill with
    | .error e => .error (planStorageIo host target e)
    | .ok (none, spill) => .ok (none, .Spilled spill)
    | .ok (some payload, spill) => do
      let entry ← decodeFor host target payload
      validateEntryForTarget entry.relativePath target
      return (some entry, .Spilled spill)

/-- `pop_reverse` so many times, or until nothing is left. -/
def popTimes (host : PlanHost) (target : RelativePath) :
    Nat → PlanEntries → Except PlanningError (List PlannedEntry × PlanEntries)
  | 0, entries => .ok ([], entries)
  | count + 1, entries => do
    match ← entries.popReverse host target with
    | (none, entries) => return ([], entries)
    | (some entry, entries) =>
      let (rest, entries) ← popTimes host target count entries
      return (entry :: rest, entries)

variable {entries entries' : PlanEntries}

theorem Holds.popReverse {entry : Option PlannedEntry} (hquiet : host.entriesSpill.host.Quiet)
    (h : Holds host listed entries)
    (hcoding : ∀ e ∈ listed, host.decodeSpilledEntry (encodeSpilledEntry host e) = .ok e)
    (hpop : entries.popReverse host target = .ok (entry, entries')) :
    entry = listed.getLast? ∧ Holds host listed.dropLast entries' := by
  unfold PlanEntries.popReverse at hpop
  cases h with
  | InMemory =>
    dsimp only at hpop
    split at hpop
    · rename_i hnone
      cases hpop
      rw [hnone]
      rw [List.getLast?_eq_none_iff] at hnone
      subst hnone
      exact ⟨rfl, .InMemory⟩
    · rename_i last hlast
      obtain ⟨_, -, hresult⟩ := map_eq_ok hpop
      cases hresult
      exact ⟨hlast.symm, .InMemory⟩
  | @Spilled spill filed =>
    dsimp only at hpop
    split at hpop
    · cases hpop
    · rename_i after hrun
      cases hpop
      obtain ⟨hpayload, hafter⟩ := filed.pop hquiet hrun
      rw [eq_comm, Option.map_eq_none_iff] at hpayload
      exact ⟨hpayload.symm, .Spilled hafter⟩
    · rename_i payload after hrun
      obtain ⟨hpayload, hafter⟩ := filed.pop hquiet hrun
      obtain ⟨last, hlast, rfl⟩ := Option.map_eq_some_iff.mp hpayload.symm
      obtain ⟨decoded, hdecode, hpop⟩ := bind_eq_ok hpop
      obtain ⟨_, -, hpop⟩ := bind_eq_ok hpop
      cases hpop
      unfold decodeFor at hdecode
      rw [hcoding last (List.mem_of_getLast? hlast)] at hdecode
      cases hdecode
      exact ⟨hlast.symm, .Spilled hafter⟩

/-- What was taken off the end is what was planned last, the last entry first. -/
theorem Holds.popTimes (hquiet : host.entriesSpill.host.Quiet) (count : Nat) :
    ∀ {listed : List PlannedEntry} {entries : PlanEntries} {popped : List PlannedEntry},
      Holds host listed entries →
      (∀ e ∈ listed, host.decodeSpilledEntry (encodeSpilledEntry host e) = .ok e) →
      popTimes host target count entries = .ok (popped, entries') →
      popped = listed.reverse.take count := by
  induction count with
  | zero =>
    intro listed entries popped _ _ hpop
    cases hpop
    rfl
  | succ count ih =>
    intro listed entries popped h hcoding hpop
    obtain ⟨⟨last, after⟩, hlast, hpop⟩ := bind_eq_ok hpop
    obtain ⟨hentry, hafter⟩ := h.popReverse hquiet hcoding hlast
    cases last with
    | none =>
      cases hpop
      rw [List.getLast?_eq_none_iff.mp hentry.symm]
      rfl
    | some last =>
      obtain ⟨⟨rest, final⟩, hrest, hpop⟩ := bind_eq_ok hpop
      cases hpop
      have hsplit := List.getLast?_eq_some_iff.mp hentry.symm
      obtain ⟨before, rfl⟩ := hsplit
      rw [List.dropLast_concat] at hafter
      rw [ih hafter (fun e he => hcoding e (List.mem_append_left _ he)) hrest, List.reverse_append]
      rfl

/-! ## The number of entries -/

/-- A vector holds fewer entries than its capacity can count. -/
def Small (entries : PlanEntries) : Prop :=
  ∀ resident, entries = .InMemory resident → resident.length < 2 ^ 63

theorem Small.push {entry : PlannedEntry} {moves : Bool}
    (hpush : entries.push host entry moves = .ok entries') : Small entries' := by
  unfold PlanEntries.push at hpush
  cases entries with
  | InMemory retained =>
    dsimp only at hpush
    split at hpush
    · obtain ⟨_, -, hpush⟩ := bind_eq_ok hpush
      obtain ⟨_, -, hpush⟩ := bind_eq_ok hpush
      obtain ⟨_, -, hpush⟩ := bind_eq_ok hpush
      cases hpush
      intro resident hresident
      cases hresident
    · split at hpush
      · cases hpush
      · rename_i hreserve
        cases hpush
        intro resident hresident
        cases hresident
        rw [List.length_append, List.length_singleton]
        exact host.reserveEntries_small _ hreserve
  | Spilled spill =>
    obtain ⟨_, -, rfl⟩ := map_eq_ok hpush
    intro resident hresident
    cases hresident

theorem Small.pass {visit : Nat → PlannedEntry → Except PlanningError Unit} (h : Small entries)
    (hpass : entries.tryForEach host target visit = .ok entries') : Small entries' := by
  unfold tryForEach at hpass
  cases entries with
  | InMemory resident =>
    obtain ⟨_, -, rfl⟩ := map_eq_ok hpass
    exact h
  | Spilled spill =>
    dsimp only at hpass
    split at hpass
    · cases hpass
      intro resident hresident
      cases hresident
    · cases hpass
    · obtain ⟨_, -, rfl⟩ := map_eq_ok hpass
      intro resident hresident
      cases hresident

theorem length_le_totalSize (payloads : List (List UInt8)) :
    payloads.length ≤ totalSize payloads := by
  induction payloads with
  | nil => exact Nat.le_refl 0
  | cons payload rest ih =>
    rw [totalSize_cons, List.length_cons]
    unfold recordSize
    omega

theorem Holds.length_lt (h : Holds host listed entries) (hsmall : Small entries) :
    listed.length < 2 ^ 64 := by
  cases h with
  | InMemory => exact Nat.lt_trans (hsmall listed rfl) (by decide)
  | Spilled filed =>
    obtain ⟨key, hfiled⟩ := filed
    have hle := length_le_totalSize (listed.map (encodeSpilledEntry host))
    rw [List.length_map] at hle
    exact Nat.lt_of_le_of_lt hle hfiled.small

end PlanEntries

theorem sum_le_satMax {sizes : List Nat} (hsizes : ∀ n ∈ sizes, n < 2 ^ 64)
    (hlength : sizes.length < 2 ^ 64) : sizes.sum ≤ satMax 128 := by
  have hsum := List.sum_le_card_nsmul sizes (2 ^ 64 - 1) fun n hn =>
    Nat.le_sub_one_of_lt (hsizes n hn)
  have hproduct : sizes.length * (2 ^ 64 - 1) ≤ (2 ^ 64 - 1) * (2 ^ 64 - 1) :=
    Nat.mul_le_mul_right _ (Nat.le_sub_one_of_lt hlength)
  rw [smul_eq_mul] at hsum
  have hmax : (2 ^ 64 - 1) * (2 ^ 64 - 1) ≤ satMax 128 := by decide
  exact hsum.trans (hproduct.trans hmax)

/-! ## The order in which folders are read -/

inductive PendingOp where
  | push (entry : PlannedEntry)
  | pop

/-- The directory that a call is given. -/
def PendingOp.pushed : PendingOp → Option PlannedEntry
  | .push entry => some entry
  | .pop => none

namespace Waiting

/-- One call after the other, and what each `pop` gave. -/
def run : Waiting → List PendingOp → List (Option PlannedEntry) × Waiting
  | w, [] => ([], w)
  | w, .push entry :: rest => run (w.push entry) rest
  | w, .pop :: rest => ((w.pop.1 :: (run w.pop.2 rest).1), (run w.pop.2 rest).2)

/-- Nothing is lost and nothing comes back twice. -/
theorem run_perm (ops : List PendingOp) : ∀ w : Waiting,
    (w.all ++ ops.filterMap PendingOp.pushed).Perm
      ((w.run ops).1.filterMap id ++ (w.run ops).2.all) := by
  induction ops with
  | nil =>
    intro w
    rw [List.filterMap_nil, List.append_nil]
    exact List.Perm.refl _
  | cons op rest ih =>
    intro w
    cases op with
    | push entry =>
      have hpush := (w.push_all entry).symm.append_right (rest.filterMap PendingOp.pushed)
      rw [List.append_assoc, List.singleton_append] at hpush
      exact hpush.trans (ih (w.push entry))
    | pop =>
      have hpop := w.pop_all.append_right (rest.filterMap PendingOp.pushed)
      rw [List.append_assoc] at hpop
      refine hpop.trans ((ih w.pop.2).append_left _ |>.trans ?_)
      rw [← List.append_assoc]
      show (w.pop.1.toList ++ _ ++ _).Perm
        ((w.pop.1 :: (w.pop.2.run rest).1).filterMap id ++ (w.pop.2.run rest).2.all)
      cases w.pop.1 with
      | none => exact List.Perm.refl _
      | some entry => exact List.Perm.refl _

end Waiting

namespace PendingDirectories

/-- One call after the other, and what each `pop` gave. -/
def run (host : PlanHost) (target : RelativePath) :
    PendingDirectories → List PendingOp →
      Except PlanningError (List (Option PlannedEntry) × PendingDirectories)
  | pending, [] => .ok ([], pending)
  | pending, .push entry :: rest => do
    let pending ← (pending.push host entry).mapError (planStorageIo host target)
    run host target pending rest
  | pending, .pop :: rest => do
    let (entry, pending) ← pending.pop host target
    let (entries, pending) ← run host target pending rest
    return (entry :: entries, pending)

variable {pending pending' : PendingDirectories} {w : Waiting}

theorem Refines.run (hquiet : host.pendingSpill.host.Quiet) (ops : List PendingOp) :
    ∀ {w : Waiting} {pending : PendingDirectories} {outputs : List (Option PlannedEntry)},
      Refines host w pending →
      (∀ e ∈ w.all ++ ops.filterMap PendingOp.pushed,
        host.decodeSpilledEntry (encodeSpilledEntry host e) = .ok e) →
      run host target pending ops = .ok (outputs, pending') →
      outputs = (w.run ops).1 ∧ Refines host (w.run ops).2 pending' := by
  induction ops with
  | nil =>
    intro w pending outputs h _ hrun
    cases hrun
    exact ⟨rfl, h⟩
  | cons op rest ih =>
    intro w pending outputs h hcoding hrun
    cases op with
    | push entry =>
      obtain ⟨after, hpush, hrun⟩ := bind_eq_ok hrun
      refine ih (h.push hquiet (mapError_eq_ok hpush)) (fun e he => hcoding e ?_) hrun
      have hsplit := (w.push_all entry).append_right (rest.filterMap PendingOp.pushed)
      rw [List.append_assoc, List.singleton_append] at hsplit
      exact hsplit.subset he
    | pop =>
      obtain ⟨⟨entry, after⟩, hpop, hrun⟩ := bind_eq_ok hrun
      obtain ⟨⟨entries, final⟩, hrest, hrun⟩ := bind_eq_ok hrun
      cases hrun
      obtain ⟨rfl, hafter⟩ := h.pop hquiet
        (fun e he => hcoding e (List.mem_append_left _ he)) hpop
      have hsplit := w.pop_all.append_right (rest.filterMap PendingOp.pushed)
      rw [List.append_assoc] at hsplit
      obtain ⟨rfl, hfinal⟩ := ih hafter
        (fun e he => hcoding e (hsplit.symm.subset (List.mem_append_right _ he))) hrest
      exact ⟨rfl, hfinal⟩

end PendingDirectories

/-! ## Plans -/

variable {world : PlanWorld} {tree : List PlannedEntry}

theorem lasting_small (request : PlanRequest) :
    @PlanWalk.Lasting host request fun s => PlanEntries.Small s.entries where
  push := by
    intro s s' entry _ hpush
    unfold PlanningStorage.push at hpush
    dsimp only at hpush
    split at hpush
    · cases hpush
    · obtain ⟨_, -, hpush⟩ := bind_eq_ok hpush
      obtain ⟨entries, hentries, hpush⟩ := bind_eq_ok hpush
      cases hpush
      exact .push (mapError_eq_ok hentries)
  pass := fun hs hpass => hs.pass hpass

section
variable {target : PlanTarget} {reduced : Bool} {maximumBytes fuel : Nat} {plan : BuiltPlan}

theorem buildPlan_small
    (h : buildPlan host world target reduced maximumBytes fuel = .ok (some plan)) :
    PlanEntries.Small plan.entries := by
  obtain ⟨s, hrun⟩ := buildPlan_runs h
  refine (PlanWalk.planTarget_retains (lasting_small _) target reduced fuel).ok ?_ hrun plan rfl
  intro resident hresident
  cases hresident
  exact Nat.two_pow_pos 63

/-- The target of a plan was there when it was built. -/
theorem buildPlan_target (hstill : StillTree world ⟨target.pathToFile⟩ tree)
    (h : buildPlan host world target reduced maximumBytes fuel = .ok (some plan)) :
    ∃ e ∈ tree, e.relativePath = ⟨target.pathToFile⟩ := by
  obtain ⟨s, hrun⟩ := buildPlan_runs h
  refine ((PlanWalk.passive_inspectTarget target).then (P := fun _ => True)
    (Q := fun _ _ => ∃ e ∈ tree, e.relativePath = ⟨target.pathToFile⟩) (fun _ _ _ h => h)
    fun snapshot hsnapshot => ?_).ok trivial hrun
  obtain ⟨n, hinspect⟩ := hsnapshot
  have hmem := hstill.inspected n _ _ (RelativePath.startsWith_refl _) hinspect
  exact Triple.of_result fun _ _ => ⟨fun _ _ _ => ⟨_, hmem, rfl⟩, fun _ _ _ => trivial⟩

/-- The total of a plan is never cut off. -/
theorem buildPlan_total (hstill : StillTree world ⟨target.pathToFile⟩ tree)
    (hentries : host.entriesSpill.host.Quiet) (hpending : host.pendingSpill.host.Quiet)
    (hcoding : ∀ e ∈ tree, host.decodeSpilledEntry (encodeSpilledEntry host e) = .ok e)
    (hsizes : ∀ e ∈ tree, e.snapshot.apparentBytes < 2 ^ 64)
    (h : buildPlan host world target reduced maximumBytes fuel = .ok (some plan)) :
    plan.apparentBytes = (plan.planned.map fun e => e.snapshot.apparentBytes).sum := by
  have hcomplete : PlanWalk.Complete tree plan := buildPlan_complete hstill hpending hcoding h
  have hlength := (buildPlan_holds hentries h).length_lt (buildPlan_small h)
  rw [hcomplete.apparentBytes, ← (hcomplete.once.map fun e => e.snapshot.apparentBytes).sum_eq]
  refine Nat.min_eq_left (sum_le_satMax (fun n hn => ?_) (by rwa [List.length_map]))
  obtain ⟨e, he, rfl⟩ := List.mem_map.mp hn
  exact hsizes e (hcomplete.once.subset he)

end

/-- The plan of a tree that stays as it is lists the target and everything below it once, a folder
before what it holds, with the sum of their sizes. The entries come back as they were planned or
the other way round, in memory or on disk; of the directories that wait none is lost and none
comes back twice, those in memory before those on disk. -/
theorem plan_complete_in_any_budget (host : PlanHost) (world : PlanWorld) (target : PlanTarget)
    (reduced : Bool) (maximumBytes : Nat) {tree : List PlannedEntry}
    (hstill : StillTree world ⟨target.pathToFile⟩ tree)
    (hentries : host.entriesSpill.host.Quiet) (hpending : host.pendingSpill.host.Quiet)
    (hcoding : ∀ e ∈ tree, host.decodeSpilledEntry (encodeSpilledEntry host e) = .ok e)
    (hsizes : ∀ e ∈ tree, e.snapshot.apparentBytes < 2 ^ 64) :
    (∀ fuel, tree.length < fuel →
      buildPlan host world target reduced maximumBytes fuel ≠ .ok none) ∧
    (∀ fuel plan, buildPlan host world target reduced maximumBytes fuel = .ok (some plan) →
      (∃ e ∈ plan.planned, e.relativePath = ⟨target.pathToFile⟩) ∧
      plan.planned.Perm tree ∧
      (plan.planned.Pairwise fun earlier later =>
        earlier.relativePath.startsWith later.relativePath = false) ∧
      plan.apparentBytes = (plan.planned.map fun e => e.snapshot.apparentBytes).sum ∧
      (∀ visit, (∃ entries, plan.entries.tryForEach host ⟨target.pathToFile⟩ visit =
          (PlanEntries.visitResident ⟨target.pathToFile⟩ visit 0 plan.planned).map
            fun _ => entries) ∨
        host.entriesSpill.host.Failing ∧ ∃ e, plan.entries.tryForEach host ⟨target.pathToFile⟩ visit =
          .error (planStorageIo host ⟨target.pathToFile⟩ e)) ∧
      ∀ count popped entries,
        PlanEntries.popTimes host ⟨target.pathToFile⟩ count plan.entries = .ok (popped, entries) →
          popped = plan.planned.reverse.take count) ∧
    ∀ ops outputs pending, (∀ e ∈ ops.filterMap PendingOp.pushed, e ∈ tree) →
      PendingDirectories.run host ⟨target.pathToFile⟩ ⟨[], none⟩ ops = .ok (outputs, pending) →
        outputs = (Waiting.run ⟨[], []⟩ ops).1 ∧
          (ops.filterMap PendingOp.pushed).Perm
            (outputs.filterMap id ++ (Waiting.run ⟨[], []⟩ ops).2.all) ∧
          pending.Refines host (Waiting.run ⟨[], []⟩ ops).2 := by
  refine ⟨?_, ?_, ?_⟩
  · intro fuel hfuel hnone
    exact Nat.not_le_of_lt hfuel (buildPlan_complete hstill hpending hcoding hnone)
  · intro fuel plan hplan
    have hcomplete : PlanWalk.Complete tree plan :=
      buildPlan_complete hstill hpending hcoding hplan
    have hholds := buildPlan_holds hentries hplan
    have hread : ∀ e ∈ plan.planned,
        host.decodeSpilledEntry (encodeSpilledEntry host e) = .ok e :=
      fun e he => hcoding e (hcomplete.once.subset he)
    obtain ⟨top, htop, hpath⟩ := buildPlan_target hstill hplan
    refine ⟨⟨top, hcomplete.once.symm.subset htop, hpath⟩, hcomplete.once, hcomplete.foldersFirst,
      buildPlan_total hstill hentries hpending hcoding hsizes hplan, fun visit => ?_, ?_⟩
    · exact hholds.shows hentries hread ⟨target.pathToFile⟩ visit
    · exact fun count popped entries hpop => hholds.popTimes hentries count hread hpop
  · intro ops outputs pending hpushed hrun
    have hstart : PendingDirectories.Refines host ⟨[], []⟩ ⟨[], none⟩ := .Resident
    obtain ⟨rfl, hfinal⟩ := hstart.run hpending ops (fun e he => hcoding e (hpushed e he)) hrun
    exact ⟨rfl, Waiting.run_perm ops ⟨[], []⟩, hfinal⟩

/-! ### A folder of 65 folders -/

/-- The folders `a/A`, `a/B` and so on. -/
def crowdedFolders : List PlannedEntry :=
  (List.range 65).filterMap fun n =>
    if h : ValidComponent [UInt8.ofNat (0x41 + n)] then
      some ⟨⟨[letter 97 valid_a, letter _ h]⟩,
        ⟨⟨.Inode 1 (UInt64.ofNat (n + 2)), some 2, false⟩, .Directory, 0, none, none⟩⟩
    else none

/-- The names of the directories that came back. -/
def namesBack (outcome : Except PlanningError (List (Option PlannedEntry) × PendingDirectories)) :
    Option (List (Option OsString)) :=
  outcome.toOption.map fun back => back.1.map (Option.map entryName)

theorem eq_ok_of_namesBack {outcome : Except PlanningError (List (Option PlannedEntry) ×
      PendingDirectories)} {names : List (Option OsString)} (h : namesBack outcome = some names) :
    ∃ outputs pending, outcome = .ok (outputs, pending) ∧
      outputs.map (Option.map entryName) = names := by
  cases outcome with
  | error e => cases h
  | ok back => exact ⟨back.1, back.2, rfl, Option.some.inj h⟩

/-- The last folder found is moved to disk, and there it waits until all others are read. -/
theorem last_folder_read_last : ∃ outputs pending,
    PendingDirectories.run (readingHost (crowdedFolders.drop 64)) ⟨[letter 97 valid_a]⟩ ⟨[], none⟩
        (crowdedFolders.map PendingOp.push ++ crowdedFolders.map fun _ => .pop) =
      .ok (outputs, pending) ∧
    outputs.map (Option.map entryName) =
      ((crowdedFolders.take 64).reverse ++ crowdedFolders.drop 64).map (fun e => some (entryName e)) ∧
    outputs ≠ crowdedFolders.reverse.map some := by
  obtain ⟨outputs, pending, hrun, hnames⟩ := @eq_ok_of_namesBack
    (PendingDirectories.run (readingHost (crowdedFolders.drop 64)) ⟨[letter 97 valid_a]⟩ ⟨[], none⟩
      (crowdedFolders.map PendingOp.push ++ crowdedFolders.map fun _ => .pop)) _
    (show _ = some (((crowdedFolders.take 64).reverse ++ crowdedFolders.drop 64).map
      fun e => some (entryName e)) by decide +kernel)
  refine ⟨outputs, pending, hrun, hnames, ?_⟩
  rintro rfl
  exact absurd hnames (by decide +kernel)

/-! ### A plan on disk -/

/-- `a` with the file `b` and the folder `c`, and the file `c/d`. -/
def nestedTree : List PlannedEntry :=
  [⟨⟨[letter 97 valid_a]⟩, ⟨⟨.Inode 1 1, some 3, false⟩, .Directory, 0, none, none⟩⟩,
    ⟨⟨[letter 97 valid_a, letter 98 valid_b]⟩,
      ⟨⟨.Inode 1 2, some 1, false⟩, .File, 7, some 512, none⟩⟩,
    ⟨⟨[letter 97 valid_a, letter 99 valid_c]⟩,
      ⟨⟨.Inode 1 3, some 2, false⟩, .Directory, 0, none, none⟩⟩,
    ⟨⟨[letter 97 valid_a, letter 99 valid_c, letter 100 valid_d]⟩,
      ⟨⟨.Inode 1 4, some 1, false⟩, .File, 5, some 512, none⟩⟩]

def nestedTarget : PlanTarget where
  pathInFilesystem := []
  pathToFile := [letter 97 valid_a]
  synthetic := false
  expectedSnapshot := ⟨some ⟨.Inode 1 1, some 3, false⟩, .Directory, 0, none, none⟩
  reviewedEntries := []

theorem nestedTree_still : StillTree (stillWorld nestedTree) ⟨nestedTarget.pathToFile⟩ nestedTree :=
  stillWorld_still (by decide +kernel) (List.all_eq_true.mp rfl) (by decide +kernel)

/-- The folder `a` again and again, and then `c`, which is moved to disk. -/
def nestedOps : List PendingOp :=
  (List.replicate 64 (nestedTree.take 1) ++ [(nestedTree.drop 2).take 1]).flatten.map .push ++
    List.replicate 65 .pop

theorem nestedOps_pushed {e : PlannedEntry} (he : e ∈ nestedOps.filterMap PendingOp.pushed) :
    e ∈ nestedTree := by
  have hpushed : nestedOps.filterMap PendingOp.pushed =
      (List.replicate 64 (nestedTree.take 1) ++ [(nestedTree.drop 2).take 1]).flatten := rfl
  rw [hpushed] at he
  obtain ⟨part, hpart, he⟩ := List.mem_flatten.mp he
  rcases List.mem_append.mp hpart with hpart | hpart
  · rw [List.eq_of_mem_replicate hpart] at he
    exact List.mem_of_mem_take he
  · rw [List.mem_singleton.mp hpart] at he
    exact List.mem_of_mem_drop (List.mem_of_mem_take he)

theorem plan_complete_in_any_budget_nested :
    ∃ plan, buildPlan (readingHost nestedTree) (stillWorld nestedTree) nestedTarget false 0 9 =
        .ok (some plan) ∧ plan.entries.isSpilled = true ∧ plan.planned.Perm nestedTree ∧
      plan.apparentBytes = 12 ∧
      ∃ outputs pending, PendingDirectories.run (readingHost nestedTree) ⟨nestedTarget.pathToFile⟩
          ⟨[], none⟩ nestedOps = .ok (outputs, pending) ∧
        outputs = (Waiting.run ⟨[], []⟩ nestedOps).1 := by
  obtain ⟨plan, hplan, hspilled⟩ := @eq_ok_of_plansSpilled (buildPlan
    (readingHost nestedTree) (stillWorld nestedTree) nestedTarget false 0 9) (by decide +kernel)
  obtain ⟨outputs, pending, hrun, -⟩ := @eq_ok_of_namesBack
    (PendingDirectories.run (readingHost nestedTree) ⟨nestedTarget.pathToFile⟩ ⟨[], none⟩ nestedOps)
    (List.replicate 64 (some [97]) ++ [some [99]]) (by decide +kernel)
  obtain ⟨-, hplans, hruns⟩ := plan_complete_in_any_budget (readingHost nestedTree)
    (stillWorld nestedTree) nestedTarget false 0 nestedTree_still (fun _ _ => rfl) (fun _ _ => rfl)
    (fun _ he => readingHost_reads (by decide +kernel) he) (by decide +kernel)
  obtain ⟨-, honce, -, htotal, -, -⟩ := hplans 9 plan hplan
  have hsum := (honce.map fun e => e.snapshot.apparentBytes).sum_eq
  refine ⟨plan, hplan, hspilled, honce, htotal.trans (hsum.trans rfl), outputs, pending, hrun, ?_⟩
  exact (hruns nestedOps outputs pending (fun _ he => nestedOps_pushed he) hrun).1

end Excise
