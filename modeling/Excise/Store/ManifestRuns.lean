import Excise.Lib.Machine
import Excise.Store.Manifest

/-!
# Operations on a manifest

Every operation that fails leaves the manifest as it was, but for a replacement whose successor
turns out to be a duplicate after the consumed runs are gone. Over any sequence of operations no
run is recorded twice, and a replacement keeps what it was not asked to replace. An id can be
recorded once for each kind of run.
-/

namespace Excise
set_option autoImplicit false

inductive ManifestOp where
  | addRun (run : RunDescriptor)
  | replaceRuns (removed : List RunDescriptor) (added : RunDescriptor)
  | replaceAllRuns (added : RunDescriptor)
  | transition (next : ScanGenerationState)

namespace ManifestOp

def perform : ManifestOp → EStateM ManifestError ScanManifest Unit
  | .addRun run => ScanManifest.addRun run
  | .replaceRuns removed added => ScanManifest.replaceRuns removed added
  | .replaceAllRuns added => ScanManifest.replaceAllRuns added
  | .transition next => ScanManifest.transition next

/-- The manifest afterwards, whatever the answer. -/
def after (op : ManifestOp) (m : ScanManifest) : ScanManifest :=
  match op.perform m with
  | .ok _ m' => m'
  | .error _ m' => m'

/-- The manifest under one operation after the other. -/
def machine : Machine ScanManifest ManifestOp Unit := ⟨fun m op => (op.after m, ())⟩

/-- A failure changes nothing. -/
def Atomic (op : ManifestOp) (m : ScanManifest) : Prop :=
  ∀ e m', op.perform m = .error e m' → m' = m

/-- A replacement that is refused for nothing but its successor. -/
def Replaceable (m : ScanManifest) (removed : List RunDescriptor) (added : RunDescriptor) : Prop :=
  m.acceptsRuns = true ∧ added.generation = m.generation ∧
    ∀ d ∈ removed, d.generation = m.generation ∧ m.contains d = true

/-- A run that stays has the id and the kind of the successor. -/
def Collides (m : ScanManifest) : ManifestOp → Prop
  | .replaceRuns removed added =>
    removed ≠ [] ∧ Replaceable m removed added ∧
      ∃ r ∈ m.runs, r.sameRun added = true ∧ ∀ d ∈ removed, r.sameRun d = false
  | _ => False

/-- A run that stays has the id of the run to be recorded, and another kind. -/
def SharesId (m : ScanManifest) : ManifestOp → Prop
  | .addRun run =>
    m.acceptsRuns = true ∧ run.generation = m.generation ∧
      ∃ r ∈ m.runs, r.runId = run.runId ∧ r.kind ≠ run.kind
  | .replaceRuns removed added =>
    Replaceable m removed added ∧
      ∃ r ∈ m.runs, (r.runId = added.runId ∧ r.kind ≠ added.kind) ∧
        ∀ d ∈ removed, r.sameRun d = false
  | _ => False

end ManifestOp

namespace ScanManifest

variable {m m' : ScanManifest} {run added : RunDescriptor} {removed : List RunDescriptor}

/-- No two runs of a manifest share their id. -/
def UniqueIds (m : ScanManifest) : Prop := (m.runs.map RunDescriptor.runId).Nodup

theorem mem_retain {r : RunDescriptor} :
    r ∈ (m.retain removed).runs ↔ r ∈ m.runs ∧ ∀ d ∈ removed, r.sameRun d = false := by
  unfold retain
  rw [List.mem_filter, Bool.not_eq_true', List.any_eq_false]
  simp only [Bool.not_eq_true]

theorem contains_retain : (m.retain removed).contains added = true ↔
    ∃ r ∈ m.runs, r.sameRun added = true ∧ ∀ d ∈ removed, r.sameRun d = false := by
  unfold contains
  rw [List.any_eq_true]
  constructor
  · rintro ⟨r, hr, hsame⟩
    obtain ⟨hmem, hother⟩ := mem_retain.mp hr
    exact ⟨r, hmem, hsame, hother⟩
  · rintro ⟨r, hmem, hsame, hother⟩
    exact ⟨r, mem_retain.mpr ⟨hmem, hother⟩, hsame⟩

/-- Unless the successor is a duplicate a replacement that fails has changed nothing. -/
theorem replaceRuns_error {e : ManifestError} (h : replaceRuns removed added m = .error e m') :
    (m' = m ∧ ¬ManifestOp.Replaceable m removed added) ∨
      (ManifestOp.Replaceable m removed added ∧ (m.retain removed).contains added = true ∧
        m' = m.retain removed) := by
  unfold replaceRuns at h
  split at h
  · rename_i hclosed
    cases h
    exact Or.inl ⟨rfl, fun hfine => by simp [hfine.1] at hclosed⟩
  · rename_i haccepts
    split at h
    · rename_i hgeneration
      cases h
      exact Or.inl ⟨rfl, fun hfine => hgeneration hfine.2.1⟩
    · rename_i hgeneration
      split at h
      · rename_i hforeign
        cases h
        obtain ⟨d, hd, hne⟩ := List.any_eq_true.mp hforeign
        exact Or.inl ⟨rfl, fun hfine => of_decide_eq_true hne (hfine.2.2 d hd).1⟩
      · rename_i hbelong
        split at h
        · rename_i hmissing
          cases h
          obtain ⟨d, hd, hnot⟩ := List.any_eq_true.mp hmissing
          refine Or.inl ⟨rfl, fun hfine => ?_⟩
          rw [(hfine.2.2 d hd).2] at hnot
          cases hnot
        · rename_i hpresent
          split at h
          · rename_i hduplicate
            cases h
            refine Or.inr ⟨⟨by simpa using haccepts, not_not.mp hgeneration, fun d hd => ?_⟩,
              hduplicate, rfl⟩
            constructor
            · simpa using (List.any_eq_false.mp (eq_false_of_ne_true hbelong)) d hd
            · simpa using (List.any_eq_false.mp (eq_false_of_ne_true hpresent)) d hd
          · cases h

theorem replaceRuns_replaceable (h : replaceRuns removed added m = .ok () m') :
    ManifestOp.Replaceable m removed added ∧ (m.retain removed).contains added = false ∧
      m' = { m with runs := (m.retain removed).runs ++ [added] } := by
  obtain ⟨-, hfresh, hm'⟩ := replaceRuns_ok h
  refine ⟨?_, hfresh, hm'⟩
  unfold replaceRuns at h
  split at h
  · cases h
  · rename_i haccepts
    split at h
    · cases h
    · rename_i hgeneration
      split at h
      · cases h
      · rename_i hbelong
        split at h
        · cases h
        · rename_i hpresent
          refine ⟨by simpa using haccepts, not_not.mp hgeneration, fun d hd => ⟨?_, ?_⟩⟩
          · simpa using (List.any_eq_false.mp (eq_false_of_ne_true hbelong)) d hd
          · simpa using (List.any_eq_false.mp (eq_false_of_ne_true hpresent)) d hd

theorem replaceRuns_collides (hfine : ManifestOp.Replaceable m removed added)
    (hduplicate : (m.retain removed).contains added = true) :
    replaceRuns removed added m = .error .DuplicateRun (m.retain removed) := by
  obtain ⟨haccepts, hgeneration, hremoved⟩ := hfine
  unfold replaceRuns
  rw [if_neg (by simp [haccepts]), if_neg (by simp [hgeneration]),
    if_neg (by simpa using fun d hd => (hremoved d hd).1),
    if_neg (by simpa using fun d hd => (hremoved d hd).2), if_pos hduplicate]

theorem retain_ne {d : RunDescriptor} (hd : d ∈ removed) (hc : m.contains d = true) :
    m.retain removed ≠ m := by
  intro heq
  obtain ⟨e, he, hsame⟩ := contains_iff.mp hc
  have hkept : e ∈ (m.retain removed).runs := by
    rw [heq]
    exact he
  have hany : (removed.any fun d => e.sameRun d) = true :=
    List.any_eq_true.mpr ⟨d, hd, RunDescriptor.sameRun_iff.mpr hsame⟩
  have := List.of_mem_filter hkept
  rw [hany] at this
  cases this

theorem replaceRuns_unique (hu : m.UniqueRuns) (h : replaceRuns removed added m = .ok () m') :
    m'.UniqueRuns := by
  obtain ⟨-, hfresh, rfl⟩ := replaceRuns_ok h
  exact unique_append (retain_unique hu) hfresh

theorem retain_nil (m : ScanManifest) : m.retain [] = m := by
  have hall : m.runs.filter (fun existing => !([] : List RunDescriptor).any fun d =>
      existing.sameRun d) = m.runs := List.filter_eq_self.mpr fun _ _ => rfl
  rw [retain, hall]

theorem transition_error {e : ManifestError} {next : ScanGenerationState}
    (h : transition next m = .error e m') : m' = m := by
  unfold transition at h
  split at h <;> cases h
  rfl

/-- What it was not asked to replace stays, whether it fails or not. -/
theorem replaceRuns_keeps {r : RunDescriptor} (hr : r ∈ m.runs)
    (hother : ∀ d ∈ removed, r.sameRun d = false) :
    r ∈ ((ManifestOp.replaceRuns removed added).after m).runs := by
  have hkept : r ∈ (m.retain removed).runs := mem_retain.mpr ⟨hr, hother⟩
  unfold ManifestOp.after
  split
  · rename_i _ hok
    obtain ⟨-, -, rfl⟩ := replaceRuns_ok hok
    exact List.mem_append_left _ hkept
  · rename_i _ _ herror
    rcases replaceRuns_error herror with ⟨rfl, -⟩ | ⟨-, -, rfl⟩
    · exact hr
    · exact hkept

theorem uniqueIds_append_iff : ({ m with runs := m.runs ++ [run] } : ScanManifest).UniqueIds ↔
    m.UniqueIds ∧ ∀ r ∈ m.runs, r.runId ≠ run.runId := by
  unfold UniqueIds
  rw [List.map_append, List.map_singleton, List.nodup_append]
  constructor
  · rintro ⟨hu, -, hne⟩
    exact ⟨hu, fun r hr => hne _ (List.mem_map_of_mem hr) _ List.mem_cons_self⟩
  · rintro ⟨hu, hne⟩
    refine ⟨hu, List.nodup_singleton _, fun id hid other hother => ?_⟩
    obtain ⟨r, hr, rfl⟩ := List.mem_map.mp hid
    rw [List.mem_singleton.mp hother]
    exact hne r hr

theorem retain_uniqueIds (hu : m.UniqueIds) : (m.retain removed).UniqueIds :=
  hu.sublist (List.filter_sublist.map _)

theorem UniqueIds.kind_eq (hu : m.UniqueIds) (hc : m.contains run = true) {r : RunDescriptor}
    (hr : r ∈ m.runs) (hid : r.runId = run.runId) : r.kind = run.kind := by
  obtain ⟨e, he, hsame, hkind⟩ := contains_iff.mp hc
  rw [List.inj_on_of_nodup_map hu hr he (hid.trans hsame.symm), hkind]

/-- A run that is not recorded yet keeps the ids distinct exactly when no run has its id. -/
theorem UniqueIds.append_iff (hu : m.UniqueIds) (hn : m.contains run = false) :
    ({ m with runs := m.runs ++ [run] } : ScanManifest).UniqueIds ↔
      ¬∃ r ∈ m.runs, r.runId = run.runId ∧ r.kind ≠ run.kind := by
  rw [uniqueIds_append_iff]
  constructor
  · rintro ⟨-, hne⟩ ⟨r, hr, hid, -⟩
    exact hne r hr hid
  · intro hno
    refine ⟨hu, fun r hr hid => hno ⟨r, hr, hid, fun hkind => ?_⟩⟩
    have hc : m.contains run = true := contains_iff.mpr ⟨r, hr, hid, hkind⟩
    rw [hn] at hc
    cases hc

end ScanManifest

namespace ManifestOp
open ScanManifest

theorem unique_after (op : ManifestOp) {m : ScanManifest} (hu : m.UniqueRuns) :
    (op.after m).UniqueRuns := by
  have hreplace (removed : List RunDescriptor) (added : RunDescriptor) :
      ((ManifestOp.replaceRuns removed added).after m).UniqueRuns := by
    unfold after
    split
    · rename_i hok
      exact replaceRuns_unique hu hok
    · rename_i herror
      rcases replaceRuns_error herror with ⟨rfl, -⟩ | ⟨-, -, rfl⟩
      · exact hu
      · exact retain_unique hu
  cases op with
  | addRun run =>
    unfold after
    split
    · rename_i hok
      obtain ⟨-, -, hfresh, rfl⟩ := addRun_ok hok
      exact unique_append hu hfresh
    · rename_i herror
      rw [addRun_error herror]
      exact hu
  | replaceRuns removed added => exact hreplace removed added
  | replaceAllRuns added => exact hreplace m.runs added
  | transition next =>
    unfold after
    split
    · rename_i hok
      rw [transition_ok hok]
      exact hu
    · rename_i herror
      rw [transition_error herror]
      exact hu

theorem unique_run (ops : List ManifestOp) {m : ScanManifest} (hu : m.UniqueRuns) :
    (machine.run m ops).UniqueRuns :=
  machine.run_invariant hu (fun _ op hm => op.unique_after hm) ops

theorem atomic_iff (op : ManifestOp) (m : ScanManifest) : op.Atomic m ↔ ¬op.Collides m := by
  cases op with
  | addRun run => exact ⟨fun _ h => h, fun _ e m' h => addRun_error h⟩
  | transition next => exact ⟨fun _ h => h, fun _ e m' h => transition_error h⟩
  | replaceAllRuns added =>
    refine ⟨fun _ h => h, fun _ e m' h => ?_⟩
    rcases replaceRuns_error h with ⟨rfl, -⟩ | ⟨-, hduplicate, -⟩
    · rfl
    · -- nothing is left that the successor could be a duplicate of
      rw [contains, retain_self] at hduplicate
      cases hduplicate
  | replaceRuns removed added =>
    constructor
    · rintro hatomic ⟨hnonempty, hfine, hstays⟩
      have herror := replaceRuns_collides hfine (contains_retain.mpr hstays)
      obtain ⟨d, hd⟩ := List.exists_mem_of_ne_nil removed hnonempty
      exact retain_ne hd (hfine.2.2 d hd).2 (hatomic _ _ herror)
    · intro hno e m' h
      rcases replaceRuns_error h with ⟨rfl, -⟩ | ⟨hfine, hduplicate, rfl⟩
      · rfl
      · by_cases hnil : removed = []
        · subst hnil
          exact retain_nil m
        · exact absurd ⟨hnil, hfine, contains_retain.mp hduplicate⟩ hno

/-- The ids stay distinct exactly when the operation records none of another run that stays. -/
theorem uniqueIds_after_iff (op : ManifestOp) {m : ScanManifest} (hu : m.UniqueIds) :
    (op.after m).UniqueIds ↔ ¬op.SharesId m := by
  cases op with
  | addRun run =>
    unfold after
    split
    · rename_i hok
      obtain ⟨haccepts, hgeneration, hfresh, rfl⟩ := addRun_ok hok
      rw [hu.append_iff hfresh]
      exact not_congr ⟨fun hshared => ⟨haccepts, hgeneration, hshared⟩, fun h => h.2.2⟩
    · rename_i e m' herror
      rw [addRun_error herror]
      refine iff_of_true hu ?_
      rintro ⟨haccepts, hgeneration, r, hr, hid, hkind⟩
      cases hc : m.contains run with
      | true => exact hkind (hu.kind_eq hc hr hid)
      | false =>
        have hadded := addRun_returns haccepts hgeneration hc
        rw [show ScanManifest.addRun run m = .error e m' from herror] at hadded
        cases hadded
  | replaceRuns removed added =>
    -- what is recorded before the successor is added
    have hkept : (m.retain removed).UniqueIds := retain_uniqueIds hu
    have hshared : (∃ r ∈ (m.retain removed).runs, r.runId = added.runId ∧ r.kind ≠ added.kind) ↔
        ∃ r ∈ m.runs, (r.runId = added.runId ∧ r.kind ≠ added.kind) ∧
          ∀ d ∈ removed, r.sameRun d = false := by
      constructor
      · rintro ⟨r, hr, hother⟩
        obtain ⟨hmem, hstays⟩ := mem_retain.mp hr
        exact ⟨r, hmem, hother, hstays⟩
      · rintro ⟨r, hmem, hother, hstays⟩
        exact ⟨r, mem_retain.mpr ⟨hmem, hstays⟩, hother⟩
    unfold after
    split
    · rename_i hok
      obtain ⟨hfine, hfresh, rfl⟩ := replaceRuns_replaceable hok
      have hadded := hkept.append_iff hfresh
      rw [hshared] at hadded
      exact hadded.trans (not_congr ⟨fun hother => ⟨hfine, hother⟩, fun h => h.2⟩)
    · rename_i e m' herror
      rcases replaceRuns_error herror with ⟨rfl, hnot⟩ | ⟨-, hduplicate, rfl⟩
      · exact iff_of_true hu fun h => hnot h.1
      · refine iff_of_true hkept fun h => ?_
        obtain ⟨r, hr, hid, hkind⟩ := hshared.mpr h.2
        exact hkind (hkept.kind_eq hduplicate hr hid)
  | replaceAllRuns added =>
    refine iff_of_true ?_ id
    unfold after
    split
    · rename_i hok
      obtain ⟨-, -, rfl⟩ := replaceRuns_ok hok
      rw [retain_self]
      exact List.nodup_singleton _
    · rename_i herror
      rcases replaceRuns_error herror with ⟨rfl, -⟩ | ⟨-, -, rfl⟩
      · exact hu
      · exact retain_uniqueIds hu
  | transition next =>
    refine iff_of_true ?_ id
    unfold after
    split
    · rename_i hok
      rw [transition_ok hok]
      exact hu
    · rename_i herror
      rw [transition_error herror]
      exact hu

end ManifestOp

/-- A failing operation changes nothing, exactly unless it is a replacement whose successor collides
with a run that stays. All through a sequence of operations the ids are distinct exactly when no
operation records the id of a run of another kind that stays; no id is ever recorded twice for one
kind, and a replacement keeps what it was not asked to replace. -/
theorem manifest_operations_atomic_iff (m : ScanManifest) (op : ManifestOp)
    (session : ScanSessionId) (generation : ScanGeneration) (ops : List ManifestOp) :
    (op.Atomic m ↔ ¬op.Collides m) ∧
      ((∀ seen, seen <+: ops →
          (ManifestOp.machine.run (ScanManifest.new session generation) seen).UniqueIds) ↔
        ManifestOp.machine.Along (fun m op => ¬op.SharesId m)
          (ScanManifest.new session generation) ops) ∧
      (ManifestOp.machine.run (ScanManifest.new session generation) ops).UniqueRuns ∧
      ∀ removed added, ∀ r ∈ m.runs, (∀ d ∈ removed, r.sameRun d = false) →
        r ∈ ((ManifestOp.replaceRuns removed added).after m).runs := by
  have hnew : (ScanManifest.new session generation).UniqueIds := List.nodup_nil
  refine ⟨op.atomic_iff m, ?_, ManifestOp.unique_run ops List.nodup_nil,
    fun _ _ _ hr hother => ScanManifest.replaceRuns_keeps hr hother⟩
  exact ManifestOp.machine.safe_iff_along (I := fun _ => True) (fun _ _ h => h)
    (fun _ op _ hu => op.uniqueIds_after_iff hu) trivial hnew ops

def pathRun (runId : UInt64) : RunDescriptor := ⟨⟨0⟩, runId, .PathObservation⟩

/-- Two runs of which the first is to be replaced by another of the id of the second. -/
def collidingManifest : ScanManifest := ⟨⟨0⟩, ⟨0⟩, .Scanning, [pathRun 1, pathRun 2]⟩

theorem failed_replacement_removes_run :
    ∃ m', (ManifestOp.replaceRuns [pathRun 1] (pathRun 2)).perform collidingManifest =
      .error .DuplicateRun m' ∧ m'.runs = [pathRun 2] ∧ collidingManifest.runs ≠ m'.runs :=
  ⟨_, rfl, by decide, by decide⟩

/-- An id that is recorded for each of two kinds. -/
example : ¬(ManifestOp.machine.run (ScanManifest.new ⟨0⟩ ⟨0⟩)
    [.transition .Scanning, .addRun (pathRun 1),
      .addRun { pathRun 1 with kind := .IdentityObservation }]).UniqueIds := by
  unfold ScanManifest.UniqueIds
  decide

end Excise
