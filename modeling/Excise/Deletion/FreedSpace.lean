import Excise.Deletion.SharedExecution

/-!
# The space a deletion is said to free

What the report of an execution in shared folders says of freed space and of other links.
-/

namespace Excise
set_option autoImplicit false

open Executor

theorem deletedAllocatedBytes_note (s : DeletionSummary) (result : DeletionEntryResult) :
    (s.note result).deletedAllocatedBytes =
      if CountedFreed result then
        satAdd 128 s.deletedAllocatedBytes (result.entry.snapshot.allocatedBytes.getD 0)
      else s.deletedAllocatedBytes := by
  unfold DeletionSummary.note CountedFreed
  cases result.outcome with
  | Deleted => rfl
  | Changed detail => rfl
  | Missing => rfl
  | Failed detail => rfl
  | Unattempted => rfl

theorem deletedAllocatedBytes_foldl_note (noted : List DeletionEntryResult) (s : DeletionSummary) :
    (noted.foldl DeletionSummary.note s).deletedAllocatedBytes =
      (noted.filter CountedFreed).foldl
        (fun n result => satAdd 128 n (result.entry.snapshot.allocatedBytes.getD 0))
        s.deletedAllocatedBytes := by
  induction noted generalizing s with
  | nil => rfl
  | cons result noted ih =>
    rw [List.foldl_cons, ih, deletedAllocatedBytes_note, List.filter_cons]
    split
    · rw [List.foldl_cons]
    · rfl

/-- The allocated bytes of a report are those of results of deleted files and links to whose
objects no link is left, each counted once; from the count of its links on no such object has a
name. Where others leave the private names alone, a report without other links is one of removals
that left none. -/
theorem freed_space_not_overstated (objects : ObjectTable) (root : FileId) (respectful : Bool)
    (host : Host) (scanRoot : OsString) (plan : DeletionPlan) (storage : ResultStorage)
    (table : FolderTable) (steps : List ((Answers × FileId) ⊕ OtherAction)) {s : SharedState}
    {report : DeletionReport}
    (hrun : sharedRun ⟨objects, root, plan, respectful⟩ host scanRoot storage table steps =
      (s, .done report)) :
    (∃ noted freed, report.entries.entries <+: noted ∧
      report.entries.summary.deletedAllocatedBytes = (noted.filter CountedFreed).foldl
        (fun n result => satAdd 128 n (result.entry.snapshot.allocatedBytes.getD 0)) 0 ∧
      List.Forall₂ (Frees objects s) (noted.filter CountedFreed) freed ∧ freed.Nodup) ∧
    (∀ before more x,
      x ∈ (sharedRun ⟨objects, root, plan, respectful⟩ host scanRoot storage table
        before).1.unlinked →
      ¬(sharedRun ⟨objects, root, plan, respectful⟩ host scanRoot storage table
        (before ++ more)).1.table.Named x) ∧
    (respectful = true → report.entries.summary.deletedWithOtherLinks = false →
      ∀ r ∈ s.removals, r.placeholder = false → ∀ entry, r.planned = some entry →
        entry.snapshot.kind.isFileOrLink = true → ¬s.table.Named r.object) := by
  have hdone := sharedRun_guards ⟨objects, root, plan, respectful⟩ host scanRoot storage table steps
  rw [hrun] at hdone
  obtain ⟨noted, freed, hledger, hentries⟩ := (hdone s (.refl s)).2
  refine ⟨⟨noted, freed, hentries, ?_, hledger.counted, hledger.once⟩, ?_, ?_⟩
  · have hbytes := congrArg DeletionSummary.deletedAllocatedBytes hledger.noted_all
    have hcounts : report.entries.summary.deletedAllocatedBytes =
        (noted.foldl DeletionSummary.note {}).deletedAllocatedBytes := hbytes
    rw [hcounts, deletedAllocatedBytes_foldl_note]
  · intro before more x hx
    exact (gone_sharedRun _ host scanRoot storage table before more hx).unnamed
  · intro hrespect hflag r hr htarget entry hplanned hfile
    exact (hledger.unlinked hrespect hflag r hr htarget entry hplanned hfile).2

/-! ## Two files of a folder -/

/-- A file of one block. -/
def blockSnapshot (inode : UInt64) : PlannedSnapshot :=
  ⟨⟨.Inode 1 inode, some 1, false⟩, .File, 4096, some 4096, none⟩

def firstFile : PlannedEntry := ⟨⟨[⟨[0x61], valid_a⟩]⟩, blockSnapshot 2⟩

def secondFile : PlannedEntry := ⟨⟨[⟨[0x62], valid_b⟩]⟩, blockSnapshot 3⟩

/-- The first file is executed first. -/
def twoFilesPlan : DeletionPlan :=
  ⟨firstFile.relativePath, [secondFile, firstFile], firstFile.snapshot, 8192⟩

def twoFilesTable : FolderTable :=
  let empty : FolderTable :=
    ⟨fun _ => none, [], [.Inode 1 1, .Inode 1 2, .Inode 1 3], fun _ h => absurd rfl h,
      fun _ _ h => nomatch h⟩
  (empty.put (.Inode 1 1, [0x61]) (.Inode 1 2) (List.mem_of_mem_tail List.mem_cons_self)).put
    (.Inode 1 1, [0x62]) (.Inode 1 3)
    (List.mem_of_mem_tail (List.mem_of_mem_tail List.mem_cons_self))

def filesOnly : ObjectTable :=
  ⟨fun _ => false, fun x => if x = .Inode 1 1 then .Directory else .File⟩

/-- Every call works; what is under a name is this file. -/
def answersWith (found : PlannedSnapshot) (stopped : Bool) : Answers
  | .openRoot => .ok 0
  | .cloneRoot _ => .ok 1
  | .createNew _ _ => .ok 2
  | .openReference .. => some 3
  | .referenceLinks _ => some 0
  | .placeholderName => .ok [0x70]
  | .statAt _ _ => .ok (.ok found)
  | .fileMetadata _ => .ok (blockSnapshot 4)
  | .loadSoft => stopped
  | .tryClaim | .tryBegin => true
  | c => oneFileAnswers true c

def ownSteps (found : PlannedSnapshot) (stopped : Bool) (n : Nat) :
    List ((Answers × FileId) ⊕ OtherAction) :=
  List.replicate n (.inl (answersWith found stopped, .Inode 1 4))

/-- From the open root to the reference to the first file, which is under its private name. -/
def upToReference : List ((Answers × FileId) ⊕ OtherAction) :=
  ownSteps (blockSnapshot 2) false 16

/-- From the count of the links to the report; the second file is not executed. -/
def fromCount : List ((Answers × FileId) ⊕ OtherAction) :=
  ownSteps (blockSnapshot 4) false 6 ++ ownSteps (blockSnapshot 4) true 8

/-- A link made before the removal and removed again before the links are counted. -/
def briefLink : List ((Answers × FileId) ⊕ OtherAction) :=
  upToReference ++ [.inr (.link (.Inode 1 1, [0x70]) (.Inode 1 1, [0x63]))] ++
    ownSteps (blockSnapshot 2) false 1 ++ [.inr (.unlink (.Inode 1 1, [0x63]))] ++ fromCount

/-- The second file takes the private name of the first. -/
def swappedName : List ((Answers × FileId) ⊕ OtherAction) :=
  upToReference ++ [.inr (.link (.Inode 1 1, [0x62]) (.Inode 1 1, [0x70]))] ++
    ownSteps (blockSnapshot 2) false 1 ++ fromCount

def twoFilesRun (respectful : Bool) (steps : List ((Answers × FileId) ⊕ OtherAction)) :
    SharedState × Executor DeletionReport :=
  sharedRun ⟨filesOnly, .Inode 1 1, twoFilesPlan, respectful⟩ plainHost [] .Spilled twoFilesTable
    steps

/-- A link may outlive a removal that is counted, if it goes before the links are counted; and a
file with links may be taken for one without where its private name is not left alone. -/
theorem brief_link_counted :
    (¬∀ steps s report, twoFilesRun true steps = (s, .done report) →
      0 < report.entries.summary.deletedAllocatedBytes →
        ∃ r ∈ s.removals, r.placeholder = false ∧ r.linksLeft = 0) ∧
    ¬∀ steps s report, twoFilesRun false steps = (s, .done report) →
      report.entries.summary.deletedWithOtherLinks = false →
        ∀ r ∈ s.removals, r.placeholder = false → ¬s.table.Named r.object := by
  constructor
  · intro hall
    have hdone : ∃ report, (twoFilesRun true briefLink).2 = .done report ∧
        report.entries.summary.deletedAllocatedBytes = 4096 := ⟨_, rfl, by decide +kernel⟩
    obtain ⟨report, hreport, hbytes⟩ := hdone
    have hlinks : ((twoFilesRun true briefLink).1.removals.all fun r =>
        r.placeholder || decide (r.linksLeft = 1)) = true := by decide +kernel
    obtain ⟨r, hr, htarget, hleft⟩ :=
      hall briefLink _ report (Prod.ext rfl hreport) (by rw [hbytes]; decide)
    have hone := List.all_eq_true.mp hlinks r hr
    rw [htarget, Bool.false_or, decide_eq_true_eq, hleft] at hone
    cases hone
  · intro hall
    have hdone : ∃ report, (twoFilesRun false swappedName).2 = .done report ∧
        report.entries.summary.deletedWithOtherLinks = false := ⟨_, rfl, by decide +kernel⟩
    obtain ⟨report, hreport, hflag⟩ := hdone
    have hremoved : ((twoFilesRun false swappedName).1.removals.any fun r =>
        !r.placeholder && decide ((twoFilesRun false swappedName).1.table.names
          (.Inode 1 1, [0x62]) = some r.object)) = true := by decide +kernel
    obtain ⟨r, hr, hlinked⟩ := List.any_eq_true.mp hremoved
    rw [Bool.and_eq_true, Bool.not_eq_true', decide_eq_true_eq] at hlinked
    exact hall swappedName _ report (Prod.ext rfl hreport) hflag r hr hlinked.1 ⟨_, hlinked.2⟩

/-- Both files are left alone by others, and the first is removed for good. -/
def undisturbed : List ((Answers × FileId) ⊕ OtherAction) :=
  upToReference ++ ownSteps (blockSnapshot 2) false 1 ++ fromCount

theorem freed_space_not_overstated_twoFiles :
    ∃ report, (twoFilesRun true undisturbed).2 = .done report ∧
      report.entries.summary.deletedAllocatedBytes = 4096 ∧
      (∃ noted freed, report.entries.entries <+: noted ∧
        report.entries.summary.deletedAllocatedBytes = (noted.filter CountedFreed).foldl
          (fun n result => satAdd 128 n (result.entry.snapshot.allocatedBytes.getD 0)) 0 ∧
        List.Forall₂ (Frees filesOnly (twoFilesRun true undisturbed).1)
          (noted.filter CountedFreed) freed ∧ freed.Nodup) ∧
      (∀ before more x, x ∈ (twoFilesRun true before).1.unlinked →
        ¬(twoFilesRun true (before ++ more)).1.table.Named x) ∧
      (true = true → report.entries.summary.deletedWithOtherLinks = false →
        ∀ r ∈ (twoFilesRun true undisturbed).1.removals, r.placeholder = false →
          ∀ entry, r.planned = some entry → entry.snapshot.kind.isFileOrLink = true →
            ¬(twoFilesRun true undisturbed).1.table.Named r.object) := by
  have hdone : ∃ report, (twoFilesRun true undisturbed).2 = .done report ∧
      report.entries.summary.deletedAllocatedBytes = 4096 := ⟨_, rfl, by decide +kernel⟩
  obtain ⟨report, hreport, hbytes⟩ := hdone
  exact ⟨report, hreport, hbytes, freed_space_not_overstated filesOnly (.Inode 1 1) true plainHost []
    twoFilesPlan .Spilled twoFilesTable undisturbed (Prod.ext rfl hreport)⟩

end Excise
