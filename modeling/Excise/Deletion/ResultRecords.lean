import Excise.Deletion.Executor
import Excise.Deletion.PlanStorage
import Excise.Deletion.SpillReads

/-!
# How long the record of a result is

The place kept for a result is computed from its entry with an empty detail. Whatever becomes of
the entry, its record differs from that one by the link count, which takes at most twenty digits,
and by the outcome, whose detail takes six bytes for each byte of its text at most.
-/

namespace Excise
open Executor (withLinkCount)
set_option autoImplicit false

/-! ## Details -/

theorem utf8ByteSize_takeBytes (limit : Nat) (cs : List Char) :
    (String.ofList (takeBytes limit cs)).utf8ByteSize ≤ limit := by
  induction cs generalizing limit with
  | nil =>
    rw [takeBytes]
    exact Nat.zero_le limit
  | cons c cs ih =>
    rw [takeBytes]
    split
    · rename_i hfits
      have := ih (limit - c.utf8Size)
      rw [String.ofList_cons, String.utf8ByteSize_append, String.utf8ByteSize_singleton]
      omega
    · exact Nat.zero_le limit

theorem boundedOutcomeDetail_length (detail : String) :
    (boundedOutcomeDetail detail).utf8ByteSize ≤ maxOutcomeDetailBytes := by
  unfold boundedOutcomeDetail
  split
  · assumption
  · have := utf8ByteSize_takeBytes
      (maxOutcomeDetailBytes - outcomeDetailTruncation.utf8ByteSize) detail.toList
    have hmark : outcomeDetailTruncation.utf8ByteSize ≤ maxOutcomeDetailBytes := by decide
    rw [String.utf8ByteSize_append]
    omega

theorem utf8Bytes_length (text : String) : (utf8Bytes text).length = text.utf8ByteSize := by
  rfl

theorem bound_detailBytes (outcome : DeletionEntryOutcome) :
    outcome.bound.detailBytes ≤ maxOutcomeDetailBytes := by
  cases outcome with
  | Changed detail => exact boundedOutcomeDetail_length detail
  | Failed detail => exact boundedOutcomeDetail_length detail
  | Deleted => exact Nat.zero_le _
  | Missing => exact Nat.zero_le _
  | Unattempted => exact Nat.zero_le _

/-! ## Outcomes -/

theorem encodeOutcomeText_detail (key detail : String)
    (hkey : (jsonString (ascii key)).length ≤ 9) :
    (jsonObject [(key, jsonString (utf8Bytes detail))]).length ≤ 14 + 6 * detail.utf8ByteSize := by
  have htext := jsonString_length (utf8Bytes detail)
  rw [utf8Bytes_length] at htext
  rw [jsonObject_length]
  simp only [List.map_cons, List.map_nil, jsonOverhead, List.sum_cons, List.sum_nil]
  omega

theorem encodeOutcomeText_length (outcome : DeletionEntryOutcome) :
    (encodeOutcomeText outcome).length ≤ 14 + 6 * outcome.detailBytes := by
  cases outcome with
  | Deleted => decide
  | Changed detail => exact encodeOutcomeText_detail "changed" detail (by decide)
  | Missing => decide
  | Failed detail => exact encodeOutcomeText_detail "failed" detail (by decide)
  | Unattempted => decide

/-! ## Link counts -/

/-- The number fits the type of the source. -/
def PlannedEntry.CountsLinks (entry : PlannedEntry) : Prop :=
  ∀ count, entry.snapshot.identity.linkCount = some count → count < 2 ^ 64

def linkCountText (entry : PlannedEntry) : List UInt8 :=
  jsonOption jsonNumber entry.snapshot.identity.linkCount

theorem linkCountText_length {entry : PlannedEntry} (h : entry.CountsLinks) :
    (linkCountText entry).length ≤ 20 := by
  unfold linkCountText
  cases hcount : entry.snapshot.identity.linkCount with
  | none => decide
  | some count => exact jsonNumber_length (by omega) (Nat.lt_of_lt_of_le (h count hcount) (by omega))

theorem linkCountText_pos (entry : PlannedEntry) : 0 < (linkCountText entry).length := by
  unfold linkCountText
  cases entry.snapshot.identity.linkCount with
  | none => decide
  | some count => exact jsonNumber_pos count

variable (host : PlanHost)

/-- The length of a record but for its link count and its outcome. -/
def recordBase (entry : PlannedEntry) : Nat :=
  (encodeSpilledResult host ⟨withLinkCount entry none, .Changed ""⟩).length

/-- `null` and the outcome with an empty detail are what the link count and the outcome replace. -/
theorem encodeSpilledResult_length (entry : PlannedEntry) (outcome : DeletionEntryOutcome) :
    (encodeSpilledResult host ⟨entry, outcome⟩).length + 18 =
      recordBase host entry + (linkCountText entry).length + (encodeOutcomeText outcome).length := by
  have hnull : (jsonOption jsonNumber none).length = 4 := by decide
  have hempty : (encodeOutcomeText (.Changed "")).length = 14 := by decide
  simp only [recordBase, encodeSpilledResult, encodeSnapshotText, encodeIdentityText,
    jsonObject_length, List.map_cons, List.map_nil, List.sum_cons, List.sum_nil, withLinkCount,
    linkCountText, hnull, hempty]
  omega

/-- The capacity computed from an entry leaves room for whatever becomes of it. -/
theorem encodeSpilledResult_fits {entry : PlannedEntry} {result : DeletionEntryResult}
    (hsame : withLinkCount result.entry none = withLinkCount entry none)
    (hlinks : result.entry.CountsLinks) :
    (encodeSpilledResult host { result with outcome := result.outcome.bound }).length ≤
      (encodeSpilledResult host ⟨entry, .Changed ""⟩).length +
        maxOutcomeDetailBytes * maxJsonEscapedBytesPerInputByte + resultSpillEnvelopeBytes := by
  have hresult := encodeSpilledResult_length host result.entry result.outcome.bound
  have hplanned := encodeSpilledResult_length host entry (.Changed "")
  have hbase : recordBase host result.entry = recordBase host entry := by
    rw [recordBase, hsame, recordBase]
  have hempty : (encodeOutcomeText (.Changed "")).length = 14 := by decide
  have hcount := linkCountText_length hlinks
  have hpositive := linkCountText_pos entry
  have houtcome := encodeOutcomeText_length result.outcome.bound
  have hdetail := bound_detailBytes result.outcome
  have h1 : maxOutcomeDetailBytes = 128 := rfl
  have h2 : maxJsonEscapedBytesPerInputByte = 6 := rfl
  have h3 : resultSpillEnvelopeBytes = 64 := rfl
  rw [h1] at hdetail
  rw [h1, h2, h3]
  omega

/-! ## What a capacity promises -/

theorem resultSpillRecordCapacity_eq_ok {entry : PlannedEntry} {capacity : Nat}
    (h : resultSpillRecordCapacity host entry = .ok capacity) {result : DeletionEntryResult}
    (hsame : withLinkCount result.entry none = withLinkCount entry none)
    (hlinks : result.entry.CountsLinks) :
    recordSize (encodeSpilledResult host { result with outcome := result.outcome.bound }) ≤
        capacity ∧
      (encodeSpilledResult host { result with outcome := result.outcome.bound }).length ≤
        maxResultSpillRecordBytes := by
  have hfits := encodeSpilledResult_fits host hsame hlinks
  unfold resultSpillRecordCapacity at h
  dsimp only at h
  split at h
  · cases h
  · split at h
    · cases h
    · rename_i hle
      obtain ⟨hcapacity, -⟩ := RecordSpill.spillRecordLen_eq_ok h
      constructor
      · rw [recordSize, hcapacity]
        omega
      · omega

/-! ## In memory -/

theorem resultEntryResidentBytes_le {entry : PlannedEntry} {result : DeletionEntryResult}
    (hsame : withLinkCount result.entry none = withLinkCount entry none) :
    resultEntryResidentBytes host.toHost { result with outcome := result.outcome.bound } ≤
      satAdd 64 (plannedEntryResidentBytes host entry) (resultEntryBound host entry) := by
  have hpath : result.entry.relativePath = entry.relativePath := by
    have hpaths := congrArg PlannedEntry.relativePath hsame
    exact hpaths
  have hbound : resultEntryResidentBytes host.toHost
      { result with outcome := result.outcome.bound } ≤ resultEntryBound host entry := by
    unfold resultEntryResidentBytes resultEntryBound
    dsimp only
    rw [hpath]
    exact satAdd_mono (satAdd_mono (Nat.le_refl _) (bound_detailBytes _)) (Nat.le_refl _)
  refine Nat.le_trans hbound ?_
  have hmax : resultEntryBound host entry ≤ satMax 64 := satAdd_le _ _ _
  unfold satAdd at hmax ⊢
  omega

end Excise
