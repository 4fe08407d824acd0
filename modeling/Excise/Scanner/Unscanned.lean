import Excise.Lib.Keyed
import Excise.Scanner.Sealing
import Excise.Store.PublishedTotals

/-!
# Entries outside the scan

`process_entry` and `report_unscanned_entry`: an entry that a pattern excludes and a folder of
another file system are sealed like any other, with the metadata that was read.
-/

namespace Excise
set_option autoImplicit false

/-! ## What is left out -/

inductive UnscannedReason where
  | SymbolicLink
  | FilesystemBoundary
  | Excluded (pattern : String)
  | Metadata (message : String)
  deriving DecidableEq, Repr

/-- What a scan leaves out: `exclusion` is the pattern that excludes a path, of a directory or
not. -/
structure ScanScope where
  exclusion : RelativePath → Bool → Option String
  rootFilesystem : Option UInt64
  crossFilesystems : Bool

namespace ScanScope

def filesystemBoundaryReason (metadata : EntryMetadata) (rootFilesystem : UInt64) :
    Option UnscannedReason :=
  if metadata.device = rootFilesystem then none else some .FilesystemBoundary

/-- Why `process_entry` reports an entry that it read instead of batching it. -/
def reason (scope : ScanScope) (relative : RelativePath) (entry : ScannedEntry) :
    Option UnscannedReason :=
  match scope.exclusion relative entry.metadata.isDir with
  | some pattern => some (.Excluded pattern)
  | none =>
    if entry.metadata.isSymlink || entry.identity.reparsePoint then some .SymbolicLink
    else if entry.metadata.isDir && !scope.crossFilesystems then
      match scope.rootFilesystem with
      | some rootFilesystem => filesystemBoundaryReason entry.metadata rootFilesystem
      | none => some (.Metadata "root filesystem identity is unavailable")
    else none

end ScanScope

/-- The coverage of `report_unscanned_entry`. -/
def UnscannedReason.coverage : UnscannedReason → Coverage
  | .SymbolicLink => .Complete
  | _ => .Uncertain

def reportUnscannedEntry (digest : List UInt8 → BlockDigest) (refusal : Nat → Option IoErrorKind)
    (root : NativePath) (factory : Option ScanInputRunFactory) (entry : ScannedEntry)
    (reason : UnscannedReason) : Except ScanSealError (List FileSealedRun) :=
  sealScannedEntries digest refusal root [entry] reason.coverage factory

namespace ScanScope

/-- With the coverage it is sealed with. -/
def coverage (scope : ScanScope) (relative : RelativePath) (entry : ScannedEntry) : Coverage :=
  (scope.reason relative entry).elim .Complete UnscannedReason.coverage

/-- What a scan of these entries seals for their paths. -/
def observed (scope : ScanScope) (scan : List (RelativePath × ScannedEntry)) :
    List PathObservation :=
  scan.map fun e => e.2.pathObservation e.1 (scope.coverage e.1 e.2)

theorem kind_of_boundary {scope : ScanScope} {relative : RelativePath} {entry : ScannedEntry}
    (h : scope.reason relative entry = some .FilesystemBoundary) : entry.kind = .Directory := by
  unfold reason at h
  split at h
  · cases h
  · split at h
    · cases h
    · rename_i hlink
      split at h
      · rename_i hdir
        unfold ScannedEntry.kind
        rw [if_neg hlink, if_pos (Bool.and_eq_true_iff.mp hdir).1]
      · cases h

section
variable {digest : List UInt8 → BlockDigest} {refusal : Nat → Option IoErrorKind}
  {root : NativePath} {factory : ScanInputRunFactory} {scope : ScanScope}

theorem relativeEntries_below {scan : List (RelativePath × ScannedEntry)}
    (hbelow : ∀ e ∈ scan, e.2.path = e.1.below root) :
    relativeEntries root (scan.map Prod.snd) = .ok scan := by
  unfold relativeEntries
  induction scan with
  | nil => rfl
  | cons e scan ih =>
    rw [List.map_cons, List.mapM_cons, hbelow e List.mem_cons_self, relativeTo_below,
      ih fun x hx => hbelow x (List.mem_cons_of_mem _ hx)]
    rfl

/-- Entries below the root that share a coverage are sealed as the scan observes them. -/
theorem sealScannedEntries_observed {scan : List (RelativePath × ScannedEntry)}
    {coverage : Coverage} (hbelow : ∀ e ∈ scan, e.2.path = e.1.below root)
    (hcoverage : ∀ e ∈ scan, scope.coverage e.1 e.2 = coverage) :
    sealScannedEntries digest refusal root (scan.map Prod.snd) coverage (some factory) =
      factory.sealObservationBatch digest refusal (scope.observed scan)
        (identityObservations scan) := by
  have hrelative := relativeEntries_below hbelow
  have hobserved : pathObservations coverage scan = scope.observed scan :=
    List.map_congr_left fun e he => by rw [hcoverage e he]
  unfold sealScannedEntries
  dsimp only
  rw [hrelative, ← hobserved]
  rfl

/-- What is reported of an entry that is left out is what the scan observes of it. -/
theorem reportUnscannedEntry_observed {relative : RelativePath} {entry : ScannedEntry}
    {reason : UnscannedReason} (hreason : scope.reason relative entry = some reason)
    (hbelow : entry.path = relative.below root) :
    reportUnscannedEntry digest refusal root (some factory) entry reason =
      factory.sealObservationBatch digest refusal (scope.observed [(relative, entry)])
        (identityObservations [(relative, entry)]) := by
  have hcoverage : scope.coverage relative entry = reason.coverage := by
    unfold coverage
    rw [hreason]
    rfl
  have hpath : ∀ e ∈ [(relative, entry)], e.2.path = e.1.below root :=
    List.forall_mem_singleton.mpr hbelow
  exact sealScannedEntries_observed hpath (List.forall_mem_singleton.mpr hcoverage)

end

end ScanScope

/-- The facts of the generation are what the scan sealed. -/
structure RecordsScan (a : ActiveGeneration) (scope : ScanScope)
    (scan : List (RelativePath × ScannedEntry)) : Prop where
  paths : (recordsOf a.pathRuns.intoRuns).Perm ((scope.observed scan).map Fact.path)
  identities : (recordsOf a.identityRuns.intoRuns).Perm
    ((identityObservations scan).map Fact.identity)

/-! ## The convention -/

section

variable {scope : ScanScope} {scan : List (RelativePath × ScannedEntry)}
  {paths : List PathObservation} {identities : List IdentityObservation}

theorem path_of_identityObservation? {entry : ScannedEntry} {relative : RelativePath}
    {i : IdentityObservation} (h : entry.identityObservation? relative = some i) :
    i.path = relative ∧ entry.kind ≠ .Directory ∧ entry.identity.linkCount ≠ some 1 ∧
      i.allocatedBytes = entry.physicalBounds := by
  unfold ScannedEntry.identityObservation? at h
  split at h
  · rename_i hfile
    cases h
    exact ⟨rfl, hfile.1, hfile.2, rfl⟩
  · cases h

/-- The identity observations at one path. -/
theorem filter_identityObservations (hnodup : (scan.map Prod.fst).Nodup)
    {e : RelativePath × ScannedEntry} (he : e ∈ scan) :
    (identityObservations scan).filter (fun i => decide (i.path = e.1)) =
      (e.2.identityObservation? e.1).toList := by
  have hone : scan.filter (fun x => decide (x.1 = e.1)) = [e] :=
    Keyed.filter_key_eq_singleton hnodup he
  have hsame : (identityObservations scan).filter (fun i => decide (i.path = e.1)) =
      (scan.filter fun x => decide (x.1 = e.1)).filterMap fun x => x.2.identityObservation? x.1 := by
    unfold identityObservations
    rw [List.filter_filterMap, List.filterMap_filter]
    refine List.filterMap_congr fun x _ => ?_
    cases hi : x.2.identityObservation? x.1 with
    | none =>
      rw [Option.filter_none]
      split <;> rfl
    | some i =>
      have hpath := (path_of_identityObservation? hi).1
      rw [Option.filter_some, hpath]
  rw [hsame, hone]
  rw [List.filterMap_cons, List.filterMap_nil]
  cases e.2.identityObservation? e.1 <;> rfl

theorem ScannerConvention.of_scan (hnodup : (scan.map Prod.fst).Nodup)
    (hpaths : paths.Perm (scope.observed scan))
    (hidentities : identities.Perm (identityObservations scan)) :
    ScannerConvention paths identities := by
  have hobserved {o : PathObservation} (ho : o ∈ paths) : ∃ e ∈ scan,
      e.2.pathObservation e.1 (scope.coverage e.1 e.2) = o := List.mem_map.mp (hpaths.mem_iff.mp ho)
  have hfilter {e : RelativePath × ScannedEntry} (he : e ∈ scan) :
      (identities.filter fun i => decide (i.path = e.1)) = (e.2.identityObservation? e.1).toList := by
    have hperm := hidentities.filter fun i => decide (i.path = e.1)
    rw [filter_identityObservations hnodup he] at hperm
    cases hi : e.2.identityObservation? e.1 with
    | none =>
      rw [hi] at hperm
      exact List.perm_nil.mp hperm
    | some i =>
      rw [hi] at hperm
      exact List.perm_singleton.mp hperm
  have hnone {e : RelativePath × ScannedEntry} (he : e ∈ scan)
      (hi : e.2.identityObservation? e.1 = none) : ∀ i ∈ identities, i.path ≠ e.1 := by
    intro i hmem hpath
    have hin : i ∈ identities.filter fun i => decide (i.path = e.1) :=
      List.mem_filter.mpr ⟨hmem, decide_eq_true hpath⟩
    rw [hfilter he, hi] at hin
    cases hin
  refine ⟨fun o ho hkind => ?_, fun o ho hkind => ?_, fun i hi => ?_⟩
  · obtain ⟨e, he, rfl⟩ := hobserved ho
    have hdir : ¬(e.2.kind ≠ .Directory) := not_not.mpr hkind
    have hdirect : e.2.directBounds = .exact 0 := if_neg fun h => hdir h.1
    refine ⟨hdirect, hdirect, hnone he ?_⟩
    exact if_neg fun h => hdir h.1
  · obtain ⟨e, he, rfl⟩ := hobserved ho
    refine ⟨e.2.identity, rfl, ?_⟩
    by_cases hlinks : e.2.identity.linkCount = some 1
    · have hdirect : e.2.directBounds = e.2.physicalBounds := if_pos ⟨hkind, hlinks⟩
      exact Or.inl ⟨hlinks, hdirect, hdirect, hnone he (if_neg fun h => h.2 hlinks)⟩
    · have hdirect : e.2.directBounds = .exact 0 := if_neg fun h => hlinks h.2
      refine Or.inr ⟨hlinks, hdirect, hdirect, ?_⟩
      have hidentity : e.2.identityObservation? e.1 = some
          ⟨e.1, e.2.identity.fileId, e.2.identity.linkCount, e.2.physicalBounds⟩ :=
        if_pos ⟨hkind, hlinks⟩
      have hone := hfilter he
      rw [hidentity] at hone
      exact hone
  · obtain ⟨e, he, hidentity⟩ := List.mem_filterMap.mp (hidentities.mem_iff.mp hi)
    refine ⟨_, hpaths.mem_iff.mpr (List.mem_map_of_mem he), ?_⟩
    exact (path_of_identityObservation? hidentity).1.symm

theorem physicalBounds_lower_le (entry : ScannedEntry) : entry.physicalBounds.lower ≤ satMax 64 := by
  unfold ScannedEntry.physicalBounds
  cases hbytes : entry.allocatedBytes with
  | none => exact Nat.zero_le _
  | some n =>
    unfold ScannedEntry.allocatedBytes at hbytes
    split at hbytes
    · cases hbytes
      exact Nat.min_le_right _ _
    · cases hbytes

/-- An entry is counted at its path or for its identity. -/
theorem entry_bytes_le (relative : RelativePath) (entry : ScannedEntry) :
    entry.directBounds.lower +
      (entry.identityObservation? relative).elim 0 (fun _ => satMax 64) ≤ satMax 64 := by
  have hphysical := physicalBounds_lower_le entry
  unfold ScannedEntry.directBounds ScannedEntry.identityObservation?
  by_cases hkind : entry.kind = .Directory
  · rw [if_neg fun h => h.1 hkind, if_neg fun h => h.1 hkind]
    exact Nat.zero_le _
  · by_cases hlinks : entry.identity.linkCount = some 1
    · rw [if_pos ⟨hkind, hlinks⟩, if_neg fun h => h.2 hlinks]
      exact hphysical
    · rw [if_neg fun h => hlinks h.2, if_pos ⟨hkind, hlinks⟩]
      exact le_of_eq (Nat.zero_add _)

theorem observed_bytes_le (scope : ScanScope) (scan : List (RelativePath × ScannedEntry)) :
    totalOf (fun m => m.allocatedBytes.lower) (scope.observed scan) +
      (identityObservations scan).length * satMax 64 ≤ scan.length * satMax 64 := by
  induction scan with
  | nil =>
    show 0 + 0 * satMax 64 ≤ 0 * satMax 64
    omega
  | cons e scan ih =>
    have hone := entry_bytes_le e.1 e.2
    have htotal : totalOf (fun m => m.allocatedBytes.lower) (scope.observed (e :: scan)) =
        e.2.directBounds.lower + totalOf (fun m => m.allocatedBytes.lower) (scope.observed scan) :=
      sumWhere_cons
    have hidentities : (identityObservations (e :: scan)).length * satMax 64 =
        (e.2.identityObservation? e.1).elim 0 (fun _ => satMax 64) +
          (identityObservations scan).length * satMax 64 := by
      unfold identityObservations
      rw [List.filterMap_cons]
      cases e.2.identityObservation? e.1 with
      | none => exact (Nat.zero_add _).symm
      | some i =>
        rw [List.length_cons, Nat.succ_mul, Nat.add_comm]
        rfl
    rw [htotal, hidentities, List.length_cons, Nat.succ_mul]
    omega

theorem observed_apparent_le (scope : ScanScope) (scan : List (RelativePath × ScannedEntry)) :
    totalOf SummaryMetrics.apparentBytes (scope.observed scan) ≤ scan.length * satMax 64 := by
  induction scan with
  | nil => exact Nat.zero_le _
  | cons e scan ih =>
    have htotal : totalOf SummaryMetrics.apparentBytes (scope.observed (e :: scan)) =
        e.2.apparentBytes + totalOf SummaryMetrics.apparentBytes (scope.observed scan) :=
      sumWhere_cons
    have hone : e.2.apparentBytes ≤ satMax 64 := by
      have hlt := e.2.metadata.len.toNat_lt
      unfold ScannedEntry.apparentBytes satMax
      split
      · exact Nat.zero_le _
      · omega
    rw [htotal, List.length_cons, Nat.succ_mul]
    omega

theorem agreedBytes_le {os : List IdentityObservation} {bound : Nat}
    (h : ∀ i ∈ os, i.allocatedBytes.lower ≤ bound) : agreedBytes os ≤ bound := by
  cases os with
  | nil => exact Nat.zero_le _
  | cons o os =>
    unfold agreedBytes
    dsimp only
    by_cases hall : ∀ x ∈ o :: os, x.allocatedBytes = .exact o.allocatedBytes.lower
    · rw [if_pos hall]
      exact h o List.mem_cons_self
    · rw [if_neg hall]
      exact Nat.zero_le _

theorem identityBytes_le {bound : Nat} (h : ∀ i ∈ identities, i.allocatedBytes.lower ≤ bound) :
    identityBytes identities ≤ identities.length * bound := by
  unfold identityBytes
  refine (List.sum_le_card_nsmul _ bound fun n hn => ?_).trans ?_
  · obtain ⟨id, -, rfl⟩ := List.mem_map.mp hn
    exact agreedBytes_le fun i hi => h i (List.mem_of_mem_filter hi)
  · rw [List.length_map, smul_eq_mul]
    refine Nat.mul_le_mul_right bound ?_
    exact ((List.dedup_sublist _).length_le).trans_eq (List.length_map _)

/-- As many entries as there are path ids do not saturate a total. -/
theorem Unsaturated.of_scan (hcount : paths.length + 1 < 2 ^ 64)
    (hpaths : paths.Perm (scope.observed scan))
    (hidentities : identities.Perm (identityObservations scan)) : Unsaturated paths identities := by
  have hlength : scan.length ≤ 2 ^ 64 := by
    have hsame := hpaths.length_eq
    unfold ScanScope.observed at hsame
    rw [List.length_map] at hsame
    omega
  have hfit : scan.length * satMax 64 ≤ satMax byteBits :=
    (Nat.mul_le_mul_right _ hlength).trans (by decide)
  have htotal (w : SummaryMetrics → Nat) : totalOf w paths = totalOf w (scope.observed scan) :=
    sumWhere_perm hpaths
  have hidentity : identityBytes identities ≤ (identityObservations scan).length * satMax 64 := by
    rw [← hidentities.length_eq]
    refine identityBytes_le fun i hi => ?_
    obtain ⟨e, -, hi⟩ := mem_identityObservations.mp (hidentities.mem_iff.mp hi)
    rw [(path_of_identityObservation? hi).2.2.2]
    exact physicalBounds_lower_le e.2
  constructor
  · have hall := observed_bytes_le scope scan
    rw [htotal]
    omega
  · rw [htotal]
    exact (observed_apparent_le scope scan).trans hfit

end

/-! ## What is counted -/

/-- The entry at `relative` adds nothing to a folder and nothing to an identity. -/
structure CountsNothing (p : PublishedGeneration) (paths : List PathObservation)
    (identities : List IdentityObservation)
    (contributions : List (FileId × AllocationContribution)) (relative : RelativePath) : Prop where
  apparent : ∀ f header, PageRecord.header f header ∈ p.childQueries.records →
    header.metrics.apparentBytes = totalUnder SummaryMetrics.apparentBytes f
      (paths.filter fun o => decide (o.path ≠ relative))
  allocated : ∀ f header, PageRecord.header f header ∈ p.childQueries.records →
    header.metrics.allocatedBytes.lower = totalUnder (fun m => m.allocatedBytes.lower) f
      (paths.filter fun o => decide (o.path ≠ relative)) +
      PageIndex.chargedUnder f (contributions.map Prod.snd)
  identities : ∀ i ∈ identities, i.path = relative → i.allocatedBytes = .exact 0

/-- A total, with one observation apart. -/
theorem totalUnder_apart {paths : List PathObservation} (hnodup : (paths.map PathObservation.path).Nodup)
    {o : PathObservation} (ho : o ∈ paths) (w : SummaryMetrics → Nat) (f : RelativePath) :
    totalUnder w f paths = totalUnder w f (paths.filter fun x => decide (x.path ≠ o.path)) +
      if o.under f then w o.metrics else 0 := by
  have hone : paths.filter (fun x => decide (x.path = o.path)) = [o] :=
    Keyed.filter_key_eq_singleton hnodup ho
  have hperm : paths.Perm ((paths.filter fun x => decide (x.path ≠ o.path)) ++ [o]) := by
    rw [← hone]
    have hsplit := List.filter_append_perm (fun x => decide (x.path ≠ o.path)) paths
    have hnot : (fun x : PathObservation => !decide (x.path ≠ o.path)) =
        fun x => decide (x.path = o.path) := by
      funext x
      rw [decide_not, Bool.not_not]
    rw [hnot] at hsplit
    exact hsplit.symm
  unfold totalUnder
  rw [sumWhere_perm hperm, sumWhere_append, sumWhere_cons, sumWhere_nil, Nat.add_zero]

theorem physicalSize_eq_zero {metadata : EntryMetadata} :
    metadata.physicalSize = 0 ↔ metadata.blocks = 0 := by
  rw [← UInt64.toNat_inj]
  unfold EntryMetadata.physicalSize satMax
  show _ ↔ metadata.blocks.toNat = 0
  omega

theorem RecordsScan.decoded {a : ActiveGeneration} {p : PublishedGeneration}
    {paths : List PathObservation} {identities : List IdentityObservation}
    {contributions : List (FileId × AllocationContribution)} {scope : ScanScope}
    {scan : List (RelativePath × ScannedEntry)} (ha : RecordsScan a scope scan)
    (h : PublishedFrom a p paths identities contributions) :
    paths.Perm (scope.observed scan) ∧ identities.Perm (identityObservations scan) ∧
      (scan.map Prod.fst).Nodup := by
  obtain ⟨hpaths, hidentities⟩ := h.decoded ha.paths ha.identities
  refine ⟨hpaths, hidentities, ?_⟩
  have hkeys : ((scope.observed scan).map PathObservation.path) = scan.map Prod.fst := List.map_map
  rw [← hkeys]
  exact (hpaths.map _).nodup_iff.mp h.tree.sorted.nodup_keys

/-- An entry counts nothing exactly when it has nothing to count. -/
theorem countsNothing_iff {a : ActiveGeneration} {p : PublishedGeneration}
    {paths : List PathObservation} {identities : List IdentityObservation}
    {contributions : List (FileId × AllocationContribution)} {scope : ScanScope}
    {scan : List (RelativePath × ScannedEntry)}
    (h : PublishedFrom a p paths identities contributions) (ha : RecordsScan a scope scan)
    {e : RelativePath × ScannedEntry} (he : e ∈ scan) :
    CountsNothing p paths identities contributions e.1 ↔
      e.2.kind = .Directory ∨ (e.2.metadata.len = 0 ∧ e.2.metadata.blocks = 0) := by
  obtain ⟨hpaths, hidentities, hnodup⟩ := ha.decoded h
  have hscan := ScannerConvention.of_scan hnodup hpaths hidentities
  have hbounded := Unsaturated.of_scan h.numbered hpaths hidentities
  obtain ⟨t, root, ht, hroot, -, hrecords⟩ := h.totalled hscan hbounded
  have hsorted := p.childQueries.sorted
  rw [← hrecords] at hsorted
  have ho : e.2.pathObservation e.1 (scope.coverage e.1 e.2) ∈ paths :=
    hpaths.mem_iff.mpr (List.mem_map_of_mem he)
  have hkeys := h.tree.sorted.nodup_keys
  have happarent (f : RelativePath) := totalUnder_apart hkeys ho SummaryMetrics.apparentBytes f
  have hallocated (f : RelativePath) :=
    totalUnder_apart hkeys ho (fun m => m.allocatedBytes.lower) f
  constructor
  · intro hnothing
    have hheader : PageRecord.header .root root ∈ p.childQueries.records := by
      rw [← hrecords]
      exact mem_headerRecords.mpr (PageIndex.mem_headers hroot)
    have hunder : PathObservation.under .root
        (e.2.pathObservation e.1 (scope.coverage e.1 e.2)) = true := RelativePath.startsWith_root _
    have hlen : e.2.apparentBytes = 0 := by
      have hall := happarent .root
      rw [← ht.apparent _ _ hroot, hnothing.apparent .root root hheader, if_pos hunder] at hall
      exact Nat.left_eq_add.mp hall
    have hdirect : e.2.directBounds.lower = 0 := by
      have hall := ht.allocated _ _ hroot
      rw [hnothing.allocated .root root hheader, hallocated .root, if_pos hunder] at hall
      exact Nat.left_eq_add.mp (Nat.add_right_cancel hall)
    by_cases hkind : e.2.kind = .Directory
    · exact Or.inl hkind
    · right
      unfold ScannedEntry.apparentBytes at hlen
      rw [if_neg hkind] at hlen
      refine ⟨UInt64.toNat_inj.mp hlen, physicalSize_eq_zero.mp ?_⟩
      have hphysical : e.2.physicalBounds = .exact e.2.metadata.physicalSize := by
        unfold ScannedEntry.physicalBounds ScannedEntry.allocatedBytes
        rw [if_pos hkind]
        rfl
      by_cases hlinks : e.2.identity.linkCount = some 1
      · unfold ScannedEntry.directBounds at hdirect
        rw [if_pos ⟨hkind, hlinks⟩, hphysical] at hdirect
        exact hdirect
      · have hidentity : e.2.identityObservation? e.1 = some
            ⟨e.1, e.2.identity.fileId, e.2.identity.linkCount, e.2.physicalBounds⟩ :=
          if_pos ⟨hkind, hlinks⟩
        have hzero := hnothing.identities _
          (hidentities.mem_iff.mpr (mem_identityObservations.mpr ⟨e, he, hidentity⟩)) rfl
        rw [hphysical] at hzero
        exact congrArg ByteBounds.lower hzero
  · intro hempty
    have hphysical : e.2.kind ≠ .Directory → e.2.physicalBounds = .exact 0 := by
      intro hkind
      obtain ⟨-, hblocks⟩ := hempty.resolve_left hkind
      unfold ScannedEntry.physicalBounds ScannedEntry.allocatedBytes
      rw [if_pos hkind, physicalSize_eq_zero.mpr hblocks]
      rfl
    have hlen : e.2.apparentBytes = 0 := by
      unfold ScannedEntry.apparentBytes
      split
      · rfl
      · rename_i hkind
        rw [(hempty.resolve_left hkind).1]
        rfl
    have hdirect : e.2.directBounds.lower = 0 := by
      unfold ScannedEntry.directBounds
      split
      · rename_i hfile
        rw [hphysical hfile.1]
        rfl
      · rfl
    refine ⟨fun f header hmem => ?_, fun f header hmem => ?_, fun i hi hpath => ?_⟩
    · rw [← hrecords] at hmem
      rw [ht.apparent f header (header?_of_record hsorted hmem), happarent f]
      show _ + (if _ then e.2.apparentBytes else 0) = _
      rw [hlen, ite_self, Nat.add_zero]
      rfl
    · rw [← hrecords] at hmem
      rw [ht.allocated f header (header?_of_record hsorted hmem), hallocated f]
      show _ + (if _ then e.2.directBounds.lower else 0) + _ = _
      rw [hdirect, ite_self, Nat.add_zero]
      rfl
    · obtain ⟨x, hx, hi⟩ := mem_identityObservations.mp (hidentities.mem_iff.mp hi)
      obtain ⟨hxpath, hkind, -, hbytes⟩ := path_of_identityObservation? hi
      obtain rfl : x = e := List.inj_on_of_nodup_map hnodup hx he (hxpath.symm.trans hpath)
      rw [hbytes, hphysical hkind]

/-- A folder of another file system counts nothing. An excluded entry counts nothing exactly when it
is a folder or has neither length nor blocks. -/
theorem unscanned_counts_nothing_iff {a : ActiveGeneration} {p : PublishedGeneration}
    (hp : PublishesInto a p) {scope : ScanScope} {scan : List (RelativePath × ScannedEntry)}
    (ha : RecordsScan a scope scan) {e : RelativePath × ScannedEntry} (he : e ∈ scan)
    (hreason : scope.reason e.1 e.2 = some .FilesystemBoundary ∨
      ∃ pattern, scope.reason e.1 e.2 = some (.Excluded pattern)) :
    ∃ paths identities contributions, PublishedFrom a p paths identities contributions ∧
      (CountsNothing p paths identities contributions e.1 ↔
        ((∃ pattern, scope.reason e.1 e.2 = some (.Excluded pattern)) →
          e.2.kind = .Directory ∨ (e.2.metadata.len = 0 ∧ e.2.metadata.blocks = 0))) := by
  obtain ⟨paths, identities, contributions, h⟩ := hp.publishedFrom
  refine ⟨paths, identities, contributions, h, ?_⟩
  rw [countsNothing_iff h ha he]
  rcases hreason with hboundary | hexcluded
  · have hkind := ScanScope.kind_of_boundary hboundary
    exact iff_of_true (Or.inl hkind) fun _ => Or.inl hkind
  · exact ⟨fun hempty _ => hempty, fun hempty => hempty hexcluded⟩

/-- A published run, with the generation that it was made of. -/
theorem publishesInto_of_joined (session : ScanSessionId) (generation : ScanGeneration)
    (calls : List StoreCall) {a : ActiveGeneration} {w : Work} {t : PageIndex} {root : StoredHeader}
    (ha : (ScanStore.machine.run (ScanStore.new session generation) calls).active = some a)
    (hnone : (ScanStore.machine.run (ScanStore.new session generation) calls).published = none)
    (h : (ScanStore.machine.run (ScanStore.new session generation) calls).joined =
      some (w, t, root))
    (hid : w.nextRunId.toNat + 1 < 2 ^ 64) (hsorted : SortedBy PageRecord.key t.insertedRecords) :
    ∃ p, PublishesInto a p ∧ p.rootPageMetrics = root.metrics := by
  obtain ⟨p, hp, -, hmetrics, -⟩ := published_of_joined session generation calls h hid hsorted
  have hsettled := ScanStore.machine.run_invariant
    (ScanStore.settled_new session generation) (fun s call h => (h.step call).1) calls
  rw [Machine.run_append] at hp
  generalize ScanStore.machine.run (ScanStore.new session generation) calls = s
    at ha hnone hp hsettled
  have houtcome := publish_outcome Io.none ha (hsettled.valid a ha)
  change (ScanStore.answered (ScanStore.publish Io.none s)).1.published = some p at hp
  cases hpublish : ScanStore.publish Io.none s with
  | ok g s' =>
    rw [hpublish] at houtcome hp
    obtain ⟨-, -, -, -, -, -, ⟨-, p', hp', hinto⟩ | ⟨hsame, -⟩⟩ := houtcome
    · obtain rfl : p = p' := Option.some_inj.mp (hp.symm.trans hp')
      exact ⟨p, hinto, hmetrics⟩
    · have hkept : s'.published = some p := hp
      rw [hsame, hnone] at hkept
      cases hkept
  | error e s' =>
    rw [hpublish] at houtcome hp
    have hkept : s'.published = some p := hp
    rw [houtcome.1.published, hnone] at hkept
    cases hkept

/-- A file of 1234 bytes in eight blocks that `*.iso` excludes. -/
def excludedImage : RelativePath × ScannedEntry :=
  (⟨[⟨[97], valid_a⟩]⟩, ⟨⟨false, false, 1234, none, 1, 8⟩, [], ⟨.Inode 1 7, some 1, false⟩⟩)

def excludingImages : ScanScope := ⟨fun _ isDir => if isDir then none else some "*.iso", some 1, false⟩

theorem excludedImage_published : ∃ a p, PublishesInto a p ∧
    RecordsScan a excludingImages [excludedImage] ∧ p.rootPageMetrics.apparentBytes = 1234 ∧
    p.rootPageMetrics.allocatedBytes = .exact 4096 := by
  have hactive : (ScanStore.machine.run (ScanStore.new ⟨0⟩ ⟨0⟩)
      [.appendObservationBatch Io.none (excludingImages.observed [excludedImage]) []]).active.map
      (fun a => (recordsOf a.pathRuns.intoRuns, recordsOf a.identityRuns.intoRuns)) =
      some ((excludingImages.observed [excludedImage]).map Fact.path, []) := by decide +kernel
  obtain ⟨a, ha, hfacts⟩ := Option.map_eq_some_iff.mp hactive
  rw [Prod.mk.injEq] at hfacts
  have hjoined : (ScanStore.machine.run (ScanStore.new ⟨0⟩ ⟨0⟩)
      [.appendObservationBatch Io.none (excludingImages.observed [excludedImage]) []]).joined.any
      (fun j => decide (j.1.nextRunId.toNat + 1 < 2 ^ 64 ∧ SortedBy PageRecord.key j.2.1.insertedRecords ∧
        j.2.2.metrics.apparentBytes = 1234 ∧ j.2.2.metrics.allocatedBytes = .exact 4096)) =
      true := by decide +kernel
  have hnone : (ScanStore.machine.run (ScanStore.new ⟨0⟩ ⟨0⟩)
      [.appendObservationBatch Io.none (excludingImages.observed [excludedImage]) []]).published =
      none := Option.isNone_iff_eq_none.mp (by decide +kernel)
  obtain ⟨⟨w, t, root⟩, hrun, hchecked⟩ := (Option.any_eq_true _ _).mp hjoined
  obtain ⟨hid, hsorted, happarent, hallocated⟩ := of_decide_eq_true hchecked
  obtain ⟨p, hinto, hmetrics⟩ := publishesInto_of_joined ⟨0⟩ ⟨0⟩ _ ha hnone hrun hid hsorted
  refine ⟨a, p, hinto, ⟨?_, ?_⟩, by rw [hmetrics, happarent], by rw [hmetrics, hallocated]⟩
  · rw [hfacts.1]
  · rw [hfacts.2]
    rfl

theorem unscanned_counts_nothing_iff_excludedImage : ∃ a p, PublishesInto a p ∧
    ∃ paths identities contributions, PublishedFrom a p paths identities contributions ∧
      (CountsNothing p paths identities contributions excludedImage.1 ↔
        ((∃ pattern, excludingImages.reason excludedImage.1 excludedImage.2 =
            some (.Excluded pattern)) → excludedImage.2.kind = .Directory ∨
          (excludedImage.2.metadata.len = 0 ∧ excludedImage.2.metadata.blocks = 0))) := by
  obtain ⟨a, p, hinto, hrecords, -⟩ := excludedImage_published
  exact ⟨a, p, hinto, unscanned_counts_nothing_iff hinto hrecords List.mem_cons_self
    (Or.inr ⟨"*.iso", rfl⟩)⟩

/-- The excluded file counts all its bytes. -/
theorem excluded_file_counted : ∃ a p, PublishesInto a p ∧
    RecordsScan a excludingImages [excludedImage] ∧
    excludingImages.reason excludedImage.1 excludedImage.2 = some (.Excluded "*.iso") ∧
    p.rootPageMetrics.apparentBytes = 1234 ∧ p.rootPageMetrics.allocatedBytes = .exact 4096 ∧
    ∀ paths identities contributions, PublishedFrom a p paths identities contributions →
      ¬CountsNothing p paths identities contributions excludedImage.1 := by
  obtain ⟨a, p, hinto, hrecords, happarent, hallocated⟩ := excludedImage_published
  refine ⟨a, p, hinto, hrecords, rfl, happarent, hallocated, ?_⟩
  intro paths identities contributions h hnothing
  rcases (countsNothing_iff h hrecords List.mem_cons_self).mp hnothing with hkind | ⟨hlen, -⟩
  · exact absurd hkind (by decide)
  · exact absurd hlen (by decide)

end Excise
