import Excise.Store.Reduction
import Excise.Lib.KWayMerge
import Mathlib.Order.OrderDual

/-!
# The page index

`materialize_child_queries`: the table that joins path observations, identity observations,
directory summaries and allocation contributions, and the metric-ordered child-query records
written from it. The table holds one header per folder and one entry per recorded path; a record
key names exactly one of them, so both are kept as lists with distinct paths.
-/

namespace Excise
set_option autoImplicit false

structure StoredHeader where
  metrics : SummaryMetrics
  coverage : Coverage
  shared : Option SummaryMetrics
  deriving DecidableEq

structure StoredIdentity where
  fileId : FileId
  declaredLinks : Option Nat
  allocatedBytes : ByteBounds
  deriving DecidableEq

namespace StoredIdentity

def fromObservation (o : IdentityObservation) : StoredIdentity :=
  ⟨o.fileId, o.declaredLinks, o.allocatedBytes⟩

def fromSnapshot (s : EntrySnapshot) : Option StoredIdentity :=
  s.identity.map fun identity =>
    ⟨identity.fileId, identity.linkCount,
      match s.allocatedBytes with
      | some bytes => .exact bytes
      | none => .unknown⟩

def intoObservation (i : StoredIdentity) (path : RelativePath) : IdentityObservation :=
  ⟨path, i.fileId, i.declaredLinks, i.allocatedBytes⟩

end StoredIdentity

structure StoredEntry where
  observation : PathObservation
  metrics : SummaryMetrics
  coverage : Coverage
  identity : Option StoredIdentity
  directorySummarySeen : Bool
  leafAllocationSeen : Bool
  deriving DecidableEq

structure ScanPageEntry where
  path : RelativePath
  kind : PathEntryKind
  metrics : SummaryMetrics
  coverage : Coverage
  snapshot : Option EntrySnapshot
  deriving DecidableEq

/-- `clear_uncertain_physical_bounds`. -/
def clearUncertainPhysicalBounds (m : SummaryMetrics) : Coverage → SummaryMetrics
  | .Uncertain => m.openUpper
  | .Complete => m

namespace StoredEntry

abbrev path (e : StoredEntry) : RelativePath := e.observation.path

def fromObservation (o : PathObservation) : StoredEntry :=
  let identity := o.snapshot.bind StoredIdentity.fromSnapshot
  { observation := o
    metrics := o.metrics
    coverage := o.coverage
    identity := identity
    directorySummarySeen := false
    leafAllocationSeen := decide (o.kind ≠ .Directory) && identity.any fun identity =>
      decide (identity.declaredLinks = some 1 ∧ o.metrics.allocatedBytes = identity.allocatedBytes ∧
        o.metrics.reclaimableBytes = identity.allocatedBytes) }

/-- The metrics and coverage a page shows, before uncertain upper bounds are cleared. -/
def shown (e : StoredEntry) : SummaryMetrics × Coverage :=
  if e.observation.kind = .Directory then
    if e.directorySummarySeen then (e.metrics, e.coverage)
    else ({ e.metrics with allocatedBytes := .unknown, reclaimableBytes := .unknown }, .Uncertain)
  else if e.identity.isNone then
    ({ e.metrics with allocatedBytes := .unknown, reclaimableBytes := .unknown }, .Uncertain)
  else if !e.leafAllocationSeen then
    -- several names: the allocation is a shared child of their lowest common ancestor
    ({ e.metrics with allocatedBytes := .exact 0, reclaimableBytes := .exact 0 }, e.coverage)
  else (e.metrics, e.coverage)

def intoPageEntry (e : StoredEntry) : ScanPageEntry where
  path := e.path
  kind := e.observation.kind
  metrics := clearUncertainPhysicalBounds e.shown.1 e.shown.2
  coverage := e.shown.2
  snapshot := e.observation.snapshot

theorem shown_directory {e : StoredEntry} (hk : e.observation.kind = .Directory)
    (hseen : e.directorySummarySeen = true) : e.shown = (e.metrics, e.coverage) := by
  unfold shown
  rw [if_pos hk, if_pos hseen]

end StoredEntry

inductive PageIndexError where
  | DuplicateRecord
  | MissingEntry
  | MissingHeader
  | SummaryForNonDirectory
  | IdentityForDirectory
  | InvalidAllocationTarget
  deriving DecidableEq, Repr

structure PageIndex where
  headers : List (RelativePath × StoredHeader)
  entries : List StoredEntry

namespace PageIndex

def empty : PageIndex := ⟨[], []⟩

def entry? (t : PageIndex) (p : RelativePath) : Option StoredEntry :=
  t.entries.find? fun e => e.path = p

def header? (t : PageIndex) (p : RelativePath) : Option StoredHeader :=
  (t.headers.find? fun h => h.1 = p).map Prod.snd

/-- `table.insert` at the key of an entry that is there. -/
def setEntry (t : PageIndex) (p : RelativePath) (entry : StoredEntry) : PageIndex :=
  { t with entries := t.entries.map fun e => if e.path = p then entry else e }

def setHeader (t : PageIndex) (p : RelativePath) (header : StoredHeader) : PageIndex :=
  { t with headers := t.headers.map fun h => if h.1 = p then (p, header) else h }

/-- `flush_path_batch`, one observation. -/
def indexPath (t : PageIndex) (o : PathObservation) : Except PageIndexError PageIndex :=
  if o.path.isRoot then .error .MissingEntry
  else
    match t.entry? o.path with
    | some _ => .error .DuplicateRecord
    | none => .ok { t with entries := t.entries ++ [.fromObservation o] }

/-- `flush_identity_batch`, one observation. -/
def indexIdentity (t : PageIndex) (o : IdentityObservation) : Except PageIndexError PageIndex :=
  match t.entry? o.path with
  | none => .error .MissingEntry
  | some entry =>
    if entry.observation.kind = .Directory then .error .IdentityForDirectory
    else if (entry.identity.any fun existing => existing ≠ .fromObservation o) then
      .error .DuplicateRecord
    else .ok (t.setEntry o.path { entry with identity := some (.fromObservation o) })

/-- `flush_directory_summary_batch`, one summary. -/
def indexSummary (t : PageIndex) (s : DirectorySummary) : Except PageIndexError PageIndex :=
  match t.header? s.path with
  | some _ => .error .DuplicateRecord
  | none =>
    let t := { t with headers := t.headers ++ [(s.path, ⟨s.metrics, s.coverage, none⟩)] }
    if s.path.isRoot then .ok t
    else
      match t.entry? s.path with
      | none => .error .MissingEntry
      | some entry =>
        if entry.observation.kind ≠ .Directory then .error .SummaryForNonDirectory
        else if entry.directorySummarySeen then .error .DuplicateRecord
        else
          .ok (t.setEntry s.path
            { entry with metrics := s.metrics, coverage := s.coverage, directorySummarySeen := true })

def updateHeaderPhysical (t : PageIndex) (folder : RelativePath) (c : AllocationContribution)
    (addShared : Bool) : Except PageIndexError PageIndex :=
  match t.header? folder with
  | none => .error .MissingHeader
  | some header =>
    .ok (t.setHeader folder
      { header with
        metrics := header.metrics.addPhysical c.allocatedBytes c.reclaimableBytes
        shared :=
          if addShared then
            some ((header.shared.getD .zero).addPhysical c.allocatedBytes c.reclaimableBytes)
          else header.shared })

def updateEntryPhysical (t : PageIndex) (child : RelativePath) (c : AllocationContribution)
    (isLeaf : Bool) : Except PageIndexError PageIndex :=
  match t.entry? child with
  | none => .error .MissingEntry
  | some entry =>
    if isLeaf then
      if entry.observation.kind = .Directory then .error .InvalidAllocationTarget
      else
        .ok (t.setEntry child
          { entry with
            metrics :=
              { entry.metrics with
                allocatedBytes := c.allocatedBytes
                reclaimableBytes := c.reclaimableBytes }
            leafAllocationSeen := true })
    else if entry.observation.kind ≠ .Directory then .error .InvalidAllocationTarget
    else
      .ok (t.setEntry child
        { entry with metrics := entry.metrics.addPhysical c.allocatedBytes c.reclaimableBytes })

/-- The ancestor of `p` at depth `n`. -/
def ancestorAt (p : RelativePath) (n : Nat) : RelativePath := ⟨p.components.take n⟩

/-- One turn of the loop over the recipient's components: the folder at depth `i`, then its child
on the way to the recipient. -/
def chargeLevel (c : AllocationContribution) (t : PageIndex) (i : Nat) :
    Except PageIndexError PageIndex :=
  (t.updateHeaderPhysical (ancestorAt c.recipient i) c false).bind fun t =>
    t.updateEntryPhysical (ancestorAt c.recipient (i + 1)) c
      (decide (c.placement = .Leaf ∧ i + 1 = c.recipient.depth))

def applyAllocation (t : PageIndex) (c : AllocationContribution) :
    Except PageIndexError PageIndex :=
  ((List.range c.recipient.depth).foldlM (chargeLevel c) t).bind fun t =>
    if c.placement = .Shared then t.updateHeaderPhysical c.recipient c true else .ok t

end PageIndex

/-! ## Child-query records -/

inductive PageRecord where
  | header (folder : RelativePath) (header : StoredHeader)
  | entry (folder : RelativePath) (entry : StoredEntry)
  deriving DecidableEq

/-- Folder, then its header, then its entries by descending allocated lower bound and path. -/
structure PageKey where
  folder : RelativePath
  rank : WithBot (OrderDual Nat)
  child : RelativePath

instance : LinearOrder PageKey :=
  LinearOrder.lift' (fun k => toLex (k.folder, toLex (k.rank, k.child))) fun a b h => by
    cases a
    cases b
    simpa [toLex_inj] using h

def PageRecord.key : PageRecord → PageKey
  | .header folder _ => ⟨folder, ⊥, .root⟩
  | .entry folder e =>
    ⟨folder, ↑(OrderDual.toDual e.intoPageEntry.metrics.allocatedBytes.lower), e.path⟩

namespace PageIndex

/-- `build_metric_query_index`: the records in the order of the query table. -/
def queryRecords (t : PageIndex) : List PageRecord :=
  let headers := t.headers.map fun h => PageRecord.header h.1 h.2
  let entries := t.entries.filterMap fun e => e.path.relativeParent.map fun p => PageRecord.entry p e
  (headers ++ entries).mergeSort fun a b => decide (a.key ≤ b.key)

/-- The four indexing passes of `materialize_child_queries`. -/
def build (paths : List PathObservation) (identities : List IdentityObservation)
    (summaries : List DirectorySummary) (contributions : List (FileId × AllocationContribution)) :
    Except PageIndexError PageIndex :=
  (paths.foldlM indexPath empty).bind fun t =>
    (identities.foldlM indexIdentity t).bind fun t =>
      (summaries.foldlM indexSummary t).bind fun t =>
        (contributions.map Prod.snd).foldlM applyAllocation t

end PageIndex

structure PageIndexMetadata where
  rootMetrics : SummaryMetrics
  rootCoverage : Coverage
  deriving DecidableEq

def materializeChildQueries (paths : List PathObservation) (identities : List IdentityObservation)
    (summaries : List DirectorySummary) (contributions : List (FileId × AllocationContribution)) :
    Except PageIndexError (List PageRecord × PageIndexMetadata) :=
  (PageIndex.build paths identities summaries contributions).bind fun t =>
    match t.header? .root with
    | none => .error .MissingHeader
    | some root => .ok (t.queryRecords, ⟨root.metrics, root.coverage⟩)

/-- `visit_child_query_entries`: every recorded path with its identity, in record order. -/
def visitChildQueryEntries (records : List PageRecord) :
    List (PathObservation × Option IdentityObservation) :=
  records.filterMap fun
    | .header _ _ => none
    | .entry _ e => some (e.observation, e.identity.map fun i => i.intoObservation e.path)

end Excise
