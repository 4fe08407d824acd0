import Excise.Store.Pages

/-!
# The canonical scan report

The rows of `report.rs` over a published generation: the root from the metrics kept beside the
records, and every recorded entry in record order. The pages of the same generation are read by
`page`, which clears upper bounds by rules of its own.
-/

namespace Excise
set_option autoImplicit false

inductive NodeState where
  | Scanning
  | Complete
  | Uncertain
  deriving DecidableEq, Repr

inductive ScanReportState where
  | Exact
  | Uncertain
  | Cancelled
  | SummaryOnly
  deriving DecidableEq, Repr

def canonicalNodeState (coverage : Coverage) (metrics : SummaryMetrics) : NodeState :=
  if coverage = .Uncertain ∨ metrics.allocatedBytes.upper = none ∨
      metrics.reclaimableBytes.upper = none then .Uncertain
  else .Complete

def canonicalNodeKind : PathEntryKind → NodeKind
  | .Directory => .Directory
  | .File => .File
  | .Link => .Link

/-- A serialized entry; its path is relative to the root of the report. -/
structure ScanReportEntry where
  path : RelativePath
  kind : NodeKind
  state : NodeState
  identity : Option NativeIdentity
  allocatedBytes : ByteBounds
  reclaimableBytes : ByteBounds
  apparentBytes : Nat
  descendants : Nat
  unscannedReason : Option String
  deriving DecidableEq

def serializeCanonicalEntry (path : RelativePath) (kind : NodeKind)
    (identity : Option NativeIdentity) (metrics : SummaryMetrics) (coverage : Coverage) :
    ScanReportEntry :=
  let state := canonicalNodeState coverage metrics
  { path := path
    kind := kind
    state := state
    identity := identity
    allocatedBytes := metrics.allocatedBytes
    reclaimableBytes := metrics.reclaimableBytes
    apparentBytes := metrics.apparentBytes
    descendants := metrics.descendants
    unscannedReason := if state = .Uncertain then some "scan coverage is uncertain" else none }

/-- `CanonicalScanEntryRef`. -/
def canonicalScanEntry (entry : ScanPageEntry) : ScanReportEntry :=
  serializeCanonicalEntry entry.path (canonicalNodeKind entry.kind)
    (entry.snapshot.bind EntrySnapshot.identity) entry.metrics entry.coverage

/-- `visit_child_query_page_entries`. -/
def visitChildQueryPageEntries (records : List PageRecord) : List ScanPageEntry :=
  (storedEntries records).map StoredEntry.intoPageEntry

/-- A row of the table, without its path as the display shows it. -/
structure CanonicalTableRow where
  state : NodeState
  allocated : String
  reclaimable : String
  apparent : Nat
  kind : NodeKind
  path : RelativePath
  deriving DecidableEq

def displayBounds (bounds : ByteBounds) : String :=
  match bounds.upper with
  | some upper => if upper = bounds.lower then toString upper else s!"{bounds.lower}..{upper}"
  | none => if bounds.lower = 0 then "unknown" else s!">={bounds.lower}"

def canonicalTableRow (path : RelativePath) (kind : NodeKind) (state : NodeState)
    (metrics : SummaryMetrics) : CanonicalTableRow :=
  ⟨state, displayBounds metrics.allocatedBytes, displayBounds metrics.reclaimableBytes,
    metrics.apparentBytes, kind, path⟩

namespace PublishedGeneration

/-- `CanonicalRootEntryRef`. -/
def canonicalRootEntry (p : PublishedGeneration) (rootIdentity : Option NativeIdentity) :
    ScanReportEntry :=
  serializeCanonicalEntry .root .Root rootIdentity p.rootPageMetrics p.rootPageCoverage

/-- The entries of the JSON report. -/
def streamingCanonicalScanEntries (p : PublishedGeneration)
    (rootIdentity : Option NativeIdentity) : List ScanReportEntry :=
  p.canonicalRootEntry rootIdentity ::
    (visitChildQueryPageEntries p.childQueries.records).map canonicalScanEntry

/-- The rows of the table below its header line. -/
def writeCanonicalScanReportTable (p : PublishedGeneration) : List CanonicalTableRow :=
  canonicalTableRow .root .Root (canonicalNodeState p.rootPageCoverage p.rootPageMetrics)
      p.rootPageMetrics ::
    (visitChildQueryPageEntries p.childQueries.records).map fun entry =>
      canonicalTableRow entry.path (canonicalNodeKind entry.kind)
        (canonicalNodeState entry.coverage entry.metrics) entry.metrics

/-- `canonical_scan_report_state`, from the unreadable entries the run counted. -/
def canonicalScanReportState (p : PublishedGeneration) (unreadableEntries : Nat)
    (cancelled : Bool) : ScanReportState :=
  if cancelled then .Cancelled
  else if unreadableEntries > 0 ∨ p.unrecordedPathCount > 0 ∨
      canonicalNodeState p.rootPageCoverage p.rootPageMetrics = .Uncertain then .Uncertain
  else .Exact

end PublishedGeneration

/-! ## What the pages list -/

/-- Some page of the folder lists the entry. -/
def PublishedGeneration.Lists (p : PublishedGeneration) (folder : RelativePath)
    (x : ScanPageEntry) : Prop :=
  ∃ after limit page, p.folderPages folder after limit = .ok page ∧ x ∈ page.entries

/-- The folders reached from the root through listed directories. -/
inductive ListedFolder (p : PublishedGeneration) : RelativePath → Prop
  | root : ListedFolder p .root
  | child {folder : RelativePath} {x : ScanPageEntry} (reached : ListedFolder p folder)
      (listed : p.Lists folder x) (directory : x.kind = .Directory) : ListedFolder p x.path

/-- The entries the pages list from the root through every folder. -/
def Listed (p : PublishedGeneration) (x : ScanPageEntry) : Prop :=
  ∃ folder, ListedFolder p folder ∧ p.Lists folder x

/-- The row gives these bounds and the state that follows from them. -/
structure ScanReportEntry.Shows (row : ScanReportEntry) (metrics : SummaryMetrics)
    (coverage : Coverage) : Prop where
  allocated : row.allocatedBytes = metrics.allocatedBytes
  reclaimable : row.reclaimableBytes = metrics.reclaimableBytes
  apparent : row.apparentBytes = metrics.apparentBytes
  state : row.state = canonicalNodeState coverage metrics

/-- The report agrees with the pages. -/
structure ReportAgrees (p : PublishedGeneration) (rootIdentity : Option NativeIdentity) : Prop where
  root : ∃ row, (p.streamingCanonicalScanEntries rootIdentity).filter (fun r => r.path = .root) =
    [row] ∧ ∀ request page, p.page request = .ok page → row.Shows page.rootMetrics page.rootCoverage
  entry : ∀ x, Listed p x → ∃ row,
    (p.streamingCanonicalScanEntries rootIdentity).filter (fun r => r.path = x.path) = [row] ∧
      row.Shows x.metrics x.coverage
  listed : ∀ row ∈ p.streamingCanonicalScanEntries rootIdentity,
    row.path = .root ∨ ∃ x, Listed p x ∧ x.path = row.path
  table : p.writeCanonicalScanReportTable =
    (p.streamingCanonicalScanEntries rootIdentity).map fun row =>
      ⟨row.state, displayBounds row.allocatedBytes, displayBounds row.reclaimableBytes,
        row.apparentBytes, row.kind, row.path⟩

end Excise
