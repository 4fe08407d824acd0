import Excise.Rail.State
import Excise.Report.Canonical
import Excise.Store.FilteredPages
import Excise.Tiles.Board

/-!
# The page on screen

`SnapshotTree` of `snapshot_tree.rs`: one page of a map as a small tree. The folders above the
page's folder are looked up in the file system while the tree is built; its entries are what the
scan saw.
-/

namespace Excise
set_option autoImplicit false

inductive ModelError where
  | MemoryExhausted (required limit : Nat)
  | Invariant (message : String)
  deriving DecidableEq, Repr

def NodeKind.isDirectory : NodeKind → Bool
  | .Root | .Directory => true
  | _ => false

structure Node where
  id : NodeId
  parent : Option NodeId
  name : OsString
  kind : NodeKind
  state : NodeState
  children : List NodeId
  metrics : SummaryMetrics
  snapshot : EntrySnapshot

/-- What `symlink_metadata` and `identity_for` say of a path they can identify. -/
structure LiveEntry where
  identity : NativeIdentity
  isSymlink : Bool
  isDir : Bool
  length : Nat
  physicalSize : Option Nat
  modifiedNanos : Option Nat

/-- `size_of` of a node and of an optional path. -/
structure NodeLayout where
  node : Nat
  path : Nat

structure SnapshotNode where
  name : OsString
  kind : NodeKind
  metrics : SummaryMetrics
  coverage : Coverage
  relative : Option RelativePath
  scanSnapshot : Option EntrySnapshot
  useLiveSnapshot : Bool

structure SnapshotTree where
  rootPath : NativePath
  generation : ScanGeneration
  currentRelative : RelativePath
  currentId : NodeId
  nodes : List Node
  relativePaths : List (Option RelativePath)
  pageMemoryLimit : Nat
  scanStoreStats : Nat × Nat
  retainedBytes : Nat
  nextAfter : Option PageCursor
  unrecordedPathCount : Nat
  filter : Option FilterPattern
  provisional : Bool

def stateFor : Coverage → NodeState
  | .Complete => .Complete
  | .Uncertain => .Uncertain

def snapshotFromMetrics (kind : NodeKind) (metrics : SummaryMetrics) : EntrySnapshot where
  identity := none
  kind := kind
  apparentBytes := metrics.apparentBytes
  allocatedBytes := if kind.isDirectory then none else metrics.allocatedBytes.upper
  modifiedNanos := none

def LiveEntry.kind (e : LiveEntry) : NodeKind :=
  if e.isSymlink || e.identity.reparsePoint then .Link else if e.isDir then .Directory else .File

def snapshotForPath (live : RelativePath → Option LiveEntry) (relative : RelativePath)
    (kind : NodeKind) (metrics : SummaryMetrics) : EntrySnapshot :=
  match live relative with
  | none => snapshotFromMetrics kind metrics
  | some e =>
    if !(decide (kind = .Root) && decide (e.kind = .Directory)) && decide (e.kind ≠ kind) then
      snapshotFromMetrics kind metrics
    else
      { identity := some e.identity
        kind := kind
        apparentBytes := if kind.isDirectory then 0 else e.length
        allocatedBytes := if kind.isDirectory then none else e.physicalSize
        modifiedNanos := e.modifiedNanos }

def sharedAllocationName : OsString := "Shared allocation".toUTF8.toList

/-- The last component of a path, empty for the root. -/
def lastName (path : RelativePath) : OsString := (path.components.getLast?.map Component.bytes).getD []

def pageRetainedBytes (layout : NodeLayout) (page : ScanPage) : Nat :=
  let nodeCount := satAdd 64 (satAdd 64 (satAdd 64 page.entries.length page.folder.depth) 1)
    page.sharedAllocation.toList.length
  let names := satAdd 64 (satAdd 64 (page.entries.map fun e => (lastName e.path).length).sum
      (page.folder.components.map fun c => c.bytes.length).sum)
    (page.sharedAllocation.toList.length * sharedAllocationName.length)
  satAdd 64 (satAdd 64 (min (nodeCount * layout.node) (satMax 64)) names)
    (min (nodeCount * layout.path) (satMax 64))

namespace SnapshotTree
variable (live : RelativePath → Option LiveEntry)

def nodeSnapshot (input : SnapshotNode) : EntrySnapshot :=
  match input.scanSnapshot with
  | some snapshot => snapshot
  | none =>
    if input.useLiveSnapshot then
      match input.relative with
      | none => snapshotFromMetrics input.kind input.metrics
      | some relative => snapshotForPath live relative input.kind input.metrics
    else snapshotFromMetrics input.kind input.metrics

/-- The node `push_node` makes of its input. -/
def nodeOf (provisional : Bool) (id parent : NodeId) (input : SnapshotNode) : Node where
  id := id
  parent := some parent
  name := input.name
  kind := input.kind
  state :=
    if provisional && input.kind.isDirectory then .Scanning else stateFor input.coverage
  children := []
  metrics := input.metrics
  snapshot := nodeSnapshot live input

def pushNode (tree : SnapshotTree) (parent : NodeId) (input : SnapshotNode) :
    Except ModelError (SnapshotTree × NodeId) :=
  if tree.nodes.length ≥ 2 ^ 32 then
    .error (.MemoryExhausted (satMax 64) tree.pageMemoryLimit)
  else
    let id : NodeId := ⟨tree.nodes.length⟩
    match tree.nodes[parent.index]? with
    | none => .error (.Invariant "snapshot page parent disappeared while building")
    | some p =>
      .ok ({ tree with
        nodes := tree.nodes.set parent.index { p with children := p.children ++ [id] } ++
          [nodeOf live tree.provisional id parent input]
        relativePaths := tree.relativePaths ++ [input.relative] }, id)

/-- The folder at the level `index` above, or the page's own. -/
def ancestorNode (folder : RelativePath) (folderMetrics : SummaryMetrics)
    (folderCoverage : Coverage) (index : Nat) (component : Component) : SnapshotNode where
  name := component.bytes
  kind := .Directory
  metrics := if index + 1 = folder.depth then folderMetrics else .zero
  coverage := if index + 1 = folder.depth then folderCoverage else .Uncertain
  relative := some ⟨folder.components.take (index + 1)⟩
  scanSnapshot := none
  useLiveSnapshot := true

/-- The loop of `append_ancestors` from the level `index` on. -/
def appendAncestorsFrom (folder : RelativePath) (folderMetrics : SummaryMetrics)
    (folderCoverage : Coverage) :
    List Component → Nat → NodeId → SnapshotTree → Except ModelError (SnapshotTree × NodeId)
  | [], _, parent, tree => .ok (tree, parent)
  | component :: rest, index, parent, tree =>
    (tree.pushNode live parent
      (ancestorNode folder folderMetrics folderCoverage index component)).bind fun pushed =>
      appendAncestorsFrom folder folderMetrics folderCoverage rest (index + 1) pushed.2 pushed.1

def appendAncestors (folder : RelativePath) (folderMetrics : SummaryMetrics)
    (folderCoverage : Coverage) (tree : SnapshotTree) : Except ModelError (SnapshotTree × NodeId) :=
  appendAncestorsFrom live folder folderMetrics folderCoverage folder.components 0 ⟨0⟩ tree

def entryNode (entry : ScanPageEntry) : SnapshotNode where
  name := lastName entry.path
  kind := canonicalNodeKind entry.kind
  metrics := entry.metrics
  coverage := entry.coverage
  relative := some entry.path
  scanSnapshot := entry.snapshot
  useLiveSnapshot := false

def sharedNode (shared : SharedAllocationSummary) : SnapshotNode where
  name := sharedAllocationName
  kind := .Synthetic
  metrics := shared.metrics
  coverage := shared.coverage
  relative := none
  scanSnapshot := none
  useLiveSnapshot := false

def appendEntries : List ScanPageEntry → SnapshotTree → Except ModelError SnapshotTree
  | [], tree => .ok tree
  | entry :: rest, tree =>
    match entry.path.components.getLast? with
    | none => .error (.Invariant "scan page entry had no name")
    | some _ =>
      (tree.pushNode live tree.currentId (entryNode entry)).bind fun pushed =>
        appendEntries rest pushed.1

def appendPageEntries (entries : List ScanPageEntry)
    (sharedAllocation : Option SharedAllocationSummary) (tree : SnapshotTree) :
    Except ModelError SnapshotTree :=
  (appendEntries live entries tree).bind fun tree =>
    match sharedAllocation with
    | none => .ok tree
    | some shared => (tree.pushNode live tree.currentId (sharedNode shared)).map Prod.fst

def rootNode (page : ScanPage) (provisional : Bool) : Node where
  id := ⟨0⟩
  parent := none
  name := []
  kind := .Root
  state := if provisional then .Scanning else stateFor page.rootCoverage
  children := []
  metrics := page.rootMetrics
  snapshot := snapshotForPath live .root .Root page.rootMetrics

/-- The tree before anything is below its root. -/
def rootOnly (layout : NodeLayout) (rootPath : NativePath) (page : ScanPage) (limit : Nat)
    (stats : Nat × Nat) (filter : Option (FilterPattern × RelativePath)) (provisional : Bool) :
    SnapshotTree where
  rootPath := rootPath
  generation := page.generation
  currentRelative := page.folder
  currentId := ⟨0⟩
  nodes := [rootNode live page provisional]
  relativePaths := [some .root]
  pageMemoryLimit := limit
  scanStoreStats := stats
  retainedBytes := pageRetainedBytes layout page
  nextAfter := page.nextAfter
  unrecordedPathCount := page.unrecordedPathCount
  filter := filter.map Prod.fst
  provisional := provisional

/-- `from_page_with_source`. -/
def fromPage (layout : NodeLayout) (rootPath : NativePath) (page : ScanPage) (limit : Nat)
    (stats : Nat × Nat) (filter : Option (FilterPattern × RelativePath)) (provisional : Bool) :
    Except ModelError SnapshotTree :=
  if pageRetainedBytes layout page > limit then
    .error (.MemoryExhausted (pageRetainedBytes layout page) limit)
  else
    (appendAncestors live page.folder page.folderMetrics page.folderCoverage
      (rootOnly live layout rootPath page limit stats filter provisional)).bind fun built =>
      appendPageEntries live page.entries page.sharedAllocation
        { built.1 with currentId := built.2 }

/-- `loading`: the view before an active scan has sent any page. -/
def loadingPage (generation : ScanGeneration) : ScanPage where
  generation := generation
  folder := .root
  folderMetrics := .zero
  folderCoverage := .Uncertain
  rootMetrics := .zero
  rootCoverage := .Uncertain
  entries := []
  nextAfter := none
  sharedAllocation := none
  unrecordedPathCount := 0

variable (tree : SnapshotTree)

def pageCacheBudgetBytes : Nat := tree.pageMemoryLimit / 4

def relativeForId (id : NodeId) : Option RelativePath := (tree.relativePaths[id.index]?).join

def idForRelative (relative : RelativePath) : Option NodeId :=
  (tree.relativePaths.findIdx? fun candidate => decide (candidate = some relative)).bind fun index =>
    if index < 2 ^ 32 then some ⟨index⟩ else none

def node? (id : NodeId) : Option Node := tree.nodes[id.index]?

/-- A target deletions removed, or something below one. -/
def isRemoved (id : NodeId) (removed : List RelativePath) : Bool :=
  (tree.relativeForId id).any fun relative => removed.any relative.startsWith

section Listing
variable {F : Type} (N : LayoutNumbers F)

def fileMetadata (showApparentSize : Bool) (node : Node) : FileMetadata F where
  nodeId := node.id
  name := node.name
  size := if showApparentSize then node.metrics.apparentBytes else node.metrics.allocatedBytes.lower
  apparentSize := node.metrics.apparentBytes
  descendants :=
    match node.kind with
    | .Directory => some node.metrics.descendants
    | .Synthetic => some 0
    | _ => none
  percentage := N.ofNat 0
  fileType :=
    match node.kind with
    | .Directory => .Folder
    | .Synthetic => .Synthetic
    | _ => .File
  syntheticKind := if node.kind = .Synthetic then some .Shared else none
  uncertain := decide (node.state = .Uncertain) ||
    (!showApparentSize && node.metrics.allocatedBytes.upper.isNone)

/-- What the folder on screen lists before it is weighed: the root is no entry of a page. -/
def listedFiles (showApparentSize : Bool) (removed : List RelativePath) : List (FileMetadata F) :=
  let children := ((tree.node? tree.currentId).map Node.children).getD []
  ((children.filter fun id => !tree.isRemoved id removed).filterMap tree.node?).map
    (fileMetadata N showApparentSize)

def calculatePercentage (size total files : Nat) : F :=
  if size = 0 ∧ total = 0 then N.div (N.ofNat 1) (N.ofNat (max files 1))
  else N.div (N.ofNat size) (N.ofNat total)

def reweigh (total : Nat) (files : List (FileMetadata F)) : List (FileMetadata F) :=
  files.map fun file => { file with percentage := calculatePercentage N file.size total files.length }

def totalSize (files : List (FileMetadata F)) : Nat :=
  files.foldl (fun total file => satAdd byteBits total file.size) 0

/-- By falling share, then by name. -/
def weightOrder (left right : FileMetadata F) : Bool :=
  N.lt right.percentage left.percentage ||
    (!N.lt left.percentage right.percentage && decide (left.name ≤ right.name))

def normalizeFileMetadata (files : List (FileMetadata F)) (offset : Nat) : List (FileMetadata F) :=
  let sorted := (reweigh N (totalSize files) files).mergeSort (weightOrder N)
  if offset > 0 then
    reweigh N (totalSize files - totalSize (sorted.take offset)) (sorted.drop offset)
  else sorted

def filesInCurrentFolder (offset : Nat) (showApparentSize : Bool) (removed : List RelativePath) :
    List (FileMetadata F) :=
  normalizeFileMetadata N (tree.listedFiles N showApparentSize removed) offset

end Listing

end SnapshotTree

/-! ## Deletion targets -/

/-- `FileToDelete` with what a plan is verified against. -/
structure VerifiedTarget extends FileToDelete where
  nodeId : NodeId
  fileType : TileFileType
  numDescendants : Option Nat
  size : Nat
  expectedSnapshot : EntrySnapshot

structure ConcreteDeletionTarget where
  rootPath : NativePath
  nodeId : NodeId
  relative : RelativePath
  expectedKind : NodeKind
  fileType : TileFileType
  metrics : SummaryMetrics
  expectedSnapshot : Option EntrySnapshot

def unverifiedMessage : String :=
  "Wait for this item to receive a verified scan preview before deleting"

def concreteDeletionTarget (target : ConcreteDeletionTarget) (showApparentSize : Bool) :
    Except ModelError VerifiedTarget :=
  match target.expectedSnapshot with
  | none => .error (.Invariant unverifiedMessage)
  | some snapshot =>
    if snapshot.kind ≠ target.expectedKind ∨ snapshot.identity = none then
      .error (.Invariant unverifiedMessage)
    else
      .ok
        { pathInFilesystem := target.rootPath
          pathToFile := target.relative.components
          nodeId := target.nodeId
          fileType := target.fileType
          numDescendants :=
            if target.expectedKind = .Directory then some target.metrics.descendants else none
          size :=
            if showApparentSize then target.metrics.apparentBytes
            else target.metrics.allocatedBytes.lower
          expectedSnapshot := snapshot }

def deletableFileType : NodeKind → Option TileFileType
  | .Directory => some .Folder
  | .File | .Link => some .File
  | _ => none

/-- From one entry of a published map. -/
def deletionTargetFromEntry (rootPath : NativePath) (nodeId : NodeId) (relative : RelativePath)
    (entry : ScanPageEntry) (showApparentSize : Bool) : Except ModelError VerifiedTarget :=
  concreteDeletionTarget
    { rootPath := rootPath
      nodeId := nodeId
      relative := relative
      expectedKind := canonicalNodeKind entry.kind
      fileType := if entry.kind = .Directory then .Folder else .File
      metrics := entry.metrics
      expectedSnapshot := entry.snapshot } showApparentSize

namespace SnapshotTree
variable (tree : SnapshotTree)

/-- Only what the page lists itself. -/
def deletionTargetFromPreview (nodeId : NodeId) (showApparentSize : Bool) :
    Except ModelError VerifiedTarget :=
  match tree.node? nodeId with
  | none => .error (.Invariant "Selected item is no longer on this scan page")
  | some node =>
    if node.parent ≠ some tree.currentId then
      .error (.Invariant "Only a directly observed item can be deleted while scanning")
    else
      match deletableFileType node.kind with
      | none =>
        .error (.Invariant "Only a directly observed file or folder can be deleted while scanning")
      | some fileType =>
        match tree.relativeForId nodeId with
        | none => .error (.Invariant "Selected item has no concrete scan path")
        | some relative =>
          concreteDeletionTarget
            { rootPath := tree.rootPath
              nodeId := nodeId
              relative := relative
              expectedKind := node.kind
              fileType := fileType
              metrics := node.metrics
              expectedSnapshot := some node.snapshot } showApparentSize

end SnapshotTree

end Excise
