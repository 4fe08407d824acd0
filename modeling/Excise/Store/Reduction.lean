import Excise.Store.Facts
import Mathlib.Data.Finset.Basic

/-!
# Reduction of the raw facts

`reduce_sorted_path_stream` folds the sorted path observations into one summary per directory,
`build_path_catalog` numbers them, and `reduce_identity_observations` folds the observations of
each file identity into one allocation contribution at their lowest common ancestor.
-/

namespace Excise
set_option autoImplicit false

/-! ## Directory summaries -/

/-- The directories the scanner could not list; past the cap nothing is tracked. -/
inductive UnreadableDirectories where
  | Tracked (tracked : Finset RelativePath)
  | Overflowed

def UnreadableDirectories.contains (u : UnreadableDirectories) (p : RelativePath) : Bool :=
  match u with
  | .Tracked tracked => decide (p ∈ tracked)
  | .Overflowed => true

structure DirectorySummary where
  path : RelativePath
  metrics : SummaryMetrics
  coverage : Coverage
  deriving DecidableEq

inductive PathReductionError where
  | RootObservation
  | UnsortedPath
  | DuplicatePath
  | MissingParent
  | OrdinalOverflow
  deriving DecidableEq, Repr

structure OpenDirectory where
  path : RelativePath
  metrics : SummaryMetrics
  coverage : Coverage

namespace OpenDirectory

def fromObservation (o : PathObservation) : OpenDirectory := ⟨o.path, o.metrics, o.coverage⟩

def intoSummary (d : OpenDirectory) : DirectorySummary := ⟨d.path, d.metrics, d.coverage⟩

def addChild (d : OpenDirectory) (metrics : SummaryMetrics) (coverage : Coverage) :
    OpenDirectory :=
  { d with metrics := d.metrics.addChild metrics, coverage := d.coverage.combine coverage }

def forceUncertainIfUnreadable (unreadable : UnreadableDirectories) (d : OpenDirectory) :
    OpenDirectory :=
  if unreadable.contains d.path then { d with coverage := .Uncertain, metrics := d.metrics.openUpper }
  else d

end OpenDirectory

/-- The stack of open directories, the innermost apart, and the summaries emitted so far. -/
structure OpenStack where
  top : OpenDirectory
  below : List OpenDirectory
  emitted : List DirectorySummary
  previous : Option RelativePath

namespace OpenStack

def start : OpenStack := ⟨⟨.root, .zero, .Complete⟩, [], [], none⟩

/-- `close_directory`. -/
def close (unreadable : UnreadableDirectories) (s : OpenStack) (parent : OpenDirectory)
    (rest : List OpenDirectory) : OpenStack :=
  let directory := s.top.forceUncertainIfUnreadable unreadable
  { s with
    top := parent.addChild directory.metrics directory.coverage
    below := rest
    emitted := s.emitted ++ [directory.intoSummary] }

/-- Closes directories while the innermost does not contain `path`. The root contains every path,
so the stack is never emptied. -/
def closeUntil (unreadable : UnreadableDirectories) (path : RelativePath) :
    List OpenDirectory → OpenStack → OpenStack
  | [], s => s
  | parent :: rest, s =>
    if path.startsWith s.top.path then s
    else closeUntil unreadable path rest (s.close unreadable parent rest)

/-- `while directories.len() > 1`, then the root. -/
def closeAll (unreadable : UnreadableDirectories) : List OpenDirectory → OpenStack → OpenStack
  | [], s =>
    { s with emitted := s.emitted ++ [(s.top.forceUncertainIfUnreadable unreadable).intoSummary] }
  | parent :: rest, s => closeAll unreadable rest (s.close unreadable parent rest)

/-- The check of the order against the previous path. -/
def orderCheck (previous : Option RelativePath) (path : RelativePath) :
    Except PathReductionError Unit :=
  match previous with
  | none => .ok ()
  | some p =>
    if path < p then .error .UnsortedPath
    else if path = p then .error .DuplicatePath
    else .ok ()

/-- One observation of the stream. -/
def observe (unreadable : UnreadableDirectories) (s : OpenStack) (o : PathObservation) :
    Except PathReductionError OpenStack :=
  if o.path.isRoot then .error .RootObservation
  else
    match orderCheck s.previous o.path with
    | .error e => .error e
    | .ok () =>
      let s := closeUntil unreadable o.path s.below { s with previous := some o.path }
      if !o.path.isDirectChildOf s.top.path then .error .MissingParent
      else
        match o.kind with
        | .Directory => .ok { s with top := .fromObservation o, below := s.top :: s.below }
        | .File | .Link => .ok { s with top := s.top.addChild o.metrics o.coverage }

end OpenStack

def reduceSortedPathStream (unreadable : UnreadableDirectories) (observations : List PathObservation) :
    Except PathReductionError (List DirectorySummary) :=
  (observations.foldlM (OpenStack.observe unreadable) OpenStack.start).map fun s =>
    (OpenStack.closeAll unreadable s.below s).emitted

/-- `reduce_path_observation_run`: the summaries carry their `u64` post-order number as key. -/
def reducePathObservationRun (unreadable : UnreadableDirectories)
    (observations : List PathObservation) : Except PathReductionError (List DirectorySummary) :=
  match reduceSortedPathStream unreadable observations with
  | .error e => .error e
  | .ok summaries => if 2 ^ 64 ≤ summaries.length then .error .OrdinalOverflow else .ok summaries

/-! ## The path catalog -/

structure PathCatalogEntry where
  path : RelativePath
  id : Nat
  parentId : Nat
  deriving DecidableEq

inductive PathCatalogError where
  | MissingParent
  | IdOverflow
  deriving DecidableEq, Repr

/-- `ancestors` without its root, innermost first. -/
structure CatalogState where
  ancestors : List (RelativePath × Nat)
  nextId : Nat
  rows : List PathCatalogEntry

namespace CatalogState

def start : CatalogState := ⟨[], 1, []⟩

/-- The innermost ancestor that contains `path`, the root with id zero when there is no other. -/
def ancestorsOf (path : RelativePath) (ancestors : List (RelativePath × Nat)) :
    List (RelativePath × Nat) :=
  ancestors.dropWhile fun a => !path.startsWith a.1

def catalogue (s : CatalogState) (o : PathObservation) : Except PathCatalogError CatalogState :=
  let ancestors := ancestorsOf o.path s.ancestors
  let parent := ancestors.headD (.root, 0)
  if !o.path.isDirectChildOf parent.1 then .error .MissingParent
  else if 2 ^ 64 ≤ s.nextId + 1 then .error .IdOverflow
  else
    .ok
      { ancestors := if o.kind = .Directory then (o.path, s.nextId) :: ancestors else ancestors
        nextId := s.nextId + 1
        rows := s.rows ++ [⟨o.path, s.nextId, parent.2⟩] }

end CatalogState

def buildPathCatalog (observations : List PathObservation) :
    Except PathCatalogError (List PathCatalogEntry) :=
  (observations.foldlM CatalogState.catalogue CatalogState.start).map CatalogState.rows

/-! ## Allocation contributions -/

inductive AllocationPlacement where
  | Leaf
  | Shared
  deriving DecidableEq, Repr

structure AllocationContribution where
  recipient : RelativePath
  placement : AllocationPlacement
  allocatedBytes : ByteBounds
  reclaimableBytes : ByteBounds
  deriving DecidableEq

inductive IdentityReductionError where
  | ObservationCountOverflow
  | RootLeaf
  deriving DecidableEq, Repr

/-- The longest common prefix. -/
def commonPrefix : List Component → List Component → List Component
  | a :: as, b :: bs => if a = b then a :: commonPrefix as bs else []
  | _, _ => []

def commonAncestor (left right : RelativePath) : RelativePath :=
  ⟨commonPrefix left.components right.components⟩

def exactBytes (b : ByteBounds) : Option Nat := if b.upper = some b.lower then some b.lower else none

def mergeDeclaredLinks : Option Nat → Option Nat → Option Nat
  | some current, some observed => if current = observed then some current else none
  | _, _ => none

structure IdentityGroup where
  fileId : FileId
  recipient : RelativePath
  observedLinks : Nat
  declaredLinks : Option Nat
  exactAllocatedBytes : Option Nat

namespace IdentityGroup

def fromObservation (o : IdentityObservation) : IdentityGroup :=
  ⟨o.fileId, o.path, 1, o.declaredLinks, exactBytes o.allocatedBytes⟩

def observe (g : IdentityGroup) (o : IdentityObservation) :
    Except IdentityReductionError IdentityGroup :=
  if 2 ^ 64 ≤ g.observedLinks + 1 then .error .ObservationCountOverflow
  else
    .ok
      { g with
        observedLinks := g.observedLinks + 1
        declaredLinks := mergeDeclaredLinks g.declaredLinks o.declaredLinks
        -- the two amounts agree exactly as two declared link counts do
        exactAllocatedBytes := mergeDeclaredLinks g.exactAllocatedBytes (exactBytes o.allocatedBytes)
        recipient := commonAncestor g.recipient o.path }

def allocatedBytes (g : IdentityGroup) : ByteBounds :=
  match g.exactAllocatedBytes with
  | some bytes => .exact bytes
  | none => .unknown

def contribution (g : IdentityGroup) : AllocationContribution where
  recipient := g.recipient
  placement := if g.observedLinks = 1 then .Leaf else .Shared
  allocatedBytes := g.allocatedBytes
  reclaimableBytes :=
    if g.declaredLinks.any fun declared => decide (declared ≤ g.observedLinks) then g.allocatedBytes
    else ⟨0, g.allocatedBytes.upper⟩

/-- `flush_group`: a leaf cannot be the root. -/
def flush (g : IdentityGroup) : Except IdentityReductionError (FileId × AllocationContribution) :=
  if g.contribution.placement = .Leaf ∧ g.recipient.isRoot then .error .RootLeaf
  else .ok (g.fileId, g.contribution)

end IdentityGroup

/-- The open group and the records written so far. -/
structure GroupState where
  group : Option IdentityGroup
  written : List (FileId × AllocationContribution)

namespace GroupState

def flush (s : GroupState) : Except IdentityReductionError (List (FileId × AllocationContribution)) :=
  match s.group with
  | none => .ok s.written
  | some group => group.flush.map fun record => s.written ++ [record]

def observe (s : GroupState) (o : IdentityObservation) : Except IdentityReductionError GroupState :=
  match s.group with
  | none => .ok { s with group := some (.fromObservation o) }
  | some current =>
    if current.fileId = o.fileId then
      (current.observe o).map fun group => { s with group := some group }
    else s.flush.map fun written => ⟨some (.fromObservation o), written⟩

end GroupState

def reduceIdentityObservations (observations : List IdentityObservation) :
    Except IdentityReductionError (List (FileId × AllocationContribution)) :=
  (observations.foldlM GroupState.observe ⟨none, []⟩).bind GroupState.flush

end Excise
