import Excise.Lib.Saturating
import Mathlib.Algebra.Order.Ring.Unbundled.Rat
import Mathlib.Data.List.Perm.Basic
import Mathlib.Tactic.Common

/-!
# The treemap layout

`TreeMap` of `state/tiles/treemap.rs` over arbitrary layout numbers. A child becomes a tile or is
counted in the overflow summary; nothing is said about where a tile lies.
-/

namespace Excise
set_option autoImplicit false

/-! ## Layout numbers -/

/-- The operations on `f64`. -/
structure LayoutNumbers (F : Type) where
  ofNat : Nat → F
  add : F → F → F
  sub : F → F → F
  mul : F → F → F
  div : F → F → F
  fmin : F → F → F
  fmax : F → F → F
  clamp : F → F → F → F
  round : F → F
  isFinite : F → Bool
  eq : F → F → Bool
  lt : F → F → Bool
  le : F → F → Bool
  asU16 : F → Nat
  asU32 : F → Nat
  heightWidthRatio : F
  roundingSlack : F
  zero_le_zero : le (ofNat 0) (ofNat 0) = true

structure NodeId where
  index : Nat
  deriving DecidableEq, Repr

/-- `FileType` of the tiles. -/
inductive TileFileType where
  | File
  | Folder
  | Synthetic
  deriving DecidableEq, Repr

inductive SyntheticKind where
  | Shared
  deriving DecidableEq, Repr

structure FileMetadata (F : Type) where
  nodeId : NodeId
  name : List UInt8
  size : Nat
  apparentSize : Nat
  descendants : Option Nat
  percentage : F
  fileType : TileFileType
  syntheticKind : Option SyntheticKind
  uncertain : Bool

/-- A terminal rectangle. -/
structure Rect where
  x : Nat
  y : Nat
  width : Nat
  height : Nat
  deriving DecidableEq, Repr

def Rect.right (area : Rect) : Nat := satAdd 16 area.x area.width

structure RectFloat (F : Type) where
  x : F
  y : F
  width : F
  height : F

structure Tile (F : Type) where
  x : Nat
  y : Nat
  width : Nat
  height : Nat
  nodeId : NodeId
  name : List UInt8
  size : Nat
  apparentSize : Nat
  descendants : Option Nat
  percentage : F
  fileType : TileFileType
  syntheticKind : Option SyntheticKind
  uncertain : Bool

structure MapOverflow where
  x : Nat
  y : Nat
  entries : Nat
  bytes : Nat
  uncertain : Bool
  deriving DecidableEq, Repr

structure RowMetrics (F : Type) where
  sum : F
  minimum : F
  maximum : F

structure OverflowAccounting where
  entries : Nat
  bytes : Nat
  uncertain : Bool
  firstOmissionAfter : Option Nat

structure TreeMap (F : Type) where
  tiles : List (Tile F)
  unrenderableTileCoordinates : Option (Nat × Nat)
  overflow : Option MapOverflow
  emptySpace : RectFloat F
  area : Rect
  totalSize : F

/-- A map with what its layout left out so far. -/
structure Layout (F : Type) where
  map : TreeMap F
  omitted : OverflowAccounting

def halfRowsPerCell : Nat := 2

def minimumHeight : Nat := 4

def minimumWidth : Nat := 8

def halfRows (rows : Nat) : Nat := rows * halfRowsPerCell

def areaBottomRows (area : Rect) : Nat := area.y + area.height

def areaBottomHalfRows (area : Rect) : Nat := halfRows area.y + halfRows area.height

variable {F : Type}

/-- The entry that a tile shows. -/
def Tile.entry (tile : Tile F) : FileMetadata F where
  nodeId := tile.nodeId
  name := tile.name
  size := tile.size
  apparentSize := tile.apparentSize
  descendants := tile.descendants
  percentage := tile.percentage
  fileType := tile.fileType
  syntheticKind := tile.syntheticKind
  uncertain := tile.uncertain

namespace OverflowAccounting

def empty : OverflowAccounting := ⟨0, 0, false, none⟩

def addFile (file : FileMetadata F) (renderedBefore : Nat) (o : OverflowAccounting) :
    OverflowAccounting where
  entries := satAdd 64 o.entries 1
  bytes := satAdd 128 o.bytes file.size
  uncertain := o.uncertain || file.uncertain
  firstOmissionAfter :=
    match o.firstOmissionAfter with
    | none => some renderedBefore
    | some count => some count

def addTile (o : OverflowAccounting) (tile : Tile F) : OverflowAccounting :=
  { o with
    entries := satAdd 64 o.entries 1
    bytes := satAdd 128 o.bytes tile.size
    uncertain := o.uncertain || tile.uncertain }

def merge (o other : OverflowAccounting) : OverflowAccounting :=
  { o with
    entries := satAdd 64 o.entries other.entries
    bytes := satAdd 128 o.bytes other.bytes
    uncertain := o.uncertain || other.uncertain }

end OverflowAccounting

namespace TreeMap

def fitsOverflowRegion (tile : Tile F) (area : Rect) (x y : Nat) : Bool :=
  decide (x ≤ tile.x) && decide (y ≤ tile.y) &&
    decide (satAdd 16 tile.x tile.width ≤ area.right) &&
    decide (satAdd 32 tile.y tile.height ≤ areaBottomHalfRows area)

def crossesOverflowRegion (tile : Tile F) (area : Rect) (x y : Nat) : Bool :=
  decide (tile.x < area.right) && decide (x < satAdd 16 tile.x tile.width) &&
    decide (tile.y < areaBottomHalfRows area) && decide (y < satAdd 32 tile.y tile.height)

/-- Where the summary goes, and the layout without the tiles it takes the place of. -/
def reserveOverflowRegion (rawX rawY : Nat) (protectedNode : Option NodeId) (l : Layout F) :
    Option (Nat × Nat) × Layout F :=
  let area := l.map.area
  if area.right = 0 ∨ areaBottomRows area = 0 then (none, l)
  else
    let lastColumn := area.right - 1
    let lastRow := areaBottomRows area - 1
    if lastColumn < area.x ∨ lastRow < area.y then (none, l)
    else
      let x := min (max rawX area.x) lastColumn
      let row := min (max ((rawY + (halfRowsPerCell - 1)) / halfRowsPerCell) area.y) lastRow
      let y := row * halfRowsPerCell
      let crosses := fun tile : Tile F => crossesOverflowRegion tile area x y
      if l.map.tiles.any fun tile => decide (some tile.nodeId = protectedNode) && crosses tile then
        (none, l)
      else if (l.map.tiles.drop (l.omitted.firstOmissionAfter.getD l.map.tiles.length)).any
          crosses then
        (none, l)
      else if l.map.tiles.any fun tile => crosses tile && !fitsOverflowRegion tile area x y then
        (none, l)
      else
        let reserved := (l.map.tiles.filter crosses).foldl OverflowAccounting.addTile .empty
        (some (x, y),
          { map := { l.map with tiles := l.map.tiles.filter fun tile => !crosses tile }
            omitted := l.omitted.merge reserved })

end TreeMap

namespace LayoutNumbers

variable (N : LayoutNumbers F)

def roundedCoordinate (value maximum : F) : F :=
  if N.isFinite value then N.clamp (N.round (N.add value N.roundingSlack)) (N.ofNat 0) maximum
  else N.ofNat 0

def terminalCoordinate (value : F) : Nat :=
  N.asU16 (N.roundedCoordinate value (N.ofNat 65535))

def halfRowCoordinate (value : F) : Nat :=
  N.asU32 (N.roundedCoordinate value (N.ofNat 4294967295))

/-- `Tile::new`. -/
def newTile (rect : RectFloat F) (file : FileMetadata F) : Tile F :=
  let x := N.terminalCoordinate rect.x
  let right := max (N.terminalCoordinate (N.add rect.x (N.fmax rect.width (N.ofNat 0)))) x
  let y := N.halfRowCoordinate rect.y
  let bottom := max (N.halfRowCoordinate (N.add rect.y (N.fmax rect.height (N.ofNat 0)))) y
  { x := x
    y := y
    width := right - x
    height := bottom - y
    nodeId := file.nodeId
    name := file.name
    size := file.size
    apparentSize := file.apparentSize
    descendants := file.descendants
    percentage := file.percentage
    fileType := file.fileType
    syntheticKind := file.syntheticKind
    uncertain := file.uncertain }

/-- `RowMetrics::default`. -/
def emptyRow : RowMetrics F := ⟨N.ofNat 0, N.ofNat 0, N.ofNat 0⟩

/-- `RowMetrics::with`. -/
def withSize (metrics : RowMetrics F) (size : F) : RowMetrics F :=
  if N.eq metrics.sum (N.ofNat 0) then ⟨size, size, size⟩
  else ⟨N.add metrics.sum size, N.fmin metrics.minimum size, N.fmax metrics.maximum size⟩

/-- `TreeMap::new`. -/
def newMap (area : Rect) : TreeMap F :=
  let emptySpace : RectFloat F :=
    ⟨N.ofNat area.x, N.ofNat (halfRows area.y), N.ofNat area.width, N.ofNat (halfRows area.height)⟩
  ⟨[], none, none, emptySpace, area, N.mul emptySpace.height emptySpace.width⟩

/-! ## Rows -/

def markRemainingUnrenderable (m : TreeMap F) : TreeMap F :=
  match m.unrenderableTileCoordinates with
  | none =>
    { m with
      unrenderableTileCoordinates :=
        some (N.terminalCoordinate m.emptySpace.x, N.halfRowCoordinate m.emptySpace.y) }
  | some _ => m

def addUnrenderableTile (x y : Nat) (file : FileMetadata F) (l : Layout F) : Layout F where
  map :=
    match l.map.unrenderableTileCoordinates with
    | none => { l.map with unrenderableTileCoordinates := some (x, y) }
    | some _ => l.map
  omitted := l.omitted.addFile file l.map.tiles.length

def pushTile (rect : RectFloat F) (file : FileMetadata F) (l : Layout F) : Layout F :=
  { l with map := { l.map with tiles := l.map.tiles ++ [N.newTile rect file] } }

def isHorizontal (space : RectFloat F) : Bool :=
  N.le space.width (N.mul space.height N.heightWidthRatio)

/-- The space that is left once a row of this extent is taken off. -/
def consume (horizontal : Bool) (height width : F) (space : RectFloat F) : RectFloat F :=
  if horizontal then
    let consumed := N.fmin height space.height
    { space with
      height := N.fmax (N.sub space.height consumed) (N.ofNat 0)
      y := N.add space.y consumed }
  else
    let consumed := N.fmin width space.width
    { space with
      width := N.fmax (N.sub space.width consumed) (N.ofNat 0)
      x := N.add space.x consumed }

/-- Whether a row without room still gives the entry a tile. -/
def keepsPlace (protectedNode : Option NodeId) (area : Rect) (file : FileMetadata F) : Bool :=
  decide (some file.nodeId = protectedNode) && N.lt (N.ofNat 0) file.percentage &&
    decide (0 < area.width) && decide (0 < area.height)

def addUnrenderableFile (protectedNode : Option NodeId) (renderedBefore : Nat) (l : Layout F)
    (file : FileMetadata F) : Layout F :=
  if N.keepsPlace protectedNode l.map.area file then
    N.pushTile
      ⟨l.map.emptySpace.x, l.map.emptySpace.y,
        N.fmin (N.ofNat minimumWidth) l.map.emptySpace.width,
        N.fmin (N.ofNat minimumHeight) l.map.emptySpace.height⟩ file l
  else { l with omitted := l.omitted.addFile file renderedBefore }

def addUnrenderableRow (row : List (FileMetadata F)) (protectedNode : Option NodeId) (l : Layout F) :
    Layout F :=
  let marked := { l with map := N.markRemainingUnrenderable l.map }
  let laid := row.foldl (N.addUnrenderableFile protectedNode marked.map.tiles.length) marked
  if row.any (N.keepsPlace protectedNode marked.map.area) then
    { laid with
      map := { laid.map with
        emptySpace := N.consume (N.isHorizontal laid.map.emptySpace) (N.ofNat minimumHeight)
          (N.ofNat minimumWidth) laid.map.emptySpace } }
  else laid

/-- What the loop of `layout_row` computes once for the row. -/
structure RowFrame (F : Type) where
  horizontal : Bool
  rowTotal : F
  firstOrigin : F
  firstExtent : F
  secondExtent : F

def fileRect (frame : RowFrame F) (space : RectFloat F) (firstStart firstEnd : F) : RectFloat F :=
  if frame.horizontal then
    ⟨firstStart, space.y, N.sub firstEnd firstStart, N.fmin frame.secondExtent space.height⟩
  else
    ⟨space.x, firstStart, N.fmin frame.secondExtent space.width, N.sub firstEnd firstStart⟩

/-- A tile, unless it were too small to be seen. -/
def layoutFile (rect : RectFloat F) (file : FileMetadata F) (protectedNode : Option NodeId)
    (l : Layout F) : Layout F :=
  let x := N.terminalCoordinate rect.x
  let right := max (N.terminalCoordinate (N.add rect.x (N.fmax rect.width (N.ofNat 0)))) x
  let y := N.halfRowCoordinate rect.y
  let bottom := max (N.halfRowCoordinate (N.add rect.y (N.fmax rect.height (N.ofNat 0)))) y
  if some file.nodeId ≠ protectedNode ∧ (bottom - y < minimumHeight ∨ right - x < minimumWidth) then
    addUnrenderableTile x y file l
  else N.pushTile rect file l

/-- The loop of `layout_row`: the last file ends where the row does. -/
def layoutFiles (frame : RowFrame F) (protectedNode : Option NodeId) (firstStart cumulative : F)
    (l : Layout F) : List (FileMetadata F) → Layout F
  | [] => l
  | file :: rest =>
    let cumulative := N.add cumulative (N.mul file.percentage l.map.totalSize)
    let firstLimit := N.add frame.firstOrigin frame.firstExtent
    let firstEnd :=
      if rest.isEmpty then firstLimit
      else
        N.clamp (N.add frame.firstOrigin
          (N.div (N.mul frame.firstExtent cumulative) frame.rowTotal)) firstStart firstLimit
    let rect := N.fileRect frame l.map.emptySpace firstStart firstEnd
    layoutFiles frame protectedNode firstEnd cumulative (N.layoutFile rect file protectedNode l) rest

/-- Whether a length is no room for a row. -/
def isUnusable (length : F) : Bool := !N.isFinite length || N.le length (N.ofNat 0)

def layoutRow (row : List (FileMetadata F)) (protectedNode : Option NodeId) (l : Layout F) :
    Layout F :=
  if row.isEmpty then l
  else
    let rowTotal := row.foldl (fun total file =>
      N.add total (N.mul file.percentage l.map.totalSize)) (N.ofNat 0)
    if N.isUnusable rowTotal then N.addUnrenderableRow row protectedNode l
    else
      let space := l.map.emptySpace
      let horizontal := N.isHorizontal space
      let firstExtent := if horizontal then space.width else space.height
      if N.isUnusable firstExtent then N.addUnrenderableRow row protectedNode l
      else
        let secondExtent := N.div rowTotal firstExtent
        if N.isUnusable secondExtent then N.addUnrenderableRow row protectedNode l
        else
          let firstOrigin := if horizontal then space.x else space.y
          let laid := N.layoutFiles ⟨horizontal, rowTotal, firstOrigin, firstExtent, secondExtent⟩
            protectedNode firstOrigin (N.ofNat 0) l row
          { laid with
            map := { laid.map with
              emptySpace := N.consume horizontal secondExtent secondExtent laid.map.emptySpace } }

/-! ## The layout -/

/-- The side that rows are laid along and the least extents of a tile. -/
def rowShape (space : RectFloat F) : F × F × F :=
  let ratio := N.heightWidthRatio
  if N.lt (N.mul space.height ratio) space.width then
    (N.mul space.height ratio, N.mul (N.ofNat minimumHeight) ratio,
      N.div (N.ofNat minimumWidth) ratio)
  else
    (N.div space.width ratio, N.div (N.ofNat minimumWidth) ratio,
      N.mul (N.ofNat minimumHeight) ratio)

def worstRenderableRatio (metrics : RowMetrics F) (length minimumFirst minimumSecond : F) :
    Option F :=
  let zero := N.ofNat 0
  if N.le metrics.sum zero || N.le metrics.minimum zero || N.le length zero then none
  else
    let second := N.div metrics.sum length
    let smallestFirst := N.div metrics.minimum second
    if !N.isFinite second || !N.isFinite smallestFirst || N.lt second minimumSecond ||
        N.lt smallestFirst minimumFirst then none
    else
      let largestFirst := N.div metrics.maximum second
      let smallestRatio := N.div (N.fmin smallestFirst second) (N.fmax smallestFirst second)
      let largestRatio := N.div (N.fmin largestFirst second) (N.fmax largestFirst second)
      some (N.fmin smallestRatio largestRatio)

/-- Whether the next child joins the row. -/
def joinsRow (space : RectFloat F) (metrics candidate : RowMetrics F) : Bool :=
  let shape := N.rowShape space
  match N.worstRenderableRatio metrics shape.1 shape.2.1 shape.2.2,
    N.worstRenderableRatio candidate shape.1 shape.2.1 shape.2.2 with
  | none, _ => true
  | some _, none => false
  | some current, some next => N.lt current next

/-- The loop of `squarify` with the children of the row and those still to come, for at most `fuel`
rounds. -/
def squarifyFrom (protectedNode : Option NodeId) :
    Nat → List (FileMetadata F) → List (FileMetadata F) → RowMetrics F → Layout F →
      Option (Layout F)
  | _, row, [], _, l => some (N.layoutRow row protectedNode l)
  | 0, _, _ :: _, _, _ => none
  | fuel + 1, row, file :: rest, metrics, l =>
    let candidate := N.withSize metrics (N.mul file.percentage l.map.totalSize)
    if N.joinsRow l.map.emptySpace metrics candidate then
      squarifyFrom protectedNode fuel (row ++ [file]) rest candidate l
    else
      squarifyFrom protectedNode fuel [] (file :: rest) N.emptyRow (N.layoutRow row protectedNode l)

def squarify (fuel : Nat) (children : List (FileMetadata F)) (protectedNode : Option NodeId)
    (l : Layout F) : Option (Layout F) :=
  N.squarifyFrom protectedNode fuel [] children N.emptyRow l

/-- What `populate_tiles` does with the layout. -/
def summarize (protectedNode : Option NodeId) (l : Layout F) : TreeMap F :=
  if l.omitted.entries = 0 then { l.map with overflow := none }
  else
    let raw := l.map.unrenderableTileCoordinates.getD
      (N.terminalCoordinate l.map.emptySpace.x, N.halfRowCoordinate l.map.emptySpace.y)
    let reserved := TreeMap.reserveOverflowRegion raw.1 raw.2 protectedNode l
    let anchor := reserved.1.getD (raw.1, areaBottomHalfRows l.map.area)
    { reserved.2.map with
      unrenderableTileCoordinates := some anchor
      overflow := some
        { x := anchor.1
          y := anchor.2
          entries := reserved.2.omitted.entries
          bytes := reserved.2.omitted.bytes
          uncertain := reserved.2.omitted.uncertain } }

def populateTiles (fuel : Nat) (children : List (FileMetadata F)) (protectedNode : Option NodeId)
    (m : TreeMap F) : Option (TreeMap F) :=
  (N.squarify fuel children protectedNode ⟨m, .empty⟩).map (N.summarize protectedNode)

end LayoutNumbers

/-! ## What is left out -/

/-- The accounting counts exactly these entries. -/
structure OverflowAccounting.Counts (o : OverflowAccounting) (files : List (FileMetadata F)) :
    Prop where
  entries : o.entries = min files.length (satMax 64)
  bytes : o.bytes = min (files.map FileMetadata.size).sum (satMax 128)
  uncertain : o.uncertain = files.any FileMetadata.uncertain

namespace OverflowAccounting

variable {o o' : OverflowAccounting} {files files' : List (FileMetadata F)}

theorem counts_empty : empty.Counts ([] : List (FileMetadata F)) := ⟨rfl, rfl, rfl⟩

theorem Counts.addFile (h : o.Counts files) (file : FileMetadata F) (renderedBefore : Nat) :
    (o.addFile file renderedBefore).Counts (files ++ [file]) := by
  constructor
  · show satAdd 64 o.entries 1 = _
    rw [h.entries, List.length_append, List.length_singleton]
    unfold satAdd
    omega
  · show satAdd 128 o.bytes file.size = _
    rw [h.bytes, List.map_append, List.sum_append, List.map_singleton, List.sum_singleton]
    unfold satAdd
    omega
  · show (o.uncertain || file.uncertain) = _
    rw [h.uncertain, List.any_append, List.any_cons, List.any_nil, Bool.or_false]

theorem Counts.addTile (h : o.Counts files) (tile : Tile F) :
    (o.addTile tile).Counts (files ++ [tile.entry]) :=
  ⟨(h.addFile tile.entry 0).entries, (h.addFile tile.entry 0).bytes,
    (h.addFile tile.entry 0).uncertain⟩

theorem Counts.addTiles (h : o.Counts files) (tiles : List (Tile F)) :
    (tiles.foldl OverflowAccounting.addTile o).Counts (files ++ tiles.map Tile.entry) := by
  induction tiles generalizing o files with
  | nil =>
    rw [List.map_nil, List.append_nil]
    exact h
  | cons tile tiles ih =>
    rw [List.foldl_cons, List.map_cons, ← List.singleton_append, ← List.append_assoc]
    exact ih (h.addTile tile)

theorem Counts.merge (h : o.Counts files) (h' : o'.Counts files') :
    (o.merge o').Counts (files ++ files') := by
  constructor
  · show satAdd 64 o.entries o'.entries = _
    rw [h.entries, h'.entries, List.length_append]
    unfold satAdd
    omega
  · show satAdd 128 o.bytes o'.bytes = _
    rw [h.bytes, h'.bytes, List.map_append, List.sum_append]
    unfold satAdd
    omega
  · show (o.uncertain || o'.uncertain) = _
    rw [h.uncertain, h'.uncertain, List.any_append]

theorem Counts.eq_zero_iff (h : o.Counts files) : o.entries = 0 ↔ files = [] := by
  rw [h.entries, ← List.length_eq_zero_iff]
  unfold satMax
  omega

end OverflowAccounting

/-! ## Every child once -/

/-- Each of `seen` is a tile or left out, once. -/
def Layout.Conserves (l : Layout F) (seen : List (FileMetadata F)) : Prop :=
  ∃ dropped, l.omitted.Counts dropped ∧ (l.map.tiles.map Tile.entry ++ dropped).Perm seen

namespace Layout

variable {l : Layout F} {seen : List (FileMetadata F)}

theorem Conserves.congr {l' : Layout F} (h : l.Conserves seen) (htiles : l'.map.tiles = l.map.tiles)
    (homitted : l'.omitted = l.omitted) : l'.Conserves seen := by
  unfold Conserves
  rw [htiles, homitted]
  exact h

theorem Conserves.omit {l' : Layout F} (h : l.Conserves seen) (file : FileMetadata F)
    (renderedBefore : Nat) (htiles : l'.map.tiles = l.map.tiles)
    (homitted : l'.omitted = l.omitted.addFile file renderedBefore) :
    l'.Conserves (seen ++ [file]) := by
  obtain ⟨dropped, hcounts, hperm⟩ := h
  refine ⟨dropped ++ [file], ?_, ?_⟩
  · rw [homitted]
    exact hcounts.addFile file renderedBefore
  · rw [htiles, ← List.append_assoc]
    exact hperm.append_right [file]

end Layout

namespace LayoutNumbers

variable {N : LayoutNumbers F} {l : Layout F} {seen : List (FileMetadata F)}
  {protectedNode : Option NodeId}

theorem entry_newTile (rect : RectFloat F) (file : FileMetadata F) :
    (N.newTile rect file).entry = file := rfl

theorem conserves_pushTile (h : l.Conserves seen) (rect : RectFloat F) (file : FileMetadata F) :
    (N.pushTile rect file l).Conserves (seen ++ [file]) := by
  obtain ⟨dropped, hcounts, hperm⟩ := h
  refine ⟨dropped, hcounts, ?_⟩
  have hpushed : ((N.pushTile rect file l).map.tiles.map Tile.entry ++ dropped).Perm
      (l.map.tiles.map Tile.entry ++ dropped ++ [file]) := by
    show ((l.map.tiles ++ [N.newTile rect file]).map Tile.entry ++ dropped).Perm _
    rw [List.map_append, List.map_singleton, entry_newTile, List.append_assoc, List.append_assoc]
    exact List.perm_append_comm.append_left _
  exact hpushed.trans (hperm.append_right [file])

theorem conserves_addUnrenderableFile (h : l.Conserves seen) (renderedBefore : Nat)
    (file : FileMetadata F) :
    (N.addUnrenderableFile protectedNode renderedBefore l file).Conserves (seen ++ [file]) := by
  unfold addUnrenderableFile
  split
  · exact conserves_pushTile h _ file
  · exact h.omit file renderedBefore rfl rfl

theorem conserves_addUnrenderableRow (h : l.Conserves seen) (row : List (FileMetadata F)) :
    (N.addUnrenderableRow row protectedNode l).Conserves (seen ++ row) := by
  have hfold (renderedBefore : Nat) (row : List (FileMetadata F)) :
      ∀ {l : Layout F} {seen : List (FileMetadata F)}, l.Conserves seen →
      (row.foldl (N.addUnrenderableFile protectedNode renderedBefore) l).Conserves (seen ++ row) := by
    induction row with
    | nil =>
      intro l seen h
      rw [List.append_nil]
      exact h
    | cons file row ih =>
      intro l seen h
      rw [List.foldl_cons, ← List.singleton_append, ← List.append_assoc]
      exact ih (conserves_addUnrenderableFile h renderedBefore file)
  have hmarked : Layout.Conserves { l with map := N.markRemainingUnrenderable l.map } seen := by
    refine h.congr ?_ rfl
    show (N.markRemainingUnrenderable l.map).tiles = l.map.tiles
    unfold markRemainingUnrenderable
    split <;> rfl
  have hlaid := hfold (N.markRemainingUnrenderable l.map).tiles.length row hmarked
  unfold addUnrenderableRow
  dsimp only
  split
  · exact hlaid.congr rfl rfl
  · exact hlaid

theorem conserves_layoutFile (h : l.Conserves seen) (rect : RectFloat F) (file : FileMetadata F) :
    (N.layoutFile rect file protectedNode l).Conserves (seen ++ [file]) := by
  unfold layoutFile
  dsimp only
  split
  · refine h.omit file l.map.tiles.length ?_ rfl
    unfold addUnrenderableTile
    dsimp only
    split <;> rfl
  · exact conserves_pushTile h rect file

theorem conserves_layoutFiles (frame : RowFrame F) (row : List (FileMetadata F))
    {firstStart cumulative : F} (h : l.Conserves seen) :
    (N.layoutFiles frame protectedNode firstStart cumulative l row).Conserves (seen ++ row) := by
  induction row generalizing l seen firstStart cumulative with
  | nil =>
    rw [List.append_nil]
    exact h
  | cons file row ih =>
    rw [← List.singleton_append, ← List.append_assoc]
    exact ih (conserves_layoutFile h _ file)

theorem conserves_layoutRow (h : l.Conserves seen) (row : List (FileMetadata F)) :
    (N.layoutRow row protectedNode l).Conserves (seen ++ row) := by
  unfold layoutRow
  dsimp only
  refine iteInduction (motive := fun l' => Layout.Conserves l' (seen ++ row)) (fun hempty => ?_)
    fun _ => ?_
  · rw [List.isEmpty_iff.mp hempty, List.append_nil]
    exact h
  · -- a row without an extent is left out, unless an entry of it is protected
    refine iteInduction (motive := fun l' => Layout.Conserves l' (seen ++ row))
      (fun _ => conserves_addUnrenderableRow h row) fun _ => ?_
    refine iteInduction (motive := fun l' => Layout.Conserves l' (seen ++ row))
      (fun _ => conserves_addUnrenderableRow h row) fun _ => ?_
    exact iteInduction (motive := fun l' => Layout.Conserves l' (seen ++ row))
      (fun _ => conserves_addUnrenderableRow h row)
      fun _ => (conserves_layoutFiles _ row h).congr rfl rfl

/-- An empty row takes the next child, whatever its size. -/
theorem joinsRow_empty (space : RectFloat F) (candidate : RowMetrics F) :
    N.joinsRow space N.emptyRow candidate = true := by
  have hnone (length minimumFirst minimumSecond : F) :
      N.worstRenderableRatio N.emptyRow length minimumFirst minimumSecond = none := by
    unfold worstRenderableRatio emptyRow
    dsimp only
    rw [N.zero_le_zero, Bool.true_or, Bool.true_or, if_pos rfl]
  unfold joinsRow
  dsimp only
  rw [hnone]

/-- Each child joins a row once, and no row that has none is laid out. -/
theorem squarifyFrom_conserves (fuel : Nat) (row rest : List (FileMetadata F))
    (metrics : RowMetrics F) (h : l.Conserves seen) (hempty : row = [] → metrics = N.emptyRow)
    (hfuel : 2 * rest.length + (if row.isEmpty then 0 else 1) ≤ fuel) :
    ∃ laid, N.squarifyFrom protectedNode fuel row rest metrics l = some laid ∧
      laid.Conserves (seen ++ row ++ rest) := by
  induction fuel generalizing row rest metrics l seen with
  | zero =>
    have hrest : rest = [] := List.length_eq_zero_iff.mp (by omega)
    subst hrest
    rw [List.append_nil]
    exact ⟨_, by unfold squarifyFrom; rfl, conserves_layoutRow h row⟩
  | succ fuel ih =>
    cases rest with
    | nil =>
      rw [List.append_nil]
      exact ⟨_, by unfold squarifyFrom; rfl, conserves_layoutRow h row⟩
    | cons file rest =>
      rw [List.length_cons] at hfuel
      unfold squarifyFrom
      dsimp only
      split
      · -- the row takes the child
        obtain ⟨laid, hlaid, hall⟩ := ih (row ++ [file]) rest _ h
          (fun heq => absurd heq (by simp)) (by split <;> omega)
        refine ⟨laid, hlaid, ?_⟩
        rw [List.append_assoc seen, List.append_assoc row, List.singleton_append,
          ← List.append_assoc seen] at hall
        exact hall
      · -- the row is laid out, and it was not empty
        rename_i hfull
        have hrow : row ≠ [] := by
          rintro rfl
          rw [hempty rfl] at hfull
          exact hfull (joinsRow_empty _ _)
        have hspent : (if row.isEmpty then 0 else 1) = 1 :=
          if_neg fun heq => hrow (List.isEmpty_iff.mp heq)
        rw [hspent] at hfuel
        obtain ⟨laid, hlaid, hall⟩ := ih [] (file :: rest) N.emptyRow
          (conserves_layoutRow h row) (fun _ => rfl) (by rw [List.length_cons]; simp; omega)
        refine ⟨laid, hlaid, ?_⟩
        rw [List.append_nil] at hall
        exact hall

end LayoutNumbers

/-! ## The summary -/

/-- The tiles that the summary takes the place of are counted in it. -/
theorem TreeMap.reserveOverflowRegion_conserves {l : Layout F} {seen : List (FileMetadata F)}
    (h : l.Conserves seen) (rawX rawY : Nat) (protectedNode : Option NodeId) :
    (TreeMap.reserveOverflowRegion rawX rawY protectedNode l).2.Conserves seen := by
  have htake (crosses : Tile F → Bool) :
      Layout.Conserves
        { map := { l.map with tiles := l.map.tiles.filter fun tile => !crosses tile }
          omitted := l.omitted.merge
            ((l.map.tiles.filter crosses).foldl OverflowAccounting.addTile .empty) } seen := by
    obtain ⟨dropped, hcounts, hperm⟩ := h
    have hreserved := OverflowAccounting.counts_empty.addTiles (l.map.tiles.filter crosses)
    rw [List.nil_append] at hreserved
    refine ⟨_, hcounts.merge hreserved, ?_⟩
    have hsplit : ((l.map.tiles.filter fun tile => !crosses tile) ++
        l.map.tiles.filter crosses).Perm l.map.tiles :=
      List.perm_append_comm.trans (List.filter_append_perm crosses l.map.tiles)
    have hmoved : ((l.map.tiles.filter fun tile => !crosses tile).map Tile.entry ++
        (dropped ++ (l.map.tiles.filter crosses).map Tile.entry)).Perm
        (l.map.tiles.map Tile.entry ++ dropped) := by
      refine (List.perm_append_comm.append_left _).trans ?_
      rw [← List.append_assoc, ← List.map_append]
      exact (hsplit.map Tile.entry).append_right dropped
    exact hmoved.trans hperm
  unfold TreeMap.reserveOverflowRegion
  dsimp only
  split
  · exact h
  · split
    · exact h
    · split
      · exact h
      · split
        · exact h
        · split
          · exact h
          · exact htake _

theorem TreeMap.reserveOverflowRegion_entries {l : Layout F} (h : l.omitted.entries ≠ 0)
    (rawX rawY : Nat) (protectedNode : Option NodeId) :
    (TreeMap.reserveOverflowRegion rawX rawY protectedNode l).2.omitted.entries ≠ 0 := by
  have hmerge (o : OverflowAccounting) : (l.omitted.merge o).entries ≠ 0 := by
    show satAdd 64 l.omitted.entries o.entries ≠ 0
    unfold satAdd satMax
    omega
  unfold TreeMap.reserveOverflowRegion
  dsimp only
  split
  · exact h
  · split
    · exact h
    · split
      · exact h
      · split
        · exact h
        · split
          · exact h
          · exact hmerge _

namespace LayoutNumbers

variable {N : LayoutNumbers F}

theorem summarize_conserves {l : Layout F} {seen : List (FileMetadata F)} (h : l.Conserves seen)
    (protectedNode : Option NodeId) :
    ∃ dropped, ((N.summarize protectedNode l).tiles.map Tile.entry ++ dropped).Perm seen ∧
      match (N.summarize protectedNode l).overflow with
      | none => dropped = []
      | some overflow =>
        dropped ≠ [] ∧ overflow.entries = min dropped.length (satMax 64) ∧
          overflow.bytes = min (dropped.map FileMetadata.size).sum (satMax 128) ∧
          overflow.uncertain = dropped.any FileMetadata.uncertain := by
  unfold summarize
  by_cases hnone : l.omitted.entries = 0
  · rw [if_pos hnone]
    obtain ⟨dropped, hcounts, hperm⟩ := h
    exact ⟨dropped, hperm, hcounts.eq_zero_iff.mp hnone⟩
  · rw [if_neg hnone]
    dsimp only
    obtain ⟨dropped, hcounts, hperm⟩ := TreeMap.reserveOverflowRegion_conserves h
      (l.map.unrenderableTileCoordinates.getD
        (N.terminalCoordinate l.map.emptySpace.x, N.halfRowCoordinate l.map.emptySpace.y)).1
      (l.map.unrenderableTileCoordinates.getD
        (N.terminalCoordinate l.map.emptySpace.x, N.halfRowCoordinate l.map.emptySpace.y)).2
      protectedNode
    exact ⟨dropped, hperm,
      mt hcounts.eq_zero_iff.mpr (TreeMap.reserveOverflowRegion_entries hnone _ _ protectedNode),
      hcounts.entries, hcounts.bytes, hcounts.uncertain⟩

/-- The layout of a new map ends within two rounds a child, with every child either a tile or in the
overflow summary, once. -/
theorem treemap_conserves (N : LayoutNumbers F) (area : Rect) (children : List (FileMetadata F))
    (protectedNode : Option NodeId) :
    ∃ m dropped,
      N.populateTiles (2 * children.length) children protectedNode (N.newMap area) = some m ∧
      (m.tiles.map Tile.entry ++ dropped).Perm children ∧
      match m.overflow with
      | none => dropped = []
      | some overflow =>
        dropped ≠ [] ∧ overflow.entries = min dropped.length (satMax 64) ∧
          overflow.bytes = min (dropped.map FileMetadata.size).sum (satMax 128) ∧
          overflow.uncertain = dropped.any FileMetadata.uncertain := by
  have hnew : Layout.Conserves ⟨N.newMap area, .empty⟩ ([] : List (FileMetadata F)) :=
    ⟨[], OverflowAccounting.counts_empty, List.Perm.refl _⟩
  obtain ⟨laid, hlaid, hall⟩ := @squarifyFrom_conserves F N _ [] protectedNode
    (2 * children.length) [] children N.emptyRow hnew (fun _ => rfl) (Nat.le_refl _)
  obtain ⟨dropped, hperm, hsummary⟩ := summarize_conserves hall protectedNode
  refine ⟨_, dropped, ?_, hperm, hsummary⟩
  unfold populateTiles squarify
  rw [hlaid]
  rfl

/-- Exact numbers in place of `f64`. -/
def exactNumbers : LayoutNumbers Rat where
  ofNat := fun n => n
  add := (· + ·)
  sub := (· - ·)
  mul := (· * ·)
  div := (· / ·)
  fmin := min
  fmax := max
  clamp := fun value least greatest => min (max value least) greatest
  round := fun value => (value + 1 / 2).floor
  isFinite := fun _ => true
  eq := fun a b => decide (a = b)
  lt := fun a b => decide (a < b)
  le := fun a b => decide (a ≤ b)
  asU16 := fun value => min value.floor.toNat 65535
  asU32 := fun value => min value.floor.toNat 4294967295
  heightWidthRatio := 5 / 4
  roundingSlack := 1 / 1000000000
  zero_le_zero := by decide

/-- Nine parts of ten are drawn, the last one is too narrow. -/
example :
    ((exactNumbers.populateTiles 4
      [⟨⟨0⟩, [97], 900, 900, none, 9 / 10, .File, none, false⟩,
        ⟨⟨1⟩, [98], 100, 100, none, 1 / 10, .File, none, true⟩] none
      (exactNumbers.newMap ⟨0, 0, 20, 4⟩)).map fun m =>
        (m.tiles.map fun tile => tile.nodeId.index, m.overflow)) =
      some ([0], some ⟨18, 0, 1, 100, true⟩) := by
  decide +kernel

end LayoutNumbers

end Excise
