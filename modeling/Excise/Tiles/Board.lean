import Excise.Lib.Machine
import Excise.Tiles.Treemap
import Mathlib.Data.List.Nodup

/-!
# The board's cursor

`Board` of `state/tiles/board.rs` without its movement: what it lists, the tiles laid out for it and
the cursor, which a refresh carries by name.
-/

namespace Excise
set_option autoImplicit false

variable {F : Type}

/-! ## What is listed -/

def FileMetadata.isInteractive (file : FileMetadata F) : Bool :=
  decide (file.syntheticKind ≠ some .Shared)

def Tile.isInteractive (tile : Tile F) : Bool := decide (tile.syntheticKind ≠ some .Shared)

/-- Equal but for the id that its map gave the entry. -/
def FileMetadata.isSameEntryAs [DecidableEq F] (file other : FileMetadata F) : Bool :=
  decide (file.name = other.name) && decide (file.size = other.size) &&
    decide (file.apparentSize = other.apparentSize) &&
    decide (file.descendants = other.descendants) && decide (file.percentage = other.percentage) &&
    decide (file.fileType = other.fileType) && decide (file.syntheticKind = other.syntheticKind) &&
    decide (file.uncertain = other.uncertain)

/-- The entries of a folder. A page has an id for each of them. -/
structure FileList (F : Type) where
  entries : List (FileMetadata F)
  distinctNames : (entries.map FileMetadata.name).Nodup
  distinctIds : (entries.map FileMetadata.nodeId).Nodup

namespace FileList

def empty : FileList F := ⟨[], List.nodup_nil, List.nodup_nil⟩

theorem eq_of_nodeId (files : FileList F) {file other : FileMetadata F} (h : file ∈ files.entries)
    (h' : other ∈ files.entries) (hid : file.nodeId = other.nodeId) : file = other :=
  List.inj_on_of_nodup_map files.distinctIds h h' hid

end FileList

structure DatasetView where
  folder : NodeId
  filter : Option String
  zoomLevel : Nat
  deriving DecidableEq, Repr

structure Board (F : Type) where
  tiles : List (Tile F)
  overflow : Option MapOverflow
  selectedIndex : Option Nat
  selectionLocked : Bool
  selectionCleared : Bool
  zoomLevel : Nat
  area : Rect
  files : FileList F
  listLayout : Bool
  listOffset : Nat
  view : Option DatasetView

namespace LayoutNumbers

variable (N : LayoutNumbers F)

/-- `==` of two entries. -/
def sameMetadata (file other : FileMetadata F) : Bool :=
  decide (file.nodeId = other.nodeId) && decide (file.name = other.name) &&
    decide (file.size = other.size) && decide (file.apparentSize = other.apparentSize) &&
    decide (file.descendants = other.descendants) && N.eq file.percentage other.percentage &&
    decide (file.fileType = other.fileType) && decide (file.syntheticKind = other.syntheticKind) &&
    decide (file.uncertain = other.uncertain)

/-- `==` of two lists of entries. -/
def sameFiles (files others : List (FileMetadata F)) : Bool :=
  decide (files.length = others.length) &&
    (files.zip others).all fun pair => N.sameMetadata pair.1 pair.2

end LayoutNumbers

namespace Board

def new : Board F where
  tiles := []
  overflow := none
  selectedIndex := none
  selectionLocked := false
  selectionCleared := false
  zoomLevel := 0
  area := ⟨0, 0, 0, 0⟩
  files := .empty
  listLayout := false
  listOffset := 0
  view := none

def currentlySelected (b : Board F) : Option (Tile F) := b.selectedIndex.bind (b.tiles[·]?)

/-- A cursor placed ends the clearing kept for an entry that vanished. -/
def placeCursor (index : Option Nat) (b : Board F) : Board F where
  __ := b
  selectedIndex := index
  selectionCleared := if index.isSome then false else b.selectionCleared

def selectLargest (b : Board F) : Board F := b.placeCursor (b.tiles.findIdx? Tile.isInteractive)

/-- The end of `fill_from_selected`: the cursor on the tile of the entry. -/
def selectTile (selected : Option NodeId) (b : Board F) : Board F :=
  let b := { b with
    selectedIndex := selected.bind fun id =>
      b.tiles.findIdx? fun tile : Tile F => decide (tile.nodeId = id) }
  let b := if b.selectedIndex.isNone && !b.selectionLocked then b.selectLargest else b
  if b.selectedIndex.isSome then { b with selectionCleared := false } else b

/-- The interactive entry of that name. -/
def entryNamed (b : Board F) (name : List UInt8) : Option (FileMetadata F) :=
  b.files.entries.find? fun file => decide (file.name = name) && file.isInteractive

def holdsTheSameEntriesAs [DecidableEq F] (b : Board F) (files : FileList F) : Bool :=
  decide (b.files.entries.length = files.entries.length) &&
    (b.files.entries.zip files.entries).all fun pair => pair.1.isSameEntryAs pair.2

/-- The id that the map listing `files` gives an entry of this id. -/
def renumber (b : Board F) (files : FileList F) (id : NodeId) : NodeId :=
  (((b.files.entries.zip files.entries).find? fun pair =>
    decide (pair.1.nodeId ≠ pair.2.nodeId) && decide (pair.1.nodeId = id)).map
      fun pair => pair.2.nodeId).getD id

def adoptNodeIds (files : FileList F) (b : Board F) : Board F :=
  { b with
    tiles := b.tiles.map fun tile => { tile with nodeId := b.renumber files tile.nodeId }
    files := files }

def clampListOffset (visible : Nat) (b : Board F) : Nat :=
  if visible = 0 then 0 else min b.listOffset (b.files.entries.length - visible)

/-- The offset that scrolls a list to an index of it. -/
def scrolledTo (index visible offset : Nat) : Nat :=
  if index < offset then index
  else if satAdd 64 offset visible ≤ index then index + 1 - visible
  else offset

end Board

namespace LayoutNumbers

variable (N : LayoutNumbers F)

/-- The treemap of a new layout, which two rounds for each entry lay out. -/
def treemapOf (area : Rect) (files : List (FileMetadata F)) (selected : Option NodeId) :
    Option (TreeMap F) :=
  N.populateTiles (2 * files.length) files selected (N.newMap area)

/-- The tile of a row of the list. -/
def listTile (area : Rect) (row : Nat) (file : FileMetadata F) : Tile F :=
  N.newTile
    { x := N.ofNat area.x
      y := N.add (N.mul (N.ofNat area.y) (N.ofNat halfRowsPerCell))
        (N.mul (N.ofNat row) (N.ofNat halfRowsPerCell))
      width := N.ofNat area.width
      height := N.ofNat halfRowsPerCell } file

def layOutTiles (selected : Option NodeId) (b : Board F) : Board F :=
  if b.listLayout = false then
    match N.treemapOf b.area b.files.entries selected with
    | some m => { b with tiles := m.tiles, overflow := m.overflow }
    | none => b
  else
    let visible := b.area.height
    let clamped := b.clampListOffset visible
    let offset :=
      if visible = 0 then clamped
      else
        match selected.bind fun id => b.files.entries.findIdx? fun file => decide (file.nodeId = id)
          with
        | some index => Board.scrolledTo index visible clamped
        | none => clamped
    { b with
      listOffset := offset
      overflow := none
      tiles := ((b.files.entries.drop offset).take visible).zipIdx.map fun pair =>
        N.listTile b.area pair.2 pair.1 }

def fillFromSelected (selected : Option (List UInt8)) (b : Board F) : Board F :=
  let b := { b with listLayout := decide (b.area.width < 72) }
  let carried := selected.bind b.entryNamed
  let b := { b with
    selectionCleared :=
      b.selectionCleared || (selected.isSome && carried.isNone && b.selectionLocked) }
  let selected := (carried.or
    (if b.selectionCleared then none else b.files.entries.find? FileMetadata.isInteractive)).map
      FileMetadata.nodeId
  (N.layOutTiles selected b).selectTile selected

def fill (b : Board F) : Board F := N.fillFromSelected (b.currentlySelected.map Tile.name) b

def changeArea (area : Rect) (b : Board F) : Board F :=
  if b.area ≠ area then N.fill { b with area := area } else b

def replaceFiles (files : FileList F) (resetListScroll : Bool) (b : Board F) : Board F :=
  let selected := if resetListScroll then none else b.currentlySelected.map Tile.name
  N.fillFromSelected selected
    { b with files := files, listOffset := if resetListScroll then 0 else b.listOffset }

/-- And whether anything changed. -/
def changeFilesForView [DecidableEq F] (files : FileList F) (folder : NodeId)
    (filter : Option String) (b : Board F) : Bool × Board F :=
  let view : DatasetView := ⟨folder, filter, b.zoomLevel⟩
  let changed := decide (b.view ≠ some view)
  let dataChanged := !N.sameFiles b.files.entries files.entries
  if !changed && !dataChanged then (false, b)
  else if !changed && b.holdsTheSameEntriesAs files then (true, b.adoptNodeIds files)
  else
    (true, N.replaceFiles files changed (if changed then { b with view := some view } else b))

end LayoutNumbers

/-! ## Where the cursor goes -/

theorem Board.scrolledTo_shows {index visible offset : Nat} (h : visible ≠ 0) :
    Board.scrolledTo index visible offset ≤ index ∧
      index < Board.scrolledTo index visible offset + visible := by
  unfold Board.scrolledTo satAdd satMax
  split
  · omega
  · split <;> omega

theorem Board.selectTile_locked {b : Board F} (selected : Option NodeId)
    (hlocked : b.selectionLocked = true) :
    b.selectTile selected =
      { b with
        selectedIndex := selected.bind fun id =>
          b.tiles.findIdx? fun tile => decide (tile.nodeId = id)
        selectionCleared := b.selectionCleared && (selected.bind fun id =>
          b.tiles.findIdx? fun tile => decide (tile.nodeId = id)).isNone } := by
  unfold selectTile
  dsimp only
  rw [hlocked, Bool.not_true, Bool.and_false, if_neg Bool.false_ne_true]
  cases (selected.bind fun id => b.tiles.findIdx? fun tile => decide (tile.nodeId = id)) with
  | none =>
    rw [Option.isNone_none, Bool.and_true]
    rfl
  | some index =>
    rw [Option.isNone_some, Bool.and_false]
    rfl

namespace LayoutNumbers

variable {N : LayoutNumbers F} {b : Board F}

/-- Whether the layout that protects the entry has a tile for it. -/
def shows (N : LayoutNumbers F) (area : Rect) (files : List (FileMetadata F))
    (file : FileMetadata F) : Bool :=
  if area.width < 72 then decide (area.height ≠ 0)
  else (N.treemapOf area files (some file.nodeId)).any fun m =>
    m.tiles.any fun tile => decide (tile.nodeId = file.nodeId)

theorem entries_treemapOf (N : LayoutNumbers F) (area : Rect) (files : List (FileMetadata F))
    (selected : Option NodeId) :
    ∃ m, N.treemapOf area files selected = some m ∧ ∀ tile ∈ m.tiles, tile.entry ∈ files := by
  obtain ⟨m, dropped, hm, hperm, -⟩ := treemap_conserves N area files selected
  refine ⟨m, hm, fun tile htile => hperm.subset ?_⟩
  exact List.mem_append_left _ (List.mem_map_of_mem htile)

theorem entries_listTiles (area : Rect) (window : List (FileMetadata F)) :
    (window.zipIdx.map fun pair => N.listTile area pair.2 pair.1).map Tile.entry = window := by
  rw [List.map_map]
  exact List.zipIdx_map_fst 0 window

theorem entry_mem_of_layOutTiles {selected : Option NodeId} {tile : Tile F}
    (htile : tile ∈ (N.layOutTiles selected b).tiles) : tile.entry ∈ b.files.entries := by
  unfold layOutTiles at htile
  cases hlayout : b.listLayout with
  | false =>
    obtain ⟨m, hm, hentries⟩ := entries_treemapOf N b.area b.files.entries selected
    rw [if_pos hlayout, hm] at htile
    exact hentries tile htile
  | true =>
    rw [if_neg (by rw [hlayout]; decide)] at htile
    have hmem := List.mem_map_of_mem (f := Tile.entry) htile
    rw [entries_listTiles] at hmem
    exact List.mem_of_mem_drop (List.mem_of_mem_take hmem)

theorem any_layOutTiles {file : FileMetadata F} (hfile : file ∈ b.files.entries)
    (hlist : b.listLayout = decide (b.area.width < 72)) :
    ((N.layOutTiles (some file.nodeId) b).tiles.any fun tile => decide (tile.nodeId = file.nodeId)) =
      N.shows b.area b.files.entries file := by
  unfold layOutTiles shows
  by_cases hwidth : b.area.width < 72
  · have hlayout : ¬b.listLayout = false := by rw [hlist, decide_eq_true hwidth]; decide
    rw [if_neg hlayout, if_pos hwidth]
    obtain ⟨index, hindex⟩ : ∃ index, (b.files.entries.findIdx? fun other =>
        decide (other.nodeId = file.nodeId)) = some index :=
      ⟨_, List.findIdx?_eq_some_of_exists ⟨file, hfile, decide_eq_true rfl⟩⟩
    obtain ⟨hlength, hnode, -⟩ := List.findIdx?_eq_some_iff_getElem.mp hindex
    rw [Option.bind_some, hindex]
    dsimp only
    have hany (window : List (FileMetadata F)) :
        ((window.zipIdx.map fun pair => N.listTile b.area pair.2 pair.1).any fun tile =>
          decide (tile.nodeId = file.nodeId)) =
        window.any fun other => decide (other.nodeId = file.nodeId) := by
      conv_rhs => rw [← @entries_listTiles F N b.area window]
      rw [List.any_map, List.any_map, List.any_map]
      rfl
    rw [hany]
    by_cases hheight : b.area.height = 0
    · rw [hheight, List.take_zero]
      rfl
    · obtain ⟨hlow, hhigh⟩ := @Board.scrolledTo_shows index b.area.height
        (b.clampListOffset b.area.height) hheight
      rw [if_neg hheight, decide_eq_true hheight, List.any_eq_true]
      generalize Board.scrolledTo index b.area.height (b.clampListOffset b.area.height) = offset
        at hlow hhigh
      refine ⟨b.files.entries[index], ?_, hnode⟩
      rw [List.mem_take_iff_getElem]
      refine ⟨index - offset, by rw [List.length_drop]; omega, ?_⟩
      rw [List.getElem_drop]
      congr 1
      omega
  · have hlayout : b.listLayout = false := by rw [hlist, decide_eq_false hwidth]
    rw [if_pos hlayout, if_neg hwidth]
    obtain ⟨m, hm, -⟩ := entries_treemapOf N b.area b.files.entries (some file.nodeId)
    rw [hm]
    rfl

theorem layOutTiles_frame (N : LayoutNumbers F) (selected : Option NodeId) (b : Board F) :
    ∃ tiles overflow offset, N.layOutTiles selected b =
      { b with tiles := tiles, overflow := overflow, listOffset := offset } := by
  unfold layOutTiles
  split
  · split
    · exact ⟨_, _, b.listOffset, rfl⟩
    · exact ⟨b.tiles, b.overflow, b.listOffset, rfl⟩
  · exact ⟨_, _, _, rfl⟩

/-- The tile that the cursor is put on. -/
theorem find_layOutTiles {file : FileMetadata F} (hfile : file ∈ b.files.entries)
    (hlist : b.listLayout = decide (b.area.width < 72)) :
    ((N.layOutTiles (some file.nodeId) b).tiles.find? fun tile =>
      decide (tile.nodeId = file.nodeId)).map Tile.entry =
      if N.shows b.area b.files.entries file then some file else none := by
  rw [← any_layOutTiles hfile hlist]
  cases hfind : (N.layOutTiles (some file.nodeId) b).tiles.find? fun tile =>
      decide (tile.nodeId = file.nodeId) with
  | none =>
    rw [if_neg]
    · rfl
    · rw [List.any_eq_true]
      rintro ⟨tile, htile, hid⟩
      exact List.find?_eq_none.mp hfind tile htile hid
  | some tile =>
    have htile := List.mem_of_find?_eq_some hfind
    have hid := List.find?_some hfind
    rw [if_pos (List.any_eq_true.mpr ⟨tile, htile, hid⟩), Option.map_some]
    exact congrArg some (b.files.eq_of_nodeId (entry_mem_of_layOutTiles htile) hfile
      (of_decide_eq_true hid))

/-! ## One fill -/

/-- Whether the fill says that the entry of a placed cursor is gone. -/
def clears (selected : Option (List UInt8)) (b : Board F) : Bool :=
  b.selectionCleared ||
    (selected.isSome && (selected.bind b.entryNamed).isNone && b.selectionLocked)

/-- The entry that the fill puts the cursor on, if it has a tile. -/
def target (selected : Option (List UInt8)) (b : Board F) : Option (FileMetadata F) :=
  (selected.bind b.entryNamed).or
    (if clears selected b then none else b.files.entries.find? FileMetadata.isInteractive)

theorem target_mem {selected : Option (List UInt8)} {file : FileMetadata F}
    (h : target selected b = some file) : file ∈ b.files.entries := by
  rcases Option.or_eq_some_iff.mp h with hcarried | ⟨-, hfirst⟩
  · obtain ⟨name, -, hname⟩ := Option.bind_eq_some_iff.mp hcarried
    exact List.mem_of_find?_eq_some hname
  · split at hfirst
    · cases hfirst
    · exact List.mem_of_find?_eq_some hfirst

/-- The board that is laid out. -/
def prepared (selected : Option (List UInt8)) (b : Board F) : Board F :=
  { b with listLayout := decide (b.area.width < 72), selectionCleared := clears selected b }

/-- The tile that the fill of a board with a placed cursor puts it on. -/
theorem fillFromSelected_locked (N : LayoutNumbers F) (selected : Option (List UInt8))
    (hlocked : b.selectionLocked = true) :
    ∃ tiles overflow offset index, N.fillFromSelected selected b =
        { prepared selected b with
          tiles := tiles
          overflow := overflow
          listOffset := offset
          selectedIndex := index
          selectionCleared := clears selected b && index.isNone } ∧
      (∀ i, index = some i → i < tiles.length) ∧ (index.bind (tiles[·]?)).map Tile.entry =
        (target selected b).filter (N.shows b.area b.files.entries) := by
  obtain ⟨tiles, overflow, offset, hlaid⟩ := layOutTiles_frame N
    ((target selected b).map FileMetadata.nodeId) (prepared selected b)
  let index := ((target selected b).map FileMetadata.nodeId).bind fun id =>
    tiles.findIdx? fun tile => decide (tile.nodeId = id)
  refine ⟨tiles, overflow, offset, index, ?_, ?_, ?_⟩
  · have hlocked' : (N.layOutTiles ((target selected b).map FileMetadata.nodeId)
        (prepared selected b)).selectionLocked = true := by
      rw [hlaid]
      exact hlocked
    have hfill := Board.selectTile_locked ((target selected b).map FileMetadata.nodeId) hlocked'
    rw [hlaid] at hfill
    show (N.layOutTiles ((target selected b).map FileMetadata.nodeId)
      (prepared selected b)).selectTile ((target selected b).map FileMetadata.nodeId) = _
    rw [hlaid]
    exact hfill
  · intro i hi
    obtain ⟨id, -, hfound⟩ := Option.bind_eq_some_iff.mp hi
    exact (List.findIdx?_eq_some_iff_getElem.mp hfound).choose
  · show ((((target selected b).map FileMetadata.nodeId).bind fun id =>
      tiles.findIdx? fun tile => decide (tile.nodeId = id)).bind (tiles[·]?)).map Tile.entry = _
    cases htarget : target selected b with
    | none => rfl
    | some file =>
      have hfound := @find_layOutTiles F N (prepared selected b) file
        (show file ∈ b.files.entries from target_mem htarget) rfl
      rw [htarget, Option.map_some] at hlaid
      rw [hlaid] at hfound
      rw [Option.map_some, Option.bind_some, ← List.find?_eq_bind_findIdx?_getElem?,
        Option.filter_some]
      exact hfound

/-- The cursor is nowhere but on the entry of that name. -/
def OnlyOn (name : List UInt8) (b : Board F) : Prop :=
  ∀ tile, b.currentlySelected = some tile → tile.name = name

/-- What the fill of a placed cursor leaves on the board. -/
theorem onlyOn_fillFromSelected_iff {name : List UInt8} {selected : Option (List UInt8)}
    (hlocked : b.selectionLocked = true) :
    OnlyOn name (N.fillFromSelected selected b) ↔
      ∀ file, target selected b = some file → N.shows b.area b.files.entries file = true →
        file.name = name := by
  obtain ⟨tiles, overflow, offset, index, hfill, -, hindex⟩ :=
    fillFromSelected_locked N selected hlocked
  have hselected : (N.fillFromSelected selected b).currentlySelected.map Tile.entry =
      (target selected b).filter (N.shows b.area b.files.entries) := by
    rw [hfill]
    exact hindex
  constructor
  · intro honly file htarget hshows
    rw [htarget, Option.filter_some, if_pos hshows] at hselected
    obtain ⟨tile, htile, rfl⟩ := Option.map_eq_some_iff.mp hselected
    exact honly tile htile
  · intro hall tile htile
    rw [htile, Option.map_some] at hselected
    obtain ⟨htarget, hshows⟩ := Option.filter_eq_some_iff.mp hselected.symm
    exact hall tile.entry htarget hshows

theorem target_of_selected {name : List UInt8} (hlocked : b.selectionLocked = true) {file : FileMetadata F}
    (h : target (some name) b = some file) : b.entryNamed name = some file := by
  unfold target clears at h
  rw [Option.bind_some, hlocked] at h
  cases hcarried : b.entryNamed name with
  | none =>
    rw [hcarried] at h
    cases hcleared : b.selectionCleared <;> rw [hcleared] at h <;> cases h
  | some carried =>
    rw [hcarried] at h
    exact h

theorem target_of_none :
    target none b =
      if b.selectionCleared then none else b.files.entries.find? FileMetadata.isInteractive := by
  unfold target clears
  rw [Option.bind_none, Option.none_or, Option.isSome_none, Bool.false_and, Bool.false_and,
    Bool.or_false]

theorem name_of_entryNamed {name : List UInt8} {file : FileMetadata F} (h : b.entryNamed name = some file) :
    file.name = name := by
  unfold Board.entryNamed at h
  have hfound := List.find?_some h
  exact of_decide_eq_true (Bool.and_eq_true_iff.mp hfound).1

/-- The reader has placed a cursor and stays in the view. -/
structure Held (folder : NodeId) (filter : Option String) (b : Board F) : Prop where
  locked : b.selectionLocked = true
  inView : b.view = some ⟨folder, filter, b.zoomLevel⟩

/-- The reader has placed the cursor on the entry of that name. -/
structure PlacedOn (folder : NodeId) (filter : Option String) (name : List UInt8) (b : Board F) :
    Prop extends Held folder filter b where
  selected : b.currentlySelected.map Tile.name = some name

theorem PlacedOn.onlyOn {folder : NodeId} {filter : Option String} {name : List UInt8}
    (h : PlacedOn folder filter name b) : OnlyOn name b := by
  intro tile htile
  have hname := h.selected
  rw [htile] at hname
  exact Option.some.inj hname

/-! ## Refreshes -/

/-- A resize, or the files that the map in hand lists for the view. -/
inductive Refresh (F : Type) where
  | changeArea (area : Rect)
  | changeFilesForView (files : FileList F)

section

variable [DecidableEq F]

/-- A board that a program refreshes while the reader stays in a view. -/
def board (N : LayoutNumbers F) (folder : NodeId) (filter : Option String) :
    Machine (Board F) (Refresh F) Unit where
  step b
    | .changeArea area => (N.changeArea area b, ())
    | .changeFilesForView files => ((N.changeFilesForView files folder filter b).2, ())

/-- The area and the files that a refresh lays out anew. -/
def relaid (N : LayoutNumbers F) (b : Board F) : Refresh F → Option (Rect × FileList F)
  | .changeArea area => if b.area ≠ area then some (area, b.files) else none
  | .changeFilesForView files =>
    if N.sameFiles b.files.entries files.entries || b.holdsTheSameEntriesAs files then none
    else some (b.area, files)

/-- A refresh of a board that holds neither a cursor nor the mark of a cleared one, and that has a
tile for the first entry it could put one on. -/
def ArmsAnother (N : LayoutNumbers F) (name : List UInt8) (b : Board F) (refresh : Refresh F) :
    Prop :=
  b.currentlySelected = none ∧ b.selectionCleared = false ∧
    ∃ area files file, N.relaid b refresh = some (area, files) ∧
      files.entries.find? FileMetadata.isInteractive = some file ∧ file.name ≠ name ∧
      N.shows area files.entries file = true

variable {folder : NodeId} {filter : Option String} {name : List UInt8} {refresh : Refresh F}

theorem step_of_relaid (hheld : Held folder filter b) {area : Rect} {files : FileList F}
    (h : N.relaid b refresh = some (area, files)) :
    ∃ b', b'.area = area ∧ b'.files = files ∧ b'.selectionLocked = true ∧
      b'.selectionCleared = b.selectionCleared ∧ b'.view = b.view ∧ b'.zoomLevel = b.zoomLevel ∧
      ((N.board folder filter).step b refresh).1 =
        N.fillFromSelected (b.currentlySelected.map Tile.name) b' := by
  cases refresh with
  | changeArea newArea =>
    unfold relaid at h
    dsimp only at h
    split at h
    · rename_i harea
      obtain ⟨rfl, rfl⟩ := Prod.mk.inj (Option.some.inj h)
      refine ⟨{ b with area := newArea }, rfl, rfl, hheld.locked, rfl, rfl, rfl, ?_⟩
      show N.changeArea newArea b = _
      unfold changeArea
      rw [if_pos harea]
      rfl
    · cases h
  | changeFilesForView newFiles =>
    unfold relaid at h
    dsimp only at h
    split at h
    · cases h
    · rename_i hdiffer
      obtain ⟨hsame, hholds⟩ := Bool.or_eq_false_iff.mp (Bool.eq_false_iff.mpr hdiffer)
      obtain ⟨rfl, rfl⟩ := Prod.mk.inj (Option.some.inj h)
      refine ⟨{ b with files := newFiles }, rfl, rfl, hheld.locked, rfl, rfl, rfl, ?_⟩
      show (N.changeFilesForView newFiles folder filter b).2 = _
      unfold changeFilesForView
      dsimp only
      rw [decide_eq_false (not_not_intro hheld.inView), hsame, hholds]
      rfl

theorem step_of_not_relaid (hheld : Held folder filter b) (h : N.relaid b refresh = none) :
    (((N.board folder filter).step b refresh).1.currentlySelected.map Tile.name =
        b.currentlySelected.map Tile.name) ∧
      ((N.board folder filter).step b refresh).1.selectionCleared = b.selectionCleared ∧
      Held folder filter ((N.board folder filter).step b refresh).1 := by
  cases refresh with
  | changeArea newArea =>
    unfold relaid at h
    dsimp only at h
    split at h
    · cases h
    · rename_i harea
      have hstep : ((N.board folder filter).step b (.changeArea newArea)).1 = b := by
        show N.changeArea newArea b = b
        unfold changeArea
        rw [if_neg harea]
      rw [hstep]
      exact ⟨rfl, rfl, hheld⟩
  | changeFilesForView newFiles =>
    have hstep : ((N.board folder filter).step b (.changeFilesForView newFiles)).1 = b ∨
        ((N.board folder filter).step b (.changeFilesForView newFiles)).1 =
          b.adoptNodeIds newFiles := by
      show (N.changeFilesForView newFiles folder filter b).2 = b ∨
        (N.changeFilesForView newFiles folder filter b).2 = b.adoptNodeIds newFiles
      unfold relaid at h
      dsimp only at h
      unfold changeFilesForView
      dsimp only
      rw [decide_eq_false (not_not_intro hheld.inView)]
      split at h
      · rename_i hkept
        cases hsame : N.sameFiles b.files.entries newFiles.entries with
        | true => exact Or.inl rfl
        | false =>
          rw [hsame, Bool.false_or] at hkept
          rw [hkept]
          exact Or.inr rfl
      · cases h
    rcases hstep with hstep | hstep
    · rw [hstep]
      exact ⟨rfl, rfl, hheld⟩
    · rw [hstep]
      refine ⟨?_, rfl, hheld.locked, hheld.inView⟩
      show (b.selectedIndex.bind ((b.tiles.map fun tile =>
        { tile with nodeId := b.renumber newFiles tile.nodeId })[·]?)).map Tile.name =
        (b.selectedIndex.bind (b.tiles[·]?)).map Tile.name
      cases b.selectedIndex with
      | none => rfl
      | some index =>
        rw [Option.bind_some, Option.bind_some, List.getElem?_map, Option.map_map]
        rfl

/-! ## The cursor through a run -/

theorem Held.step (hheld : Held folder filter b) (refresh : Refresh F) :
    Held folder filter ((N.board folder filter).step b refresh).1 := by
  cases hrelaid : N.relaid b refresh with
  | none => exact (step_of_not_relaid hheld hrelaid).2.2
  | some anew =>
    obtain ⟨b', -, -, hlocked, -, hview, hzoom, hstep⟩ := step_of_relaid hheld hrelaid
    obtain ⟨tiles, overflow, offset, index, hfill, -, -⟩ :=
      fillFromSelected_locked N (b.currentlySelected.map Tile.name) hlocked
    rw [hstep, hfill]
    refine ⟨hlocked, ?_⟩
    show b'.view = some ⟨folder, filter, b'.zoomLevel⟩
    rw [hview, hzoom, hheld.inView]

/-- One refresh leaves the cursor where it was if and only if it arms no other entry. -/
theorem onlyOn_step_iff (hheld : Held folder filter b) (honly : OnlyOn name b)
    (refresh : Refresh F) :
    OnlyOn name ((N.board folder filter).step b refresh).1 ↔ ¬N.ArmsAnother name b refresh := by
  cases hrelaid : N.relaid b refresh with
  | none =>
    refine iff_of_true (fun tile htile => ?_) ?_
    · have hname := (step_of_not_relaid hheld hrelaid).1
      rw [htile, Option.map_some] at hname
      obtain ⟨before, hbefore, hsame⟩ := Option.map_eq_some_iff.mp hname.symm
      rw [← hsame]
      exact honly before hbefore
    · rintro ⟨-, -, area, files, file, hanew, -⟩
      rw [hrelaid] at hanew
      cases hanew
  | some anew =>
    obtain ⟨area, files⟩ := anew
    obtain ⟨b', rfl, rfl, hlocked, hcleared, -, -, hstep⟩ := step_of_relaid hheld hrelaid
    rw [hstep, onlyOn_fillFromSelected_iff hlocked]
    cases hcursor : b.currentlySelected with
    | some tile =>
      -- the cursor is carried by name
      obtain rfl := honly tile hcursor
      refine iff_of_true (fun file htarget _ => ?_) ?_
      · exact name_of_entryNamed (target_of_selected hlocked htarget)
      · rintro ⟨hnone, -⟩
        rw [hcursor] at hnone
        cases hnone
    | none =>
      rw [Option.map_none, target_of_none, hcleared]
      constructor
      · rintro hall ⟨-, hunmarked, area, files, file, hanew, hfirst, hother, hshows⟩
        obtain ⟨rfl, rfl⟩ := Prod.mk.inj (Option.some.inj (hrelaid.symm.trans hanew))
        rw [hunmarked] at hall
        exact hother (hall file hfirst hshows)
      · intro harms file htarget hshows
        cases hmark : b.selectionCleared with
        | true =>
          rw [hmark] at htarget
          cases htarget
        | false =>
          rw [hmark] at htarget
          by_contra hother
          exact harms ⟨hcursor, hmark, b'.area, b'.files, file, hrelaid, htarget, hother, hshows⟩

/-- The cursor that the reader placed on an entry is on that entry or nowhere all through the
refreshes if and only if none of them meets a board that has lost it without a mark and can be put on
another entry. -/
theorem cursor_safe_iff (N : LayoutNumbers F) (h : PlacedOn folder filter name b)
    (refreshes : List (Refresh F)) :
    (∀ seen, seen <+: refreshes → OnlyOn name ((N.board folder filter).run b seen)) ↔
      (N.board folder filter).Along (fun b refresh => ¬N.ArmsAnother name b refresh) b
        refreshes := by
  exact (N.board folder filter).safe_iff_along (I := Held folder filter) (S := OnlyOn name)
    (fun _ refresh hheld => hheld.step refresh)
    (fun _ refresh hheld honly => onlyOn_step_iff hheld honly refresh) h.toHeld h.onlyOn refreshes

/-- Whether the refresh keeps a tile for the entry of that name where it lists it. -/
def Shown (N : LayoutNumbers F) (name : List UInt8) (b : Board F) (refresh : Refresh F) : Prop :=
  ∀ area files file, N.relaid b refresh = some (area, files) →
    (files.entries.find? fun file => decide (file.name = name) && file.isInteractive) = some file →
    N.shows area files.entries file = true

/-- A cursor is lost only where its entry is listed and has no tile. -/
theorem step_of_shown (hheld : Held folder filter b) (honly : OnlyOn name b)
    (hcursor : b.currentlySelected = none → b.selectionCleared = true)
    (hshown : N.Shown name b refresh) :
    OnlyOn name ((N.board folder filter).step b refresh).1 ∧
      (((N.board folder filter).step b refresh).1.currentlySelected = none →
        ((N.board folder filter).step b refresh).1.selectionCleared = true) := by
  refine ⟨(onlyOn_step_iff hheld honly refresh).mpr ?_, ?_⟩
  · rintro ⟨hnone, hunmarked, -⟩
    rw [hcursor hnone] at hunmarked
    cases hunmarked
  · cases hrelaid : N.relaid b refresh with
    | none =>
      obtain ⟨hname, hmark, -⟩ := step_of_not_relaid hheld hrelaid
      intro hnone
      rw [hnone] at hname
      rw [hmark]
      exact hcursor (Option.map_eq_none_iff.mp hname.symm)
    | some anew =>
      obtain ⟨area, files⟩ := anew
      obtain ⟨b', rfl, rfl, hlocked, hcleared, -, -, hstep⟩ := step_of_relaid hheld hrelaid
      obtain ⟨tiles, overflow, offset, index, hfill, hbound, hindex⟩ :=
        fillFromSelected_locked N (b.currentlySelected.map Tile.name) hlocked
      rw [hstep, hfill]
      intro hnone
      have htile : index.bind (tiles[·]?) = none := hnone
      have hunselected : index.isNone = true := by
        cases hplace : index with
        | none => rfl
        | some i =>
          rw [hplace, Option.bind_some, List.getElem?_eq_getElem (hbound i hplace)] at htile
          cases htile
      show (clears (b.currentlySelected.map Tile.name) b' && index.isNone) = true
      rw [hunselected, Bool.and_true]
      rw [htile, Option.map_none] at hindex
      unfold clears
      rw [hcleared, hlocked, Bool.and_true]
      cases hselected : b.currentlySelected with
      | none => rw [hcursor hselected, Bool.true_or]
      | some tile =>
        -- the entry is gone, or it has a tile
        obtain rfl := honly tile hselected
        rw [hselected] at hindex
        rw [Option.map_some, Option.bind_some, Option.isSome_some, Bool.true_and]
        cases hcarried : b'.entryNamed tile.name with
        | none => rw [Option.isNone_none, Bool.or_true]
        | some file =>
          have htarget : target (some tile.name) b' = some file := by
            unfold target
            rw [Option.bind_some, hcarried, Option.some_or]
          have hshows := hshown b'.area b'.files file hrelaid hcarried
          rw [Option.map_some, htarget, Option.filter_some, if_pos hshows] at hindex
          cases hindex

/-- Refreshes that keep a tile for the entry, where they list it, keep the cursor on it. -/
theorem cursor_safe_of_shown (h : PlacedOn folder filter name b) {refreshes : List (Refresh F)}
    (hshown : (N.board folder filter).Along (N.Shown name) b refreshes) :
    (N.board folder filter).Along (fun b refresh => ¬N.ArmsAnother name b refresh) b refreshes := by
  have hcursor : b.currentlySelected = none → b.selectionCleared = true := by
    intro hnone
    have hname := h.selected
    rw [hnone] at hname
    cases hname
  refine (N.board folder filter).along_of_invariant (I := fun b => Held folder filter b ∧
    OnlyOn name b ∧ (b.currentlySelected = none → b.selectionCleared = true)) ?_
    ⟨h.toHeld, h.onlyOn, hcursor⟩ hshown
  rintro b refresh ⟨hheld, honly, hcursor⟩ hshown
  have hnext := step_of_shown hheld honly hcursor hshown
  exact ⟨⟨hheld.step refresh, hnext⟩, (onlyOn_step_iff hheld honly refresh).mp hnext.1⟩

end

/-! ## An empty file -/

/-- A file of ten bytes and an empty one. -/
def emptyFileList : FileList Rat where
  entries :=
    [⟨⟨1⟩, [97], 10, 10, none, 1, .File, none, false⟩,
      ⟨⟨2⟩, [122], 0, 0, none, 0, .File, none, false⟩]
  distinctNames := by decide
  distinctIds := by decide

/-- A narrow board whose reader has placed the cursor on the empty file. -/
def emptyFileBoard : Board Rat :=
  { (exactNumbers.changeFilesForView emptyFileList ⟨0⟩ none
      (exactNumbers.changeArea ⟨0, 0, 40, 10⟩ .new)).2.placeCursor (some 1) with
    selectionLocked := true }

theorem emptyFileBoard_placed : PlacedOn ⟨0⟩ none [122] emptyFileBoard where
  locked := rfl
  inView := by decide +kernel
  selected := by decide +kernel

theorem cursor_safe_iff_emptyFileBoard :
    (∀ seen, seen <+: [.changeArea ⟨0, 0, 50, 10⟩, .changeFilesForView emptyFileList] →
      OnlyOn [122] ((exactNumbers.board ⟨0⟩ none).run emptyFileBoard seen)) ↔
      (exactNumbers.board ⟨0⟩ none).Along
        (fun b refresh => ¬exactNumbers.ArmsAnother [122] b refresh) emptyFileBoard
        [.changeArea ⟨0, 0, 50, 10⟩, .changeFilesForView emptyFileList] :=
  cursor_safe_iff exactNumbers emptyFileBoard_placed _

/-- Widened to a map the empty file has no tile, and the next resize selects the other one. -/
theorem cursor_moves_to_another_entry :
    PlacedOn ⟨0⟩ none [122] emptyFileBoard ∧
      ((exactNumbers.board ⟨0⟩ none).run emptyFileBoard
        [.changeArea ⟨0, 0, 80, 24⟩, .changeArea ⟨0, 0, 81, 24⟩]).currentlySelected.map Tile.name =
        some [97] ∧
      ¬OnlyOn [122] ((exactNumbers.board ⟨0⟩ none).run emptyFileBoard
        [.changeArea ⟨0, 0, 80, 24⟩, .changeArea ⟨0, 0, 81, 24⟩]) := by
  have hmoved : ((exactNumbers.board ⟨0⟩ none).run emptyFileBoard
      [.changeArea ⟨0, 0, 80, 24⟩, .changeArea ⟨0, 0, 81, 24⟩]).currentlySelected.map Tile.name =
      some [97] := by decide +kernel
  refine ⟨emptyFileBoard_placed, hmoved, fun honly => ?_⟩
  obtain ⟨tile, htile, hname⟩ := Option.map_eq_some_iff.mp hmoved
  exact absurd (hname.symm.trans (honly tile htile)) (by decide)

end LayoutNumbers

end Excise
