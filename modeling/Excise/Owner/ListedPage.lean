import Excise.Lib.Folds
import Excise.Owner.SnapshotTree

/-!
# A page and the tree built of it

The tree holds the root, the folders down to the page's own, and below that folder what the page
lists, in the order of the page. Ids are positions, so what is looked up by an id or by a path is
the entry the page lists, and only such an entry can become a deletion target.
-/

namespace Excise
set_option autoImplicit false

namespace SnapshotTree
variable {live : RelativePath → Option LiveEntry}

/-! ## Pushed nodes -/

/-- The ids of the nodes pushed below the node at `i`. -/
def childIds (placed : List (NodeId × SnapshotNode)) (i : Nat) : List NodeId :=
  (placed.zipIdx.filter fun p => decide (p.1.1.index = i)).map fun p => ⟨p.2 + 1⟩

/-- The tree is its root and the nodes pushed since, each with the nodes pushed below it. -/
structure Laid (live : RelativePath → Option LiveEntry) (tree : SnapshotTree)
    (placed : List (NodeId × SnapshotNode)) : Prop where
  length : tree.nodes.length = placed.length + 1
  small : tree.nodes.length ≤ 2 ^ 32
  paths : tree.relativePaths = some .root :: placed.map fun p => p.2.relative
  parents : ∀ p ∈ placed, p.1.index < placed.length + 1
  root : ∃ node : Node, node.parent = none ∧ node.kind = .Root ∧
    tree.nodes[0]? = some { node with children := childIds placed 0 }
  node : ∀ (k : Nat) p, placed[k]? = some p → tree.nodes[k + 1]? =
    some { nodeOf live tree.provisional ⟨k + 1⟩ p.1 p.2 with children := childIds placed (k + 1) }

theorem childIds_push (placed : List (NodeId × SnapshotNode)) (parent : NodeId)
    (input : SnapshotNode) (i : Nat) : childIds (placed ++ [(parent, input)]) i =
      childIds placed i ++ if parent.index = i then [⟨placed.length + 1⟩] else [] := by
  unfold childIds
  rw [List.zipIdx_append, List.filter_append, List.map_append]
  congr 1
  rw [List.zipIdx_cons, List.zipIdx_nil, List.filter_cons, Nat.zero_add]
  by_cases h : parent.index = i
  · rw [if_pos h, if_pos (decide_eq_true h)]
    rfl
  · rw [if_neg h, if_neg fun hno => h (of_decide_eq_true hno)]
    rfl

/-- What a push leaves alone. -/
structure SameOutside (tree tree' : SnapshotTree) : Prop where
  rootPath : tree'.rootPath = tree.rootPath
  generation : tree'.generation = tree.generation
  currentRelative : tree'.currentRelative = tree.currentRelative
  currentId : tree'.currentId = tree.currentId
  provisional : tree'.provisional = tree.provisional
  filter : tree'.filter = tree.filter
  limit : tree'.pageMemoryLimit = tree.pageMemoryLimit
  retained : tree'.retainedBytes = tree.retainedBytes

theorem SameOutside.refl (tree : SnapshotTree) : SameOutside tree tree :=
  ⟨rfl, rfl, rfl, rfl, rfl, rfl, rfl, rfl⟩

theorem SameOutside.trans {a b c : SnapshotTree} (h : SameOutside a b) (h' : SameOutside b c) :
    SameOutside a c :=
  ⟨h'.rootPath.trans h.rootPath, h'.generation.trans h.generation,
    h'.currentRelative.trans h.currentRelative, h'.currentId.trans h.currentId,
    h'.provisional.trans h.provisional, h'.filter.trans h.filter, h'.limit.trans h.limit,
    h'.retained.trans h.retained⟩

theorem pushNode_ok {tree tree' : SnapshotTree} {parent id : NodeId} {input : SnapshotNode}
    (h : tree.pushNode live parent input = .ok (tree', id)) :
    tree.nodes.length < 2 ^ 32 ∧ id = ⟨tree.nodes.length⟩ ∧
      ∃ p, tree.nodes[parent.index]? = some p ∧ tree' = { tree with
        nodes := tree.nodes.set parent.index { p with children := p.children ++ [id] } ++
          [nodeOf live tree.provisional id parent input]
        relativePaths := tree.relativePaths ++ [input.relative] } := by
  unfold pushNode at h
  split at h
  · cases h
  · rename_i hsmall
    dsimp only at h
    split at h
    · cases h
    · rename_i p hp
      cases h
      exact ⟨Nat.not_le.mp hsmall, rfl, p, hp, rfl⟩

theorem Laid.push {tree tree' : SnapshotTree} {placed : List (NodeId × SnapshotNode)}
    {parent id : NodeId} {input : SnapshotNode} (h : Laid live tree placed)
    (hpush : tree.pushNode live parent input = .ok (tree', id)) :
    Laid live tree' (placed ++ [(parent, input)]) ∧ id = ⟨placed.length + 1⟩ ∧
      SameOutside tree tree' := by
  obtain ⟨hsmall, rfl, p, hp, rfl⟩ := pushNode_ok hpush
  obtain ⟨hlt, -⟩ := List.getElem?_eq_some_iff.mp hp
  rw [h.length] at *
  -- the node at `i` after the push, given what it was
  have hat {i : Nat} {node : Node} (hi : i < placed.length + 1)
      (hnode : tree.nodes[i]? = some { node with children := childIds placed i }) :
      (tree.nodes.set parent.index { p with children := p.children ++ [⟨placed.length + 1⟩] } ++
        [nodeOf live tree.provisional ⟨placed.length + 1⟩ parent input])[i]? =
          some { node with children := childIds (placed ++ [(parent, input)]) i } := by
    rw [List.getElem?_append_left (by rw [List.length_set, h.length]; exact hi), childIds_push]
    by_cases hi' : parent.index = i
    · subst hi'
      rw [hp] at hnode
      obtain rfl := Option.some.inj hnode
      rw [List.getElem?_set_self (by rw [h.length]; exact hi), if_pos rfl]
    · rw [List.getElem?_set_ne hi', hnode, if_neg hi', List.append_nil]
  refine ⟨⟨?_, ?_, ?_, ?_, ?_, ?_⟩, rfl, ⟨rfl, rfl, rfl, rfl, rfl, rfl, rfl, rfl⟩⟩
  · show (tree.nodes.set _ _ ++ [_]).length = _
    rw [List.length_append, List.length_set, h.length, List.length_append]
    rfl
  · show (tree.nodes.set _ _ ++ [_]).length ≤ _
    rw [List.length_append, List.length_set, h.length]
    exact hsmall
  · show tree.relativePaths ++ [input.relative] = _
    rw [h.paths, List.map_append]
    rfl
  · intro q hq
    rw [List.length_append, List.length_singleton]
    rcases List.mem_append.mp hq with hold | hnew
    · exact Nat.lt_succ_of_lt (h.parents q hold)
    · obtain rfl := List.mem_singleton.mp hnew
      exact Nat.lt_succ_of_lt hlt
  · obtain ⟨node, hparent, hkind, hroot⟩ := h.root
    exact ⟨node, hparent, hkind, hat (Nat.succ_pos _) hroot⟩
  · intro k q hq
    by_cases hk : k < placed.length
    · rw [List.getElem?_append_left hk] at hq
      exact hat (Nat.succ_lt_succ hk) (h.node k q hq)
    · have hlast : k = placed.length := by
        obtain ⟨hlt', -⟩ := List.getElem?_eq_some_iff.mp hq
        rw [List.length_append, List.length_singleton] at hlt'
        omega
      subst hlast
      rw [List.getElem?_append_right (Nat.le_refl _), Nat.sub_self] at hq
      obtain rfl := Option.some.inj hq
      show (tree.nodes.set _ _ ++ [_])[placed.length + 1]? = _
      rw [List.getElem?_append_right (by rw [List.length_set, h.length]), List.length_set, h.length,
        Nat.sub_self, childIds_push, if_neg (Nat.ne_of_lt hlt)]
      have hnone : childIds placed (placed.length + 1) = [] := by
        unfold childIds
        rw [List.map_eq_nil_iff, List.filter_eq_nil_iff]
        rintro ⟨q, k⟩ hq hindex
        obtain ⟨-, hk, hget⟩ := List.mem_zipIdx hq
        have hparent := h.parents q (hget ▸ List.getElem_mem _)
        exact Nat.ne_of_lt hparent (of_decide_eq_true hindex)
      rw [hnone]
      rfl

/-! ## The nodes of a page -/

def ancestorsPlaced (folder : RelativePath) (metrics : SummaryMetrics) (coverage : Coverage) :
    List Component → Nat → List (NodeId × SnapshotNode)
  | [], _ => []
  | component :: rest, index =>
    (⟨index⟩, ancestorNode folder metrics coverage index component) ::
      ancestorsPlaced folder metrics coverage rest (index + 1)

/-- What the page lists, as nodes below its folder. -/
def pageNodes (page : ScanPage) : List SnapshotNode :=
  page.entries.map entryNode ++ page.sharedAllocation.toList.map sharedNode

def placedOf (page : ScanPage) : List (NodeId × SnapshotNode) :=
  ancestorsPlaced page.folder page.folderMetrics page.folderCoverage page.folder.components 0 ++
    (pageNodes page).map fun input => (⟨page.folder.depth⟩, input)

theorem ancestorsPlaced_length {folder : RelativePath} {metrics : SummaryMetrics}
    {coverage : Coverage} (rest : List Component) (index : Nat) :
    (ancestorsPlaced folder metrics coverage rest index).length = rest.length := by
  induction rest generalizing index with
  | nil => rfl
  | cons component rest ih => exact congrArg Nat.succ (ih (index + 1))

theorem laid_appendAncestorsFrom {folder : RelativePath} {metrics : SummaryMetrics}
    {coverage : Coverage} {rest : List Component} {tree tree' : SnapshotTree}
    {placed : List (NodeId × SnapshotNode)} {id : NodeId} (h : Laid live tree placed)
    (happend : appendAncestorsFrom live folder metrics coverage rest placed.length ⟨placed.length⟩
      tree = .ok (tree', id)) :
    Laid live tree' (placed ++ ancestorsPlaced folder metrics coverage rest placed.length) ∧
      id = ⟨placed.length + rest.length⟩ ∧ SameOutside tree tree' := by
  induction rest generalizing tree placed with
  | nil =>
    cases happend
    rw [ancestorsPlaced, List.append_nil]
    exact ⟨h, rfl, SameOutside.refl _⟩
  | cons component rest ih =>
    obtain ⟨⟨next, node⟩, hpush, hrest⟩ := bind_eq_ok happend
    obtain ⟨hnext, rfl, hsame⟩ := h.push hpush
    have hlength (x : NodeId × SnapshotNode) : placed.length + 1 = (placed ++ [x]).length := by
      rw [List.length_append, List.length_singleton]
    rw [hlength (⟨placed.length⟩, ancestorNode folder metrics coverage placed.length component)]
      at hrest
    obtain ⟨hlaid, rfl, hsame'⟩ := ih hnext hrest
    refine ⟨?_, ?_, hsame.trans hsame'⟩
    · rw [List.append_assoc, ← hlength] at hlaid
      exact hlaid
    · rw [← hlength, List.length_cons, Nat.add_assoc, Nat.add_comm 1]

theorem laid_appendEntries {entries : List ScanPageEntry} {tree tree' : SnapshotTree}
    {placed : List (NodeId × SnapshotNode)} (h : Laid live tree placed)
    (happend : appendEntries live entries tree = .ok tree') :
    Laid live tree' (placed ++ entries.map fun e => (tree.currentId, entryNode e)) ∧
      SameOutside tree tree' := by
  induction entries generalizing tree placed with
  | nil =>
    cases happend
    rw [List.map_nil, List.append_nil]
    exact ⟨h, SameOutside.refl _⟩
  | cons entry rest ih =>
    unfold appendEntries at happend
    split at happend
    · cases happend
    · obtain ⟨⟨next, node⟩, hpush, hrest⟩ := bind_eq_ok happend
      obtain ⟨hnext, rfl, hsame⟩ := h.push hpush
      obtain ⟨hlaid, hsame'⟩ := ih hnext hrest
      refine ⟨?_, hsame.trans hsame'⟩
      rw [hsame.currentId, List.append_assoc] at hlaid
      exact hlaid

theorem laid_rootOnly {layout : NodeLayout} {rootPath : NativePath} {page : ScanPage}
    {limit : Nat} {stats : Nat × Nat} {filter : Option (FilterPattern × RelativePath)}
    {provisional : Bool} :
    Laid live (rootOnly live layout rootPath page limit stats filter provisional) [] :=
  ⟨rfl, Nat.one_le_two_pow, rfl, (fun _ hp => nomatch hp),
    ⟨rootNode live page provisional, rfl, rfl, rfl⟩, (fun _ _ hp => nomatch hp)⟩

/-- What a built tree is: the nodes of its page, and the page's own data. -/
structure BuiltOf (live : RelativePath → Option LiveEntry) (layout : NodeLayout)
    (rootPath : NativePath) (page : ScanPage) (limit : Nat)
    (filter : Option (FilterPattern × RelativePath)) (provisional : Bool) (tree : SnapshotTree) :
    Prop where
  laid : Laid live tree (placedOf page)
  currentId : tree.currentId = ⟨page.folder.depth⟩
  rootPath : tree.rootPath = rootPath
  generation : tree.generation = page.generation
  currentRelative : tree.currentRelative = page.folder
  provisional : tree.provisional = provisional
  filter : tree.filter = filter.map Prod.fst
  memoryLimit : tree.pageMemoryLimit = limit
  retained : tree.retainedBytes = pageRetainedBytes layout page
  fits : tree.retainedBytes ≤ limit

theorem builtOf_fromPage {layout : NodeLayout} {rootPath : NativePath} {page : ScanPage}
    {limit : Nat} {stats : Nat × Nat} {filter : Option (FilterPattern × RelativePath)}
    {provisional : Bool} {tree : SnapshotTree}
    (h : fromPage live layout rootPath page limit stats filter provisional = .ok tree) :
    BuiltOf live layout rootPath page limit filter provisional tree := by
  unfold fromPage at h
  split at h
  · cases h
  · rename_i hfits
    obtain ⟨⟨above, current⟩, hancestors, hentries⟩ := bind_eq_ok h
    obtain ⟨habove, rfl, hsame⟩ := laid_appendAncestorsFrom laid_rootOnly hancestors
    rw [List.nil_append] at habove
    rw [List.length_nil, Nat.zero_add] at hentries
    -- the entries go below the folder that came last
    have hbelow : Laid live { above with currentId := ⟨page.folder.depth⟩ }
        (ancestorsPlaced page.folder page.folderMetrics page.folderCoverage
          page.folder.components 0) :=
      ⟨habove.length, habove.small, habove.paths, habove.parents, habove.root, habove.node⟩
    obtain ⟨listed, hlisted, hshared⟩ := bind_eq_ok hentries
    obtain ⟨hlaid, hsame'⟩ := laid_appendEntries hbelow hlisted
    suffices hend : Laid live tree (placedOf page) ∧ SameOutside listed tree by
      have houtside := hsame'.trans hend.2
      exact {
        laid := hend.1
        currentId := houtside.currentId
        rootPath := houtside.rootPath.trans hsame.rootPath
        generation := houtside.generation.trans hsame.generation
        currentRelative := houtside.currentRelative.trans hsame.currentRelative
        provisional := houtside.provisional.trans hsame.provisional
        filter := houtside.filter.trans hsame.filter
        memoryLimit := houtside.limit.trans hsame.limit
        retained := houtside.retained.trans hsame.retained
        fits := (houtside.retained.trans hsame.retained).trans_le (Nat.not_lt.mp hfits) }
    unfold placedOf pageNodes
    rw [List.map_append, List.map_map, List.map_map, ← List.append_assoc]
    cases hs : page.sharedAllocation with
    | none =>
      rw [hs] at hshared
      cases hshared
      exact ⟨(List.append_nil _).symm ▸ hlaid, SameOutside.refl _⟩
    | some shared =>
      rw [hs] at hshared
      obtain ⟨⟨last, id⟩, hpush, rfl⟩ := map_eq_ok hshared
      obtain ⟨hlast, -, hsame''⟩ := hlaid.push hpush
      rw [hsame'.currentId] at hlast
      exact ⟨hlast, hsame''⟩

/-! ## What the folder lists -/

section Built
variable {layout : NodeLayout} {rootPath : NativePath} {page : ScanPage} {limit : Nat}
  {filter : Option (FilterPattern × RelativePath)} {provisional : Bool} {tree : SnapshotTree}

theorem ancestorsPlaced_parents {folder : RelativePath} {metrics : SummaryMetrics}
    {coverage : Coverage} {rest : List Component} {index : Nat} :
    ∀ p ∈ ancestorsPlaced folder metrics coverage rest index, p.1.index < index + rest.length := by
  induction rest generalizing index with
  | nil => exact fun p hp => nomatch hp
  | cons component rest ih =>
    intro p hp
    rw [List.length_cons]
    rcases List.mem_cons.mp hp with rfl | hp
    · show index < _
      omega
    · have hlt := ih p hp
      omega

theorem placedOf_getElem? {x : SnapshotNode} {k : Nat}
    (h : (x, k) ∈ (pageNodes page).zipIdx page.folder.depth) :
    (placedOf page)[k]? = some (⟨page.folder.depth⟩, x) := by
  obtain ⟨hle, hget⟩ := List.mk_mem_zipIdx_iff_le_and_getElem?_sub.mp h
  have hlength : (ancestorsPlaced page.folder page.folderMetrics page.folderCoverage
      page.folder.components 0).length = page.folder.depth := ancestorsPlaced_length _ 0
  unfold placedOf
  rw [List.getElem?_append_right (hlength.trans_le hle), hlength, List.getElem?_map]
  exact congrArg (Option.map _) hget

/-- The children of the page's folder are the nodes of the page. -/
theorem childIds_placedOf (page : ScanPage) : childIds (placedOf page) page.folder.depth =
    ((pageNodes page).zipIdx page.folder.depth).map fun p => ⟨p.2 + 1⟩ := by
  unfold childIds placedOf
  rw [List.zipIdx_append, List.filter_append, ancestorsPlaced_length, Nat.zero_add]
  have habove : ((ancestorsPlaced page.folder page.folderMetrics page.folderCoverage
      page.folder.components 0).zipIdx.filter fun p =>
        decide (p.1.1.index = page.folder.depth)) = [] := by
    rw [List.filter_eq_nil_iff]
    rintro ⟨p, k⟩ hp hindex
    have hmem : p ∈ ancestorsPlaced page.folder page.folderMetrics page.folderCoverage
        page.folder.components 0 := List.fst_mem_of_mem_zipIdx hp
    have hlt := ancestorsPlaced_parents p hmem
    rw [Nat.zero_add] at hlt
    exact Nat.ne_of_lt hlt (of_decide_eq_true hindex)
  rw [habove, List.nil_append, List.filter_eq_self.mpr, List.zipIdx_map, List.map_map]
  · rfl
  · rintro ⟨p, k⟩ hp
    obtain ⟨x, -, rfl⟩ := List.mem_map.mp (List.fst_mem_of_mem_zipIdx hp)
    exact decide_eq_true rfl

/-- The id of what the page lists leads to its node and its path. -/
theorem BuiltOf.entry (h : BuiltOf live layout rootPath page limit filter provisional tree)
    {x : SnapshotNode} {k : Nat} (hx : (x, k) ∈ (pageNodes page).zipIdx page.folder.depth) :
    (∃ children, tree.node? ⟨k + 1⟩ =
      some { nodeOf live provisional ⟨k + 1⟩ ⟨page.folder.depth⟩ x with children := children }) ∧
      tree.relativeForId ⟨k + 1⟩ = x.relative := by
  have hplaced := placedOf_getElem? hx
  refine ⟨⟨_, h.provisional ▸ h.laid.node k _ hplaced⟩, ?_⟩
  unfold relativeForId
  rw [h.laid.paths, List.getElem?_cons_succ, List.getElem?_map, hplaced]
  rfl

theorem BuiltOf.children (h : BuiltOf live layout rootPath page limit filter provisional tree) :
    ((tree.node? tree.currentId).map Node.children).getD [] =
      ((pageNodes page).zipIdx page.folder.depth).map fun p => ⟨p.2 + 1⟩ := by
  rw [← childIds_placedOf, h.currentId]
  cases hdepth : page.folder.depth with
  | zero =>
    obtain ⟨node, -, -, hroot⟩ := h.laid.root
    unfold node?
    rw [hroot]
    rfl
  | succ k =>
    have hlt : k < (placedOf page).length := by
      unfold placedOf
      rw [List.length_append, ancestorsPlaced_length]
      have hlength : page.folder.components.length = k + 1 := hdepth
      omega
    unfold node?
    rw [h.laid.node k _ (List.getElem?_eq_getElem hlt)]
    rfl

end Built

section Rows
variable {F : Type} (N : LayoutNumbers F) (showApparentSize provisional : Bool)

/-- A listed entry but for its id and its share. -/
def plain (file : FileMetadata F) : FileMetadata F :=
  { file with nodeId := ⟨0⟩, percentage := N.ofNat 0 }

/-- How an entry of a page is listed. -/
def entryRow (entry : ScanPageEntry) : FileMetadata F where
  nodeId := ⟨0⟩
  name := lastName entry.path
  size := if showApparentSize then entry.metrics.apparentBytes else entry.metrics.allocatedBytes.lower
  apparentSize := entry.metrics.apparentBytes
  descendants := if entry.kind = .Directory then some entry.metrics.descendants else none
  percentage := N.ofNat 0
  fileType := if entry.kind = .Directory then .Folder else .File
  syntheticKind := none
  uncertain :=
    (decide (entry.coverage = .Uncertain) && !(provisional && decide (entry.kind = .Directory))) ||
      (!showApparentSize && entry.metrics.allocatedBytes.upper.isNone)

def sharedRow (shared : SharedAllocationSummary) : FileMetadata F where
  nodeId := ⟨0⟩
  name := sharedAllocationName
  size :=
    if showApparentSize then shared.metrics.apparentBytes else shared.metrics.allocatedBytes.lower
  apparentSize := shared.metrics.apparentBytes
  descendants := some 0
  percentage := N.ofNat 0
  fileType := .Synthetic
  syntheticKind := some .Shared
  uncertain := decide (shared.coverage = .Uncertain) ||
    (!showApparentSize && shared.metrics.allocatedBytes.upper.isNone)

theorem plain_entryNode (live : RelativePath → Option LiveEntry) (id parent : NodeId)
    (children : List NodeId) (entry : ScanPageEntry) :
    plain N (fileMetadata N showApparentSize
      { nodeOf live provisional id parent (entryNode entry) with children := children }) =
      entryRow N showApparentSize provisional entry := by
  unfold plain fileMetadata entryRow nodeOf entryNode
  cases entry.kind <;> cases entry.coverage <;> cases provisional <;> rfl

theorem plain_sharedNode (live : RelativePath → Option LiveEntry) (id parent : NodeId)
    (children : List NodeId) (shared : SharedAllocationSummary) :
    plain N (fileMetadata N showApparentSize
      { nodeOf live provisional id parent (sharedNode shared) with children := children }) =
      sharedRow N showApparentSize shared := by
  unfold plain fileMetadata sharedRow nodeOf sharedNode
  cases shared.coverage <;> cases provisional <;> rfl

end Rows

section Listing
variable {F : Type} (N : LayoutNumbers F) (showApparentSize : Bool) (removed : List RelativePath)
  {layout : NodeLayout} {rootPath : NativePath} {page : ScanPage} {limit : Nat}
  {filter : Option (FilterPattern × RelativePath)} {provisional : Bool} {tree : SnapshotTree}

/-- What the folder on screen lists of a page, each entry with its path. -/
def listedRows (provisional : Bool) (page : ScanPage) : List (Option RelativePath × FileMetadata F) :=
  ((page.entries.filter fun e => !removed.any e.path.startsWith).map fun e =>
      (some e.path, entryRow N showApparentSize provisional e)) ++
    page.sharedAllocation.toList.map fun shared => (none, sharedRow N showApparentSize shared)

/-- A listed entry with its path. -/
def rowOf (tree : SnapshotTree) (file : FileMetadata F) : Option RelativePath × FileMetadata F :=
  (tree.relativeForId file.nodeId, plain N file)

/-- A node of the page as a row. -/
def nodeRow (live : RelativePath → Option LiveEntry) (provisional : Bool) (x : SnapshotNode) :
    Option RelativePath × FileMetadata F :=
  (x.relative, plain N (fileMetadata N showApparentSize (nodeOf live provisional ⟨0⟩ ⟨0⟩ x)))

theorem BuiltOf.rows_of_nodes (h : BuiltOf live layout rootPath page limit filter provisional tree)
    {l : List (SnapshotNode × Nat)} (hl : ∀ p ∈ l, p ∈ (pageNodes page).zipIdx page.folder.depth) :
    ((((l.map fun p => (⟨p.2 + 1⟩ : NodeId)).filter fun id => !tree.isRemoved id removed).filterMap
      tree.node?).map (fileMetadata N showApparentSize)).map (rowOf N tree) =
      ((l.map Prod.fst).filter fun x =>
        !x.relative.any fun relative => removed.any relative.startsWith).map
          (nodeRow N showApparentSize live provisional) := by
  induction l with
  | nil => rfl
  | cons p rest ih =>
    obtain ⟨⟨children, hnode⟩, hpath⟩ := h.entry (hl p List.mem_cons_self)
    have hrest := ih fun q hq => hl q (List.mem_cons_of_mem p hq)
    have hremoved : tree.isRemoved ⟨p.2 + 1⟩ removed =
        p.1.relative.any fun relative => removed.any relative.startsWith := by
      unfold isRemoved
      rw [hpath]
    rw [List.map_cons, List.map_cons, List.filter_cons, List.filter_cons, hremoved]
    split
    · rw [List.filterMap_cons, hnode, List.map_cons, List.map_cons, hrest, List.map_cons]
      congr 1
      exact Prod.ext hpath rfl
    · exact hrest

/-- The folder on screen lists the entries of its page, those under a removed target left out. -/
theorem BuiltOf.listed (h : BuiltOf live layout rootPath page limit filter provisional tree) :
    (tree.listedFiles N showApparentSize removed).map (rowOf N tree) =
      listedRows N showApparentSize removed provisional page := by
  unfold listedFiles
  rw [h.children]
  dsimp only
  rw [h.rows_of_nodes N showApparentSize removed fun _ hp => hp, List.zipIdx_map_fst]
  unfold pageNodes listedRows
  rw [List.filter_append, List.map_append, List.filter_map, List.map_map]
  congr 1
  · refine List.map_congr_left fun e _ => Prod.ext rfl ?_
    exact plain_entryNode N showApparentSize provisional live ⟨0⟩ ⟨0⟩ [] e
  · cases page.sharedAllocation with
    | none => rfl
    | some shared =>
      refine congrArg (fun row => [(none, row)]) ?_
      exact plain_sharedNode N showApparentSize provisional live ⟨0⟩ ⟨0⟩ [] shared

/-- Weighing keeps every entry; an offset drops entries from the front. -/
theorem normalize_rows (tree : SnapshotTree) (files : List (FileMetadata F)) (offset : Nat) :
    ∃ sorted : List (Option RelativePath × FileMetadata F), sorted.Perm (files.map (rowOf N tree)) ∧
      (normalizeFileMetadata N files offset).map (rowOf N tree) = sorted.drop offset := by
  have hsame (total : Nat) (files : List (FileMetadata F)) :
      (reweigh N total files).map (rowOf N tree) = files.map (rowOf N tree) := by
    unfold reweigh
    rw [List.map_map]
    exact List.map_congr_left fun file _ => rfl
  refine ⟨((reweigh N (totalSize files) files).mergeSort (weightOrder N)).map (rowOf N tree), ?_, ?_⟩
  · rw [← hsame (totalSize files) files]
    exact (List.mergeSort_perm _ _).map _
  · unfold normalizeFileMetadata
    dsimp only
    split
    · rw [hsame, List.map_drop]
    · rename_i hzero
      rw [Nat.eq_zero_of_not_pos hzero, List.drop_zero]

theorem BuiltOf.shown (h : BuiltOf live layout rootPath page limit filter provisional tree)
    (offset : Nat) :
    ∃ sorted : List (Option RelativePath × FileMetadata F),
      sorted.Perm (listedRows N showApparentSize removed provisional page) ∧
      (tree.filesInCurrentFolder N offset showApparentSize removed).map (rowOf N tree) =
        sorted.drop offset := by
  obtain ⟨sorted, hperm, hdrop⟩ :=
    normalize_rows N tree (tree.listedFiles N showApparentSize removed) offset
  rw [h.listed] at hperm
  exact ⟨sorted, hperm, hdrop⟩

end Listing

/-! ## Targets and lookups -/

section Targets
variable {layout : NodeLayout} {rootPath : NativePath} {page : ScanPage} {limit : Nat}
  {filter : Option (FilterPattern × RelativePath)} {provisional : Bool} {tree : SnapshotTree}

theorem concreteDeletionTarget_ok {target : ConcreteDeletionTarget} {showApparentSize : Bool}
    {verified : VerifiedTarget} (h : concreteDeletionTarget target showApparentSize = .ok verified) :
    ∃ snapshot, target.expectedSnapshot = some snapshot ∧ snapshot.kind = target.expectedKind ∧
      snapshot.identity ≠ none := by
  unfold concreteDeletionTarget at h
  split at h
  · cases h
  · rename_i snapshot hsnapshot
    split at h
    · cases h
    · rename_i hmatch
      rw [not_or, not_not] at hmatch
      exact ⟨snapshot, hsnapshot, hmatch⟩

/-- The page lists this entry under this id. -/
def ListedAs (page : ScanPage) (entry : ScanPageEntry) (id : NodeId) : Prop :=
  ∃ i, page.entries[i]? = some entry ∧ id = ⟨page.folder.depth + i + 1⟩

theorem ListedAs.node (h : BuiltOf live layout rootPath page limit filter provisional tree)
    {entry : ScanPageEntry} {id : NodeId} (hlisted : ListedAs page entry id) :
    (∃ children, tree.node? id = some { nodeOf live provisional id ⟨page.folder.depth⟩
      (entryNode entry) with children := children }) ∧
      tree.relativeForId id = some entry.path := by
  obtain ⟨i, hi, rfl⟩ := hlisted
  refine h.entry (List.mk_mem_zipIdx_iff_le_and_getElem?_sub.mpr ⟨Nat.le_add_right _ i, ?_⟩)
  obtain ⟨hlt, -⟩ := List.getElem?_eq_some_iff.mp hi
  unfold pageNodes
  rw [Nat.add_sub_cancel_left, List.getElem?_append_left (by rw [List.length_map]; exact hlt),
    List.getElem?_map, hi]
  rfl

theorem ancestorsPlaced_depth {folder : RelativePath} {metrics : SummaryMetrics}
    {coverage : Coverage} {rest : List Component} {index k : Nat} {p : NodeId × SnapshotNode}
    (h : (ancestorsPlaced folder metrics coverage rest index)[k]? = some p) :
    p.1 = ⟨index + k⟩ ∧ p.2.relative = some ⟨folder.components.take (index + k + 1)⟩ := by
  induction rest generalizing index k with
  | nil => cases h
  | cons component rest ih =>
    cases k with
    | zero =>
      cases h
      exact ⟨rfl, rfl⟩
    | succ k =>
      rw [ancestorsPlaced, List.getElem?_cons_succ] at h
      have hnext := ih h
      rwa [Nat.add_right_comm] at hnext

/-- A node below the page's folder is one of those the page lists. -/
theorem BuiltOf.listed_of_parent
    (h : BuiltOf live layout rootPath page limit filter provisional tree) {id : NodeId} {node : Node}
    (hnode : tree.node? id = some node) (hparent : node.parent = some tree.currentId)
    (hkind : node.kind ≠ .Synthetic) : ∃ entry, ListedAs page entry id := by
  obtain ⟨i⟩ := id
  unfold node? at hnode
  cases i with
  | zero =>
    obtain ⟨root, hno, -, hroot⟩ := h.laid.root
    rw [hroot] at hnode
    obtain rfl := Option.some.inj hnode
    exact nomatch hno.symm.trans hparent
  | succ k =>
    have hlt : k < (placedOf page).length := by
      obtain ⟨hlt, -⟩ := List.getElem?_eq_some_iff.mp hnode
      rw [h.laid.length] at hlt
      exact Nat.lt_of_succ_lt_succ hlt
    obtain ⟨p, hp⟩ : ∃ p, (placedOf page)[k]? = some p := ⟨_, List.getElem?_eq_getElem hlt⟩
    rw [h.laid.node k p hp] at hnode
    obtain rfl := Option.some.inj hnode
    have hbelow : p.1 = ⟨page.folder.depth⟩ := by
      rw [h.currentId] at hparent
      exact Option.some.inj hparent
    have hlength : (ancestorsPlaced page.folder page.folderMetrics page.folderCoverage
        page.folder.components 0).length = page.folder.depth := ancestorsPlaced_length _ 0
    unfold placedOf at hp
    by_cases hk : k < page.folder.depth
    · rw [List.getElem?_append_left (hlength.symm ▸ hk)] at hp
      obtain ⟨hindex, -⟩ := ancestorsPlaced_depth hp
      rw [hbelow, Nat.zero_add] at hindex
      exact absurd (NodeId.mk.inj hindex).symm (Nat.ne_of_lt hk)
    · rw [List.getElem?_append_right (hlength.trans_le (Nat.not_lt.mp hk)), hlength,
        List.getElem?_map] at hp
      obtain ⟨x, hx, rfl⟩ := Option.map_eq_some_iff.mp hp
      unfold pageNodes at hx
      by_cases hentry : k - page.folder.depth < page.entries.length
      · refine ⟨page.entries[k - page.folder.depth], k - page.folder.depth,
          List.getElem?_eq_getElem hentry, ?_⟩
        rw [Nat.add_sub_cancel' (Nat.not_lt.mp hk)]
      · rw [List.getElem?_append_right (by rw [List.length_map]; exact Nat.not_lt.mp hentry),
          List.getElem?_map] at hx
        obtain ⟨shared, -, rfl⟩ := Option.map_eq_some_iff.mp hx
        exact absurd rfl hkind

/-- A target comes of the preview exactly when the page lists an entry under this id, and it is the
target that entry makes of a published map: its snapshot is what the scan saw. -/
theorem BuiltOf.target_iff (h : BuiltOf live layout rootPath page limit filter provisional tree)
    (id : NodeId) (showApparentSize : Bool) (target : VerifiedTarget) :
    tree.deletionTargetFromPreview id showApparentSize = .ok target ↔
      ∃ entry, ListedAs page entry id ∧
        deletionTargetFromEntry rootPath id entry.path entry showApparentSize = .ok target := by
  -- what the preview says of a listed entry
  have hentry {entry : ScanPageEntry} (hlisted : ListedAs page entry id) :
      tree.deletionTargetFromPreview id showApparentSize = .ok target ↔
        deletionTargetFromEntry rootPath id entry.path entry showApparentSize = .ok target := by
    obtain ⟨⟨children, hnode⟩, hpath⟩ := hlisted.node h
    unfold deletionTargetFromPreview deletionTargetFromEntry
    rw [hnode, h.currentId]
    dsimp only
    rw [if_neg (fun hne => hne rfl), hpath, h.rootPath]
    unfold nodeOf nodeSnapshot entryNode
    cases hsnapshot : entry.snapshot with
    | some snapshot => cases entry.kind <;> exact Iff.rfl
    | none =>
      -- an entry without a snapshot shows one that identifies nothing
      refine iff_of_false (fun hok => ?_) fun hok => ?_
      · cases hkind : entry.kind <;>
        · rw [hkind] at hok
          obtain ⟨snapshot, hsome, -, hidentity⟩ := concreteDeletionTarget_ok hok
          cases hsome
          exact hidentity rfl
      · obtain ⟨snapshot, hsome, -⟩ := concreteDeletionTarget_ok hok
        cases hsome
  constructor
  · intro hok
    have hlisted : ∃ entry, ListedAs page entry id := by
      unfold deletionTargetFromPreview at hok
      split at hok
      · cases hok
      · rename_i node hnode
        split at hok
        · cases hok
        · rename_i hparent
          split at hok
          · cases hok
          · rename_i fileType hfile
            refine h.listed_of_parent hnode (not_not.mp hparent) fun hkind => ?_
            rw [hkind] at hfile
            cases hfile
    obtain ⟨entry, hlisted⟩ := hlisted
    exact ⟨entry, hlisted, (hentry hlisted).mp hok⟩
  · rintro ⟨entry, hlisted, hok⟩
    exact (hentry hlisted).mpr hok

/-- The entries of a page are children of its folder, each once. -/
structure ListsChildren (page : ScanPage) : Prop where
  direct : ∀ e ∈ page.entries, e.path.isDirectChildOf page.folder = true
  distinct : (page.entries.map ScanPageEntry.path).Nodup

/-- Which path stands at which place. -/
theorem BuiltOf.relativePaths_cases
    (h : BuiltOf live layout rootPath page limit filter provisional tree) {i : Nat}
    {path : RelativePath} (hi : tree.relativePaths[i]? = some (some path)) :
    (i ≤ page.folder.depth ∧ path = ⟨page.folder.components.take i⟩) ∨
      ∃ j entry, i = page.folder.depth + j + 1 ∧ page.entries[j]? = some entry ∧ path = entry.path := by
  rw [h.laid.paths] at hi
  cases i with
  | zero =>
    cases hi
    exact Or.inl ⟨Nat.zero_le _, rfl⟩
  | succ k =>
    rw [List.getElem?_cons_succ, List.getElem?_map] at hi
    obtain ⟨p, hp, hpath⟩ := Option.map_eq_some_iff.mp hi
    have hlength : (ancestorsPlaced page.folder page.folderMetrics page.folderCoverage
        page.folder.components 0).length = page.folder.depth := ancestorsPlaced_length _ 0
    unfold placedOf at hp
    by_cases hk : k < page.folder.depth
    · rw [List.getElem?_append_left (hlength.symm ▸ hk)] at hp
      obtain ⟨-, hrelative⟩ := ancestorsPlaced_depth hp
      rw [hrelative, Nat.zero_add] at hpath
      exact Or.inl ⟨hk, (Option.some.inj hpath).symm⟩
    · rw [List.getElem?_append_right (hlength.trans_le (Nat.not_lt.mp hk)), hlength,
        List.getElem?_map] at hp
      obtain ⟨x, hx, rfl⟩ := Option.map_eq_some_iff.mp hp
      unfold pageNodes at hx
      right
      by_cases hentry : k - page.folder.depth < page.entries.length
      · rw [List.getElem?_append_left (by rw [List.length_map]; exact hentry),
          List.getElem?_map] at hx
        obtain ⟨entry, hget, rfl⟩ := Option.map_eq_some_iff.mp hx
        refine ⟨k - page.folder.depth, entry, ?_, hget, (Option.some.inj hpath).symm⟩
        rw [Nat.add_sub_cancel' (Nat.not_lt.mp hk)]
      · rw [List.getElem?_append_right (by rw [List.length_map]; exact Nat.not_lt.mp hentry),
          List.getElem?_map] at hx
        obtain ⟨shared, -, rfl⟩ := Option.map_eq_some_iff.mp hx
        cases hpath

/-- A path stands at one place only. -/
theorem BuiltOf.relativePaths_inj
    (h : BuiltOf live layout rootPath page limit filter provisional tree) (hpage : ListsChildren page)
    {i j : Nat} {path : RelativePath} (hi : tree.relativePaths[i]? = some (some path))
    (hj : tree.relativePaths[j]? = some (some path)) : i = j := by
  have htake {k : Nat} (hk : k ≤ page.folder.depth) :
      (page.folder.components.take k).length = k := List.length_take_of_le hk
  have hdeep {entry : ScanPageEntry} {k : Nat} (hget : page.entries[k]? = some entry) :
      entry.path.components.length = page.folder.depth + 1 := by
    obtain ⟨c, hc⟩ := RelativePath.isDirectChildOf_iff.mp
      (hpage.direct entry (List.mem_of_getElem? hget))
    rw [hc, List.length_append, List.length_singleton]
    rfl
  rcases h.relativePaths_cases hi with ⟨hile, rfl⟩ | ⟨k, entry, rfl, hk, rfl⟩
  · rcases h.relativePaths_cases hj with ⟨hjle, heq⟩ | ⟨l, entry, rfl, hl, heq⟩
    · rw [← htake hile, ← htake hjle, RelativePath.mk.inj heq]
    · have hlength := hdeep hl
      rw [← heq, htake hile] at hlength
      omega
  · rcases h.relativePaths_cases hj with ⟨hjle, heq⟩ | ⟨l, other, rfl, hl, heq⟩
    · have hlength := hdeep hk
      rw [heq, htake hjle] at hlength
      omega
    · have hmap {n : Nat} {e : ScanPageEntry} (hn : page.entries[n]? = some e) :
          (page.entries.map ScanPageEntry.path)[n]? = some e.path := by
        rw [List.getElem?_map, hn]
        rfl
      obtain ⟨hlt, -⟩ := List.getElem?_eq_some_iff.mp (hmap hk)
      have hsame := (List.getElem?_inj hlt hpage.distinct).mp
        ((hmap hk).trans ((congrArg some heq).trans (hmap hl).symm))
      rw [hsame]

/-- Looking up a path and looking up an id are inverse. -/
theorem BuiltOf.idForRelative_iff
    (h : BuiltOf live layout rootPath page limit filter provisional tree) (hpage : ListsChildren page)
    (path : RelativePath) (id : NodeId) :
    tree.idForRelative path = some id ↔ tree.relativeForId id = some path := by
  have hlength : tree.relativePaths.length ≤ 2 ^ 32 := by
    rw [h.laid.paths, List.length_cons, List.length_map, ← h.laid.length]
    exact h.laid.small
  have hjoin (i : Nat) : tree.relativeForId ⟨i⟩ = some path ↔
      tree.relativePaths[i]? = some (some path) := by
    unfold relativeForId
    rw [Option.join_eq_some_iff]
  obtain ⟨i⟩ := id
  rw [hjoin]
  unfold idForRelative
  constructor
  · intro hid
    obtain ⟨index, hfound, hsome⟩ := Option.bind_eq_some_iff.mp hid
    split at hsome
    · cases hsome
      obtain ⟨hlt, hp, -⟩ := List.findIdx?_eq_some_iff_getElem.mp hfound
      rw [List.getElem?_eq_getElem hlt]
      exact congrArg some (of_decide_eq_true hp)
    · cases hsome
  · intro hi
    obtain ⟨hlt, hget⟩ := List.getElem?_eq_some_iff.mp hi
    cases hfound : tree.relativePaths.findIdx? fun candidate => decide (candidate = some path) with
    | none =>
      rw [List.findIdx?_eq_none_iff] at hfound
      have hno := hfound _ (List.getElem_mem hlt)
      rw [hget, decide_eq_false_iff_not] at hno
      exact absurd rfl hno
    | some index =>
      obtain ⟨hindex, hp, -⟩ := List.findIdx?_eq_some_iff_getElem.mp hfound
      have hat : tree.relativePaths[index]? = some (some path) := by
        rw [List.getElem?_eq_getElem hindex]
        exact congrArg some (of_decide_eq_true hp)
      obtain rfl := h.relativePaths_inj hpage hat hi
      show (if index < 2 ^ 32 then some (⟨index⟩ : NodeId) else none) = some ⟨index⟩
      rw [if_pos (Nat.lt_of_lt_of_le hindex hlength)]

end Targets

/-! ## Pages of a published map -/

/-- What the reader can ask of the tree is what its page says. -/
structure Faithful {F : Type} (N : LayoutNumbers F) (rootPath : NativePath) (page : ScanPage)
    (provisional : Bool) (tree : SnapshotTree) : Prop where
  folder : tree.relativeForId tree.currentId = some page.folder
  lists : ∀ offset showApparentSize removed,
    ∃ sorted : List (Option RelativePath × FileMetadata F),
      sorted.Perm (listedRows N showApparentSize removed provisional page) ∧
        (tree.filesInCurrentFolder N offset showApparentSize removed).map (rowOf N tree) =
          sorted.drop offset
  lookup : ∀ path id, tree.idForRelative path = some id ↔ tree.relativeForId id = some path
  targets : ∀ id showApparentSize target,
    tree.deletionTargetFromPreview id showApparentSize = .ok target ↔
      ∃ entry, ListedAs page entry id ∧
        deletionTargetFromEntry rootPath id entry.path entry showApparentSize = .ok target
  fits : tree.retainedBytes ≤ tree.pageMemoryLimit

theorem BuiltOf.folder {layout : NodeLayout} {rootPath : NativePath} {page : ScanPage}
    {limit : Nat} {filter : Option (FilterPattern × RelativePath)} {provisional : Bool}
    {tree : SnapshotTree} (h : BuiltOf live layout rootPath page limit filter provisional tree) :
    tree.relativeForId tree.currentId = some page.folder := by
  unfold relativeForId
  rw [h.currentId, h.laid.paths, Option.join_eq_some_iff]
  show (some RelativePath.root :: _)[page.folder.depth]? = _
  cases hdepth : page.folder.depth with
  | zero =>
    rw [List.getElem?_cons_zero]
    exact congrArg (fun p => some (some p))
      (RelativePath.ext_components (List.length_eq_zero_iff.mp hdepth)).symm
  | succ k =>
    have hlength : (ancestorsPlaced page.folder page.folderMetrics page.folderCoverage
        page.folder.components 0).length = k + 1 := (ancestorsPlaced_length _ 0).trans hdepth
    have hget := List.getElem?_eq_getElem (hlength.symm ▸ Nat.lt_succ_self k :
      k < (ancestorsPlaced page.folder page.folderMetrics page.folderCoverage
        page.folder.components 0).length)
    rw [List.getElem?_cons_succ, List.getElem?_map]
    unfold placedOf
    rw [List.getElem?_append_left (hlength.symm ▸ Nat.lt_succ_self k), hget, Option.map_some,
      (ancestorsPlaced_depth hget).2, Nat.zero_add, ← hdepth]
    exact congrArg (fun p => some (some p)) (RelativePath.ext_components List.take_length)

theorem faithful_fromPage {F : Type} (N : LayoutNumbers F) {layout : NodeLayout}
    {rootPath : NativePath} {page : ScanPage} {limit : Nat} {stats : Nat × Nat}
    {filter : Option (FilterPattern × RelativePath)} {provisional : Bool} {tree : SnapshotTree}
    (hpage : ListsChildren page)
    (h : fromPage live layout rootPath page limit stats filter provisional = .ok tree) :
    Faithful N rootPath page provisional tree := by
  have hbuilt := builtOf_fromPage h
  exact {
    folder := hbuilt.folder
    lists := fun offset showApparentSize removed => hbuilt.shown N showApparentSize removed offset
    lookup := hbuilt.idForRelative_iff hpage
    targets := hbuilt.target_iff
    fits := hbuilt.memoryLimit ▸ hbuilt.fits }

end SnapshotTree

/-- A page as the owner asks for it, under the filter in force. -/
def PublishedGeneration.readPage (p : PublishedGeneration) (rootPath : NativePath)
    (filter : Option (FilterPattern × RelativePath)) (request : PageRequest) :
    Except ScanPageError ScanPage :=
  match filter with
  | none => p.page request
  | some (pattern, filterRoot) => p.filteredPage request rootPath pattern filterRoot

namespace SnapshotTree

theorem listsChildren_of_sublist {records : List PageRecord} {paths : List PathObservation}
    (hindex : Indexes records paths) {page : ScanPage}
    (hsub : page.entries.Sublist (children records page.folder)) : ListsChildren page :=
  ⟨fun e he => hindex.direct page.folder e (hsub.subset he),
    (hindex.nodup_paths page.folder).sublist (hsub.map ScanPageEntry.path)⟩

theorem pageOf_sublist {α κ : Type} [LinearOrder κ] (key : α → κ) (all : List α) (after : Option κ)
    (limit : Nat) : (Paging.pageOf key all after limit).1.Sublist all :=
  (List.take_sublist _ _).trans List.filter_sublist

/-- A page of an indexed map lists children of its folder, filtered or not. -/
theorem listsChildren_of_read {p : PublishedGeneration} {paths : List PathObservation}
    (hindex : Indexes p.childQueries.records paths) {rootPath : NativePath}
    {filter : Option (FilterPattern × RelativePath)} {request : PageRequest} {page : ScanPage}
    (h : p.readPage rootPath filter request = .ok page) : ListsChildren page := by
  unfold PublishedGeneration.readPage at h
  split at h
  · obtain ⟨-, -, h⟩ := bind_eq_ok h
    split at h
    · cases h
    · rw [readPageEntries_eq hindex.sorted (hindex.direct request.folder)] at h
      cases h
      exact listsChildren_of_sublist hindex (pageOf_sublist _ _ _ _)
  · obtain ⟨⟨⟩, hvalid, h⟩ := bind_eq_ok h
    split at h
    · cases h
    · rw [readFilteredPageEntries_eq hindex (validatePageRequest_ok hvalid).1] at h
      cases h
      exact listsChildren_of_sublist hindex ((pageOf_sublist _ _ _ _).trans List.filter_sublist)

/-- The tree built of a page of a published map, filtered or not, lists that page and nothing else,
looks its entries up by id and by path alike, and makes a deletion target of an entry the page
lists only, the target which the map makes of that entry. -/
theorem page_tree_faithful {F : Type} (N : LayoutNumbers F) (session : ScanSessionId)
    (generation : ScanGeneration) (calls : List StoreCall) {p : PublishedGeneration}
    (hp : (ScanStore.machine.run (ScanStore.new session generation) calls).published = some p)
    {rootPath : NativePath} {filter : Option (FilterPattern × RelativePath)} {request : PageRequest}
    {page : ScanPage} (hread : p.readPage rootPath filter request = .ok page)
    {live : RelativePath → Option LiveEntry} {layout : NodeLayout} {limit : Nat}
    {stats : Nat × Nat} {provisional : Bool} {tree : SnapshotTree}
    (h : fromPage live layout rootPath page limit stats filter provisional = .ok tree) :
    Faithful N rootPath page provisional tree := by
  obtain ⟨-, paths, -, -, hindex⟩ := ScanStore.published_indexes session generation calls hp
  exact faithful_fromPage N (listsChildren_of_read hindex hread) h

/-- The folder `b` of the scanned tree. -/
def linkedFolderPage : ScanPage where
  generation := ⟨0⟩
  folder := ⟨[nameB]⟩
  folderMetrics := ⟨16896, ⟨8192, none⟩, ⟨8192, none⟩, 4⟩
  folderCoverage := .Uncertain
  rootMetrics := linkedRootMetrics
  rootCoverage := .Uncertain
  entries := children linkedIndex.insertedRecords ⟨[nameB]⟩
  nextAfter := none
  sharedAllocation := some (sharedAllocation ⟨0, .exact 8192, .exact 8192, 0⟩)
  unrecordedPathCount := 0

theorem readPage_linkedScan {p : PublishedGeneration} {paths : List PathObservation}
    (hindex : Indexes p.childQueries.records paths)
    (hrecords : p.childQueries.records = linkedIndex.insertedRecords)
    (hmetrics : p.rootPageMetrics = linkedRootMetrics) (hcoverage : p.rootPageCoverage = .Uncertain)
    (hcount : p.unrecordedPathCount = 0) (hgeneration : p.manifest.generation = ⟨0⟩) :
    p.readPage [[115]] none ⟨⟨[nameB]⟩, none, 512⟩ = .ok linkedFolderPage := by
  have hheader : readHeaderFromRun ⟨[nameB]⟩ linkedIndex.insertedRecords =
      some ⟨⟨16896, ⟨8192, none⟩, ⟨8192, none⟩, 4⟩, .Uncertain,
        some ⟨0, .exact 8192, .exact 8192, 0⟩⟩ := by decide +kernel
  have hentries : Paging.pageOf PageCursor.fromEntry
      (children linkedIndex.insertedRecords ⟨[nameB]⟩) none 512 =
        (children linkedIndex.insertedRecords ⟨[nameB]⟩, none) := by decide +kernel
  have hread : readPageEntries p.childQueries.records ⟨⟨[nameB]⟩, none, 512⟩ = _ :=
    readPageEntries_eq hindex.sorted (hindex.direct ⟨[nameB]⟩)
  rw [hrecords, hentries] at hread
  unfold PublishedGeneration.readPage PublishedGeneration.page
  rw [hrecords, hheader]
  dsimp only
  rw [hread]
  unfold Except.map
  dsimp only
  unfold PublishedGeneration.scanPage
  rw [hmetrics, hcoverage, hcount, hgeneration]
  rfl

/-- The folder `b` of the scanned tree lists two files, a folder and the allocation its files
share. -/
theorem page_tree_faithful_linkedScan :
    ∃ p, (ScanStore.machine.run (ScanStore.new ⟨0⟩ ⟨0⟩)
        (linkedScan ++ [.publish Io.none])).published = some p ∧
      p.readPage [[115]] none ⟨⟨[nameB]⟩, none, 512⟩ = .ok linkedFolderPage ∧
      ∃ tree, fromPage (fun _ => none) ⟨200, 32⟩ [[115]] linkedFolderPage (2 ^ 20) (0, 0) none
          false = .ok tree ∧
        (∀ {F : Type} (N : LayoutNumbers F),
          Faithful N [[115]] linkedFolderPage false tree ∧
            (tree.filesInCurrentFolder N 1 false [⟨[nameB, nameC]⟩]).length = 2) ∧
        tree.idForRelative ⟨[nameB, nameA]⟩ = some ⟨2⟩ ∧
        ∃ target, tree.deletionTargetFromPreview ⟨2⟩ true = .ok target ∧
          target.pathToFile = [nameB, nameA] ∧ target.size = 8192 := by
  obtain ⟨p, hp, hrecords, hmetrics, hcoverage, hcount, hgeneration⟩ := published_linkedScan
  obtain ⟨-, paths, -, -, hindex⟩ := ScanStore.published_indexes ⟨0⟩ ⟨0⟩ _ hp
  have hread := readPage_linkedScan hindex hrecords hmetrics hcoverage hcount hgeneration
  have hbuilt : (fromPage (fun _ => none) ⟨200, 32⟩ [[115]] linkedFolderPage (2 ^ 20) (0, 0) none
      false).toOption.any (fun tree =>
        decide (tree.relativeForId ⟨2⟩ = some ⟨[nameB, nameA]⟩) &&
        (tree.deletionTargetFromPreview ⟨2⟩ true).toOption.any fun target =>
          decide (target.pathToFile = [nameB, nameA] ∧ target.size = 8192)) = true := by
    decide +kernel
  have hok {ε α : Type} {r : Except ε α} {a : α} (hr : r.toOption = some a) : r = .ok a := by
    cases r with
    | error _ => cases hr
    | ok _ => exact congrArg Except.ok (Option.some.inj hr)
  obtain ⟨tree, htree, hchecked⟩ := (Option.any_eq_true _ _).mp hbuilt
  obtain ⟨hpath, htarget⟩ := (Bool.and_eq_true _ _).mp hchecked
  obtain ⟨target, hpreview, hsays⟩ := (Option.any_eq_true _ _).mp htarget
  have hfaithful {F : Type} (N : LayoutNumbers F) :=
    page_tree_faithful N ⟨0⟩ ⟨0⟩ _ hp hread (hok htree)
  refine ⟨p, hp, hread, tree, hok htree, fun N => ⟨hfaithful N, ?_⟩, ?_, target, hok hpreview,
    of_decide_eq_true hsays⟩
  · -- of three entries and the shared allocation one is removed, and the offset drops another
    obtain ⟨sorted, hperm, hdrop⟩ := (hfaithful N).lists 1 false [⟨[nameB, nameC]⟩]
    have hrows : (listedRows N false [⟨[nameB, nameC]⟩] false linkedFolderPage).length = 3 := by
      unfold listedRows
      rw [List.length_append, List.length_map, List.length_map]
      decide +kernel
    rw [← List.length_map, hdrop, List.length_drop, hperm.length_eq, hrows]
  · exact ((hfaithful LayoutNumbers.exactNumbers).lookup ⟨[nameB, nameA]⟩ ⟨2⟩).mpr (of_decide_eq_true hpath)

end SnapshotTree

end Excise
