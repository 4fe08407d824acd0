import Excise.Codec.PathObservation
import Excise.Codec.RunMerge
import Excise.Codec.SparseIndex
import Excise.Store.Summaries

/-!
# The path catalog

`build_path_catalog` over the reader of the path observations and the writer of the catalog, and
`read_path_catalog_entry`, which finds one row through the sparse index.
-/

namespace Excise
set_option autoImplicit false

open ByteReader

def pathCatalogVersion : UInt8 := 1

/-- `PathCatalogEntry` as it is read back: the raw terminal component instead of the path. -/
structure PathCatalogRow where
  id : Nat
  parentId : Nat
  name : Component

/-- The errors of the source and the panics of the writer. -/
inductive PathCatalogFailure where
  | Run (e : RunError)
  | PathKey (e : PathKeyError)
  | Observation (e : PathObservationCodecError)
  | WrongInputKind
  | WrongOutputKind
  | GenerationMismatch
  | Catalog (e : PathCatalogError)
  | Malformed
  | panicked
  deriving DecidableEq, Repr

/-- `From<RunError>`. -/
def PathCatalogFailure.ofRun : RunFileFailure → PathCatalogFailure
  | .Run error => .Run error
  | .panicked => .panicked

def encodePathCatalogValue (id parentId : Nat) (name : Component) : Except PathKeyError (List UInt8) :=
  appendPathComponentKey name.bytes (pathCatalogVersion :: (leBytes 8 id ++ leBytes 8 parentId))

/-- The last of the ancestors when the loop has popped those that do not contain the path. -/
def CatalogState.parentOf (s : CatalogState) (path : RelativePath) : RelativePath × Nat :=
  (ancestorsOf path s.ancestors).headD (.root, 0)

/-- The body of the loop of `build_path_catalog`: the record to append and the state after it. -/
def catalogueRecord (s : CatalogState) (key value : List UInt8) :
    Except PathCatalogFailure (FileRecord × CatalogState) :=
  match decodePathObservation key value with
  | .error e => .error (.Observation e)
  | .ok observation =>
    match s.catalogue observation with
    | .error e => .error (.Catalog e)
    | .ok next =>
      match observation.path.components.getLast? with
      | none => .error (.Catalog .MissingParent)
      | some name =>
        match encodePathCatalogValue s.nextId (s.parentOf observation.path).2 name with
        | .error e => .error (.PathKey e)
        | .ok outputValue => .ok ((key, outputValue), next)

section Build

variable (digest : List UInt8 → BlockDigest) (refusal running : Nat → Option IoErrorKind)

/-- The loop of `build_path_catalog`. -/
def catalogueRecords (s : CatalogState) (input : FileRunReader) (output : FileRunWriter) :
    Except PathCatalogFailure FileRunWriter :=
  match _h : input.nextRecord digest running with
  | .error e => .error (.Run e)
  | .ok (none, _) => .ok output
  | .ok (some (key, value), later) =>
    match catalogueRecord s key value with
    | .error e => .error e
    | .ok (record, next) =>
      match output.append digest refusal record with
      | .error e => .error (.ofRun e)
      | .ok output => catalogueRecords next later output
termination_by input.remaining
decreasing_by exact FileRunReader.nextRecord_remaining_lt _h

def buildPathCatalogRun (input : FileRunReader) (output : FileRunWriter) :
    Except PathCatalogFailure FileRunWriter :=
  if input.descriptor.kind ≠ .PathObservation then .error .WrongInputKind
  else if output.descriptor.kind ≠ .PathCatalog then .error .WrongOutputKind
  else if input.descriptor.generation ≠ output.descriptor.generation then .error .GenerationMismatch
  else catalogueRecords digest refusal running .start input output

end Build

def decodePathCatalogEntry (value : List UInt8) : Except PathCatalogFailure PathCatalogRow :=
  ByteReader.decode (do
    let version ← byte .Malformed
    require .Malformed (version == pathCatalogVersion)
    let id ← le .Malformed 8
    let parentId ← le .Malformed 8
    let value ← remainder
    let namePath ← ofExcept .PathKey (decodePathKey value)
    require .Malformed (namePath.depth == 1)
    let name ← ofOption .Malformed namePath.components.head?
    return ⟨id, parentId, name⟩) value

section Lookup

variable (digest : List UInt8 → BlockDigest)

/-- The loop of `read_path_catalog_entry`. -/
def findPathCatalogEntry (expected : List UInt8) (reader : FileRangeReader) :
    Except PathCatalogFailure (Option PathCatalogRow) :=
  match _h : reader.nextRecord digest with
  | .error e => .error (.Run e)
  | .ok (none, _) => .ok none
  | .ok (some (key, value), later) =>
    if compareBytes expected key = .gt then findPathCatalogEntry expected later
    else if key ≠ expected then .ok none
    else (decodePathCatalogEntry value).map some
termination_by reader.remaining
decreasing_by exact FileRangeReader.nextRecord_remaining_lt _h

def readPathCatalogEntry (run : FileSealedRun) (path : RelativePath) :
    Except PathCatalogFailure (Option PathCatalogRow) :=
  if run.descriptor.kind ≠ .PathCatalog then .error .WrongOutputKind
  else
    match encodePathKey path with
    | .error e => .error (.PathKey e)
    | .ok expected =>
      match run.rangeReader expected with
      | .error e => .error (.Run e)
      | .ok reader => findPathCatalogEntry digest expected reader

end Lookup

/-! ## The ids follow the paths -/

/-- Row `n` has the id `n`, and the parent id of a row is the id of the row above its path; the root
has no row and the id zero. -/
structure Catalogued (observations : List PathObservation) (rows : List PathCatalogEntry) : Prop where
  paths : rows.map PathCatalogEntry.path = observations.map PathObservation.path
  ids : rows.map PathCatalogEntry.id = List.range' 1 rows.length
  parents : ∀ row ∈ rows, (row.path.isDirectChildOf .root = true ∧ row.parentId = 0) ∨
    ∃ parent ∈ rows, row.path.isDirectChildOf parent.path = true ∧ row.parentId = parent.id

namespace Catalogued

variable {observations : List PathObservation} {rows : List PathCatalogEntry} {row : PathCatalogEntry}

theorem mem_iff (h : Catalogued observations rows) (path : RelativePath) :
    (∃ row ∈ rows, row.path = path) ↔ ∃ o ∈ observations, o.path = path := by
  rw [← List.mem_map, h.paths, List.mem_map]

theorem id_le (h : Catalogued observations rows) (hrow : row ∈ rows) :
    row.id ≤ observations.length := by
  have hlength : rows.length = observations.length := by
    have hpaths := congrArg List.length h.paths
    rwa [List.length_map, List.length_map] at hpaths
  have hmem := List.mem_map_of_mem (f := PathCatalogEntry.id) hrow
  rw [h.ids, List.mem_range'_1] at hmem
  omega

theorem parentId_le (h : Catalogued observations rows) (hrow : row ∈ rows) :
    row.parentId ≤ observations.length := by
  rcases h.parents row hrow with ⟨-, hzero⟩ | ⟨parent, hparent, -, hid⟩
  · rw [hzero]
    exact Nat.zero_le _
  · rw [hid]
    exact h.id_le hparent

theorem name (h : Catalogued observations rows) (hrow : row ∈ rows) :
    ∃ name ∈ row.path.components, row.path.components.getLast? = some name := by
  obtain ⟨d, hchild⟩ : ∃ d, row.path.isDirectChildOf d = true := by
    rcases h.parents row hrow with ⟨hchild, -⟩ | ⟨parent, -, hchild, -⟩
    · exact ⟨_, hchild⟩
    · exact ⟨_, hchild⟩
  obtain ⟨c, hc⟩ := RelativePath.isDirectChildOf_iff.mp hchild
  rw [hc]
  exact ⟨c, List.mem_append_right _ List.mem_cons_self, List.getLast?_concat⟩

end Catalogued

namespace CatalogState

theorem catalogue_eq_ok {s next : CatalogState} {o : PathObservation} :
    s.catalogue o = .ok next ↔ o.path.isDirectChildOf (s.parentOf o.path).1 = true ∧
      s.nextId + 1 < 2 ^ 64 ∧ next =
        { ancestors := if o.kind = .Directory then (o.path, s.nextId) :: ancestorsOf o.path s.ancestors
            else ancestorsOf o.path s.ancestors
          nextId := s.nextId + 1
          rows := s.rows ++ [⟨o.path, s.nextId, (s.parentOf o.path).2⟩] } := by
  have hunfold : s.catalogue o =
      if !o.path.isDirectChildOf (s.parentOf o.path).1 then .error .MissingParent
      else if 2 ^ 64 ≤ s.nextId + 1 then .error .IdOverflow
      else .ok
        { ancestors := if o.kind = .Directory then (o.path, s.nextId) :: ancestorsOf o.path s.ancestors
            else ancestorsOf o.path s.ancestors
          nextId := s.nextId + 1
          rows := s.rows ++ [⟨o.path, s.nextId, (s.parentOf o.path).2⟩] } := rfl
  rw [hunfold]
  cases o.path.isDirectChildOf (s.parentOf o.path).1 with
  | false => simp
  | true =>
    rw [if_neg (by decide)]
    by_cases hoverflow : 2 ^ 64 ≤ s.nextId + 1
    · rw [if_pos hoverflow]
      exact iff_of_false (fun h => by cases h) fun h => absurd h.2.1 (not_lt.mpr hoverflow)
    · rw [if_neg hoverflow, Except.ok.injEq]
      exact ⟨fun h => ⟨rfl, not_le.mp hoverflow, h.symm⟩, fun h => h.2.2.symm⟩

theorem ancestorsOf_sublist (path : RelativePath) (ancestors : List (RelativePath × Nat)) :
    (ancestorsOf path ancestors).Sublist ancestors :=
  List.dropWhile_sublist _

theorem mem_ancestorsOf {path : RelativePath} {ancestors : List (RelativePath × Nat)}
    {a : RelativePath × Nat} (h : a ∈ ancestorsOf path ancestors) : a ∈ ancestors :=
  (ancestorsOf_sublist path ancestors).subset h

theorem parentOf_cases (s : CatalogState) (path : RelativePath) :
    (ancestorsOf path s.ancestors = [] ∧ s.parentOf path = (.root, 0)) ∨
    ∃ rest, ancestorsOf path s.ancestors = s.parentOf path :: rest ∧
      path.startsWith (s.parentOf path).1 = true := by
  unfold parentOf
  cases hleft : ancestorsOf path s.ancestors with
  | nil => exact Or.inl ⟨rfl, rfl⟩
  | cons a rest =>
    refine Or.inr ⟨rest, rfl, ?_⟩
    have hhead := List.head_dropWhile_not (fun a => !path.startsWith a.1) (l := s.ancestors)
      (by rw [show s.ancestors.dropWhile _ = _ from hleft]; exact List.cons_ne_nil _ _)
    have hsame : (s.ancestors.dropWhile fun a => !path.startsWith a.1).head
        (by rw [show s.ancestors.dropWhile _ = _ from hleft]; exact List.cons_ne_nil _ _) = a := by
      simp only [show s.ancestors.dropWhile (fun a => !path.startsWith a.1) = _ from hleft,
        List.head_cons]
    rw [hsame] at hhead
    simpa using hhead

theorem mem_ancestorsOf_of_startsWith {path : RelativePath} {ancestors : List (RelativePath × Nat)}
    {a : RelativePath × Nat} (ha : a ∈ ancestors) (h : path.startsWith a.1 = true) :
    a ∈ ancestorsOf path ancestors := by
  rw [← List.takeWhile_append_dropWhile (p := fun a => !path.startsWith a.1) (l := ancestors)] at ha
  rcases List.mem_append.mp ha with hdropped | hkept
  · have hnot := List.mem_takeWhile_imp hdropped
    rw [h] at hnot
    cases hnot
  · exact hkept

end CatalogState

/-- What a numbered part of the stream has in its rows. -/
structure Numbered (done : List PathObservation) (s : CatalogState) : Prop where
  nextId : s.nextId = s.rows.length + 1
  rows : Catalogued done s.rows
  ancestors : ∀ a ∈ s.ancestors, ∃ row ∈ s.rows, row.path = a.1 ∧ row.id = a.2

theorem Numbered.start : Numbered [] .start :=
  ⟨rfl, ⟨rfl, rfl, by simp [CatalogState.start]⟩, by simp [CatalogState.start]⟩

open CatalogState in
theorem Numbered.catalogue {done : List PathObservation} {s next : CatalogState} {o : PathObservation}
    (h : Numbered done s) (hnext : s.catalogue o = .ok next) : Numbered (done ++ [o]) next := by
  obtain ⟨hchild, -, rfl⟩ := catalogue_eq_ok.mp hnext
  have holder {row : PathCatalogEntry} (hrow : row ∈ s.rows) :
      row ∈ s.rows ++ [⟨o.path, s.nextId, (s.parentOf o.path).2⟩] := List.mem_append_left _ hrow
  have hnewest : (⟨o.path, s.nextId, (s.parentOf o.path).2⟩ : PathCatalogEntry) ∈
      s.rows ++ [⟨o.path, s.nextId, (s.parentOf o.path).2⟩] :=
    List.mem_append_right _ List.mem_cons_self
  refine ⟨?_, ⟨?_, ?_, ?_⟩, ?_⟩
  · simp [h.nextId]
  · rw [List.map_append, List.map_append, h.rows.paths]
    rfl
  · rw [List.map_append, h.rows.ids, List.length_append, List.length_singleton, List.range'_concat,
      List.map_singleton]
    dsimp only
    rw [h.nextId, Nat.one_mul, Nat.add_comm 1]
  · intro row hrow
    rcases List.mem_append.mp hrow with hold | hnew
    · rcases h.rows.parents row hold with hroot | ⟨parent, hparent, habove⟩
      · exact Or.inl hroot
      · exact Or.inr ⟨parent, holder hparent, habove⟩
    · obtain rfl := List.mem_singleton.mp hnew
      rcases s.parentOf_cases o.path with ⟨-, hroot⟩ | ⟨rest, hleft, -⟩
      · rw [hroot] at hchild ⊢
        exact Or.inl ⟨hchild, rfl⟩
      · -- the parent was pushed with the id of its row
        obtain ⟨parent, hparent, hpath, hid⟩ := h.ancestors (s.parentOf o.path)
          (mem_ancestorsOf (by rw [hleft]; exact List.mem_cons_self))
        exact Or.inr ⟨parent, holder hparent, hpath ▸ hchild, hid.symm⟩
  · intro a ha
    have hkept (ha : a ∈ ancestorsOf o.path s.ancestors) : ∃ row ∈ s.rows ++
        [⟨o.path, s.nextId, (s.parentOf o.path).2⟩], row.path = a.1 ∧ row.id = a.2 := by
      obtain ⟨row, hrow, hsame⟩ := h.ancestors a (mem_ancestorsOf ha)
      exact ⟨row, holder hrow, hsame⟩
    dsimp only at ha
    split at ha
    · rcases List.mem_cons.mp ha with rfl | ha
      · exact ⟨_, hnewest, rfl, rfl⟩
      · exact hkept ha
    · exact hkept ha

/-- The stack has every recorded directory that can still hold a later path, the innermost first. -/
structure Stacked (done : List PathObservation) (s : CatalogState) : Prop where
  recorded : ∀ a ∈ s.ancestors, ∃ o ∈ done, o.path = a.1
  nested : s.ancestors.Pairwise fun a b => a.1.startsWith b.1 = true
  held : ∀ o ∈ done, o.kind = .Directory → ∀ path : RelativePath, (∀ x ∈ done, x.path < path) →
    path.startsWith o.path = true → ∃ id, (o.path, id) ∈ s.ancestors

theorem Stacked.start : Stacked [] .start :=
  ⟨by simp [CatalogState.start], List.Pairwise.nil, by simp⟩

open CatalogState in
/-- The innermost directory above the path is its parent. -/
theorem Stacked.parentOf {done : List PathObservation} {s : CatalogState} (h : Stacked done s)
    {path parent : RelativePath} (hlater : ∀ x ∈ done, x.path < path)
    (hroot : ∀ x ∈ done, x.path ≠ .root) (hchild : path.isDirectChildOf parent = true)
    (hparent : parent = .root ∨ ∃ o ∈ done, o.kind = .Directory ∧ o.path = parent) :
    (s.parentOf path).1 = parent := by
  obtain ⟨c, hc⟩ := RelativePath.isDirectChildOf_iff.mp hchild
  have habove : path.startsWith parent = true := by
    rw [RelativePath.startsWith_iff, hc]
    exact List.prefix_append _ _
  rcases hparent with rfl | ⟨o, ho, hkind, rfl⟩
  · rcases s.parentOf_cases path with ⟨-, hnone⟩ | ⟨rest, hleft, hstarts⟩
    · rw [hnone]
    · -- an ancestor is recorded, so it is neither the root nor the path
      obtain ⟨x, hx, hsame⟩ := h.recorded (s.parentOf path)
        (mem_ancestorsOf (by rw [hleft]; exact List.mem_cons_self))
      rw [RelativePath.startsWith_iff, hc, ← hsame] at hstarts
      rcases List.prefix_concat_iff.mp hstarts with heq | hshorter
      · have hpath : x.path = path := RelativePath.ext_components (heq.trans hc.symm)
        exact absurd (hlater x hx) (hpath ▸ lt_irrefl _)
      · exact absurd (RelativePath.ext_components (List.prefix_nil.mp hshorter)) (hroot x hx)
  · obtain ⟨id, hid⟩ := h.held o ho hkind path hlater habove
    have hmem := mem_ancestorsOf_of_startsWith hid habove
    rcases s.parentOf_cases path with ⟨hnone, -⟩ | ⟨rest, hleft, hstarts⟩
    · rw [hnone] at hmem
      cases hmem
    · obtain ⟨x, hx, hsame⟩ := h.recorded (s.parentOf path)
        (mem_ancestorsOf (by rw [hleft]; exact List.mem_cons_self))
      have hinner : (s.parentOf path).1.startsWith o.path = true := by
        rw [hleft] at hmem
        rcases List.mem_cons.mp hmem with heq | hrest
        · rw [← heq]
          exact RelativePath.startsWith_refl _
        · have hpairs := List.Pairwise.sublist (ancestorsOf_sublist path s.ancestors) h.nested
          rw [hleft] at hpairs
          exact (List.pairwise_cons.mp hpairs).1 _ hrest
      rw [RelativePath.startsWith_iff, hc, ← hsame] at hstarts
      rcases List.prefix_concat_iff.mp hstarts with heq | hshorter
      · have hpath : x.path = path := RelativePath.ext_components (heq.trans hc.symm)
        exact absurd (hlater x hx) (hpath ▸ lt_irrefl _)
      · rw [← hsame] at hinner ⊢
        exact RelativePath.startsWith_antisymm hinner (RelativePath.startsWith_iff _ _ |>.mpr hshorter)

open CatalogState in
theorem Stacked.catalogue {done : List PathObservation} {s next : CatalogState} {o : PathObservation}
    (h : Stacked done s) (hlater : ∀ x ∈ done, x.path < o.path) (hnext : s.catalogue o = .ok next) :
    Stacked (done ++ [o]) next := by
  obtain ⟨-, -, rfl⟩ := catalogue_eq_ok.mp hnext
  have hrecorded : ∀ a ∈ ancestorsOf o.path s.ancestors, ∃ x ∈ done ++ [o], x.path = a.1 := by
    intro a ha
    obtain ⟨x, hx, hsame⟩ := h.recorded a (mem_ancestorsOf ha)
    exact ⟨x, List.mem_append_left _ hx, hsame⟩
  have hnested := List.Pairwise.sublist (ancestorsOf_sublist o.path s.ancestors) h.nested
  -- what can hold a later path holds this one, so it is not dropped
  have hheld : ∀ d ∈ done, d.kind = .Directory → ∀ path : RelativePath, o.path < path →
      path.startsWith d.path = true → ∃ id, (d.path, id) ∈ ancestorsOf o.path s.ancestors := by
    intro d hd hkind path hpath habove
    have hthis : o.path.startsWith d.path = true := by
      by_contra hnot
      rw [Bool.not_eq_true] at hnot
      exact lt_asymm hpath (RelativePath.lt_of_startsWith_of_not (hlater d hd) hnot habove)
    obtain ⟨id, hid⟩ := h.held d hd hkind o.path hlater hthis
    exact ⟨id, mem_ancestorsOf_of_startsWith hid hthis⟩
  split
  · rename_i hdirectory
    refine ⟨?_, ?_, ?_⟩
    · intro a ha
      rcases List.mem_cons.mp ha with rfl | ha
      · exact ⟨o, List.mem_append_right _ List.mem_cons_self, rfl⟩
      · exact hrecorded a ha
    · refine List.pairwise_cons.mpr ⟨?_, hnested⟩
      intro a ha
      rcases s.parentOf_cases o.path with ⟨hnone, -⟩ | ⟨rest, hleft, hstarts⟩
      · rw [hnone] at ha
        cases ha
      · rw [hleft] at ha hnested
        rcases List.mem_cons.mp ha with rfl | ha
        · exact hstarts
        · exact RelativePath.startsWith_trans hstarts ((List.pairwise_cons.mp hnested).1 a ha)
    · intro d hd hkind path hpath habove
      have hthis := hpath o (List.mem_append_right _ List.mem_cons_self)
      rcases List.mem_append.mp hd with hd | hd
      · obtain ⟨id, hid⟩ := hheld d hd hkind path hthis habove
        exact ⟨id, List.mem_cons_of_mem _ hid⟩
      · obtain rfl := List.mem_singleton.mp hd
        exact ⟨s.nextId, List.mem_cons_self⟩
  · rename_i hdirectory
    refine ⟨hrecorded, hnested, ?_⟩
    intro d hd hkind path hpath habove
    have hthis := hpath o (List.mem_append_right _ List.mem_cons_self)
    rcases List.mem_append.mp hd with hd | hd
    · exact hheld d hd hkind path hthis habove
    · obtain rfl := List.mem_singleton.mp hd
      exact absurd hkind hdirectory

/-- A tree of paths is numbered to its end. -/
theorem TreeShaped.catalogued {observations : List PathObservation} (h : TreeShaped observations)
    (hlength : observations.length + 1 < 2 ^ 64) :
    ∃ s, observations.foldlM CatalogState.catalogue .start = .ok s ∧
      Catalogued observations s.rows := by
  have hroot : ∀ x ∈ observations, x.path ≠ .root := by
    intro x hx hroot
    obtain ⟨d, hchild, -⟩ := h.parents x hx
    obtain ⟨c, hc⟩ := RelativePath.isDirectChildOf_iff.mp hchild
    rw [hroot] at hc
    exact absurd hc.symm (List.append_ne_nil_of_right_ne_nil _ (List.cons_ne_nil _ _))
  obtain ⟨s, hs⟩ := foldlM_total (f := CatalogState.catalogue) (l := observations) (s := .start)
    (P := fun done s => Stacked done s ∧ s.nextId = done.length + 1) ⟨Stacked.start, rfl⟩ (by
      rintro done o rest s rfl ⟨hstacked, hid⟩
      have hpairs := List.pairwise_append.mp h.sorted
      have hlater : ∀ x ∈ done, x.path < o.path := fun x hx => hpairs.2.2 x hx o List.mem_cons_self
      obtain ⟨d, hchild, hd⟩ := h.parents o (by simp)
      have hparent : d = .root ∨ ∃ x ∈ done, x.kind = .Directory ∧ x.path = d := by
        refine hd.imp_right ?_
        rintro ⟨x, hx, hkind, rfl⟩
        -- a parent precedes what it holds
        obtain ⟨c, hc⟩ := RelativePath.isDirectChildOf_iff.mp hchild
        have hle : x.path ≤ o.path := RelativePath.le_of_startsWith (by
          rw [RelativePath.startsWith_iff, hc]
          exact List.prefix_append _ _)
        rcases List.mem_append.mp hx with hx | hx
        · exact ⟨x, hx, hkind, rfl⟩
        · rcases List.mem_cons.mp hx with rfl | hx
          · exact absurd (congrArg List.length hc) (by simp)
          · exact absurd hle (not_le.mpr ((List.pairwise_cons.mp hpairs.2.1).1 x hx))
      have hsame := hstacked.parentOf hlater (fun x hx => hroot x (List.mem_append_left _ hx)) hchild
        hparent
      have hnext := CatalogState.catalogue_eq_ok.mpr ⟨hsame.symm ▸ hchild, by
        rw [hid]
        simp only [List.length_append, List.length_cons] at hlength
        omega, rfl⟩
      refine ⟨_, hnext, hstacked.catalogue hlater hnext, ?_⟩
      simp [hid])
  exact ⟨s, hs, (foldlM_ok (P := Numbered) hs Numbered.start fun _ _ _ _ hP hnext =>
    hP.catalogue hnext).rows⟩

/-! ## The rows written -/

def RelativePath.key (path : RelativePath) : List UInt8 := path.components.flatMap Component.key

/-- The record of a row of the catalog. -/
def PathCatalogEntry.record (e : PathCatalogEntry) : FileRecord :=
  (e.path.key, pathCatalogVersion :: (leBytes 8 e.id ++ (leBytes 8 e.parentId ++
    e.path.components.getLast?.elim [] Component.key)))

theorem RelativePath.key_inj {p q : RelativePath} (hp : ∀ c ∈ p.components, c.nulFree)
    (hq : ∀ c ∈ q.components, c.nulFree) (h : p.key = q.key) : p = q := by
  have hdecode := (decodePathKey_eq_ok p.key p).mpr ⟨hp, rfl⟩
  rw [(decodePathKey_eq_ok p.key q).mpr ⟨hq, h⟩] at hdecode
  exact (Except.ok.inj hdecode).symm

theorem decodePathObservation_key {o : PathObservation} {key value : List UInt8}
    (h : decodePathObservation key value = .ok o) :
    (∀ c ∈ o.path.components, c.nulFree) ∧ key = o.path.key := by
  obtain ⟨flags, -, -, -, -, -, -, hkey⟩ := decodePathObservation_eq_ok.mp h
  exact (encodePathKey_eq_ok _ _).mp hkey

/-- The record written is that of the row numbered. -/
theorem catalogueRecord_ok {s next : CatalogState} {o : PathObservation} {key value : List UInt8}
    (h : decodePathObservation key value = .ok o) (hnext : s.catalogue o = .ok next) :
    catalogueRecord s key value = .ok
      (PathCatalogEntry.record ⟨o.path, s.nextId, (s.parentOf o.path).2⟩, next) := by
  obtain ⟨hfree, rfl⟩ := decodePathObservation_key h
  obtain ⟨hchild, -, -⟩ := CatalogState.catalogue_eq_ok.mp hnext
  obtain ⟨c, hc⟩ := RelativePath.isDirectChildOf_iff.mp hchild
  have hlast : o.path.components.getLast? = some c := by rw [hc, List.getLast?_concat]
  have hname : c.nulFree := hfree c (by rw [hc]; simp)
  unfold catalogueRecord
  rw [h]
  dsimp only
  rw [hnext]
  dsimp only
  rw [hlast]
  dsimp only
  rw [encodePathCatalogValue, (appendPathComponentKey_eq_ok c _ _).mpr ⟨hname, rfl⟩]
  simp only [PathCatalogEntry.record, hlast, Option.elim_some, List.cons_append, List.append_assoc]

section Loop

variable {digest : List UInt8 → BlockDigest} {refusal running : Nat → Option IoErrorKind}

theorem catalogueRecords_none {s : CatalogState} {input later : FileRunReader} {output : FileRunWriter}
    (h : input.nextRecord digest running = .ok (none, later)) :
    catalogueRecords digest refusal running s input output = .ok output := by
  rw [catalogueRecords]
  split <;> rename_i heq <;> rw [h] at heq <;> cases heq

theorem catalogueRecords_some {s next : CatalogState} {input later : FileRunReader}
    {output : FileRunWriter} {key value : List UInt8} {record : FileRecord}
    (h : input.nextRecord digest running = .ok (some (key, value), later))
    (hrecord : catalogueRecord s key value = .ok (record, next)) :
    catalogueRecords digest refusal running s input output =
      match output.append digest refusal record with
      | .error e => .error (.ofRun e)
      | .ok output => catalogueRecords digest refusal running next later output := by
  rw [catalogueRecords]
  split <;> rename_i heq <;> rw [h] at heq <;> cases heq
  rw [hrecord]

/-- The loop appends the rows of the unread observations. -/
theorem catalogueRecords_eq (hrun : ∀ n, running n = none) {observations : List PathObservation}
    {s final : CatalogState} (hfold : observations.foldlM CatalogState.catalogue s = .ok final)
    {input : FileRunReader} {current : List FileRecord} {blocks : List (List FileRecord)}
    (hunread : FileRunReader.Unread digest input current blocks)
    (hdecode : List.Forall₂ (fun o r => decodePathObservation r.1 r.2 = .ok o) observations
      (current ++ blocks.flatten)) (output : FileRunWriter) :
    ∃ added, final.rows = s.rows ++ added ∧
      catalogueRecords digest refusal running s input output =
        ((added.map PathCatalogEntry.record).foldlM (FileRunWriter.append digest refusal) output).mapError
          .ofRun := by
  induction observations generalizing s input current blocks output with
  | nil =>
    cases hfold
    have hnone := List.forall₂_nil_left_iff.mp hdecode
    rcases FileRunReader.nextRecord_unread hrun hunread with
      ⟨-, later, hstep⟩ | ⟨_, _, _, _, -, -, hcons⟩
    · exact ⟨[], (List.append_nil _).symm, catalogueRecords_none hstep⟩
    · rw [hcons] at hnone
      cases hnone
  | cons o observations ih =>
    obtain ⟨next, hnext, hrest⟩ := foldlM_cons_ok hfold
    rcases FileRunReader.nextRecord_unread hrun hunread with
      ⟨hempty, -⟩ | ⟨⟨key, value⟩, remaining, after, later, hstep, hlater, hcons⟩
    · rw [hempty] at hdecode
      cases hdecode
    · rw [hcons] at hdecode
      obtain ⟨hhead, htail⟩ := List.forall₂_cons.mp hdecode
      have hrecord := catalogueRecord_ok hhead hnext
      have hrow := (CatalogState.catalogue_eq_ok.mp hnext).2.2
      rw [catalogueRecords_some hstep hrecord]
      generalize hentry : (⟨o.path, s.nextId, (s.parentOf o.path).2⟩ : PathCatalogEntry) = row at hrow ⊢
      have hrows : next.rows = s.rows ++ [row] := by rw [hrow]
      cases happend : output.append digest refusal row.record with
      | error e =>
        obtain ⟨added, hadded, -⟩ := ih hrest hlater htail output
        refine ⟨row :: added, ?_, ?_⟩
        · rw [hadded, hrows, List.append_assoc, List.singleton_append]
        · rw [List.map_cons, List.foldlM_cons, happend]
          rfl
      | ok output' =>
        obtain ⟨added, hadded, hloop⟩ := ih hrest hlater htail output'
        refine ⟨row :: added, ?_, ?_⟩
        · rw [hadded, hrows, List.append_assoc, List.singleton_append]
        · rw [List.map_cons, List.foldlM_cons, happend]
          exact hloop

end Loop

/-! ## Looking a path up -/

/-- A row is read back with its numbers and its terminal component. -/
theorem decodePathCatalogEntry_record {e : PathCatalogEntry} {name : Component}
    (hid : e.id < 2 ^ 64) (hparent : e.parentId < 2 ^ 64)
    (hname : e.path.components.getLast? = some name) (hfree : name.nulFree) :
    decodePathCatalogEntry e.record.2 = .ok ⟨e.id, e.parentId, name⟩ := by
  have hpath : decodePathKey name.key = .ok ⟨[name]⟩ := (decodePathKey_eq_ok _ _).mpr
    ⟨by simpa using hfree, by simp⟩
  unfold decodePathCatalogEntry
  rw [decode_eq_ok]
  simp only [bind_ok, byte_ok, require_ok, le_ok, remainder_ok, ofExcept_ok, ofOption_ok, pure_ok]
  refine ⟨[], pathCatalogVersion, _, rfl, (), _, ⟨beq_self_eq_true _, rfl⟩, e.id, _, ⟨hid, rfl⟩,
    e.parentId, _, ⟨hparent, rfl⟩, name.key, _, ⟨?_, rfl⟩, ⟨[name]⟩, _, ⟨hpath, rfl⟩, (), _,
    ⟨rfl, rfl⟩, name, _, ⟨rfl, rfl⟩, rfl, rfl⟩
  rw [hname]
  rfl

section Find

variable {digest : List UInt8 → BlockDigest} {expected : List UInt8}

theorem findPathCatalogEntry_none {g g' : FileRangeReader} (h : g.nextRecord digest = .ok (none, g')) :
    findPathCatalogEntry digest expected g = .ok none := by
  rw [findPathCatalogEntry]
  split <;> rename_i heq <;> rw [h] at heq <;> cases heq

theorem findPathCatalogEntry_some {g g' : FileRangeReader} {key value : List UInt8}
    (h : g.nextRecord digest = .ok (some (key, value), g')) :
    findPathCatalogEntry digest expected g =
      if compareBytes expected key = .gt then findPathCatalogEntry digest expected g'
      else if key ≠ expected then .ok none
      else (decodePathCatalogEntry value).map some := by
  rw [findPathCatalogEntry]
  split <;> rename_i heq <;> rw [h] at heq <;> cases heq
  rfl

/-- The first record at the key or above decides. -/
theorem findPathCatalogEntry_eq {g : FileRangeReader} {records : List FileRecord}
    (h : g.readToEnd digest = .ok records) :
    findPathCatalogEntry digest expected g =
      match records.find? (atOrAbove expected) with
      | none => .ok none
      | some r => if r.1 ≠ expected then .ok none else (decodePathCatalogEntry r.2).map some := by
  induction records generalizing g with
  | nil =>
    cases hnext : g.nextRecord digest with
    | error e =>
      rw [FileRangeReader.readToEnd_error hnext] at h
      cases h
    | ok next =>
      obtain ⟨_ | record, g'⟩ := next
      · exact findPathCatalogEntry_none hnext
      · rw [FileRangeReader.readToEnd_some hnext] at h
        obtain ⟨more, -, hmore⟩ := map_eq_ok h
        cases hmore
  | cons r records ih =>
    cases hnext : g.nextRecord digest with
    | error e =>
      rw [FileRangeReader.readToEnd_error hnext] at h
      cases h
    | ok next =>
      obtain ⟨_ | ⟨key, value⟩, g'⟩ := next
      · rw [FileRangeReader.readToEnd_none hnext] at h
        cases h
      · rw [FileRangeReader.readToEnd_some hnext] at h
        obtain ⟨more, hmore, heq⟩ := map_eq_ok h
        cases heq
        rw [findPathCatalogEntry_some hnext, List.find?_cons]
        by_cases hbelow : compareBytes expected key = .gt
        · have hskip : atOrAbove expected (key, value) = false := by
            unfold atOrAbove
            rw [hbelow]
            rfl
          rw [if_pos hbelow, hskip]
          exact ih hmore
        · have hfound : atOrAbove expected (key, value) = true := bne_iff_ne.mpr hbelow
          rw [if_neg hbelow, hfound]

/-- A key of a sorted run is found first. -/
theorem find_atOrAbove {records : List FileRecord} (hsorted : SortedBy recordKey records)
    {r : FileRecord} (hr : r ∈ records) : records.find? (atOrAbove r.1) = some r := by
  induction records with
  | nil => cases hr
  | cons x records ih =>
    rw [List.find?_cons]
    rcases List.mem_cons.mp hr with rfl | hr
    · have hself : atOrAbove r.1 r = true := bne_iff_ne.mpr fun hgt =>
        lt_irrefl _ (compareBytes_gt.mp hgt)
      rw [hself]
    · have hless := compareBytes_gt.mpr ((List.pairwise_cons.mp hsorted).1 r hr)
      have hskip : atOrAbove r.1 x = false := by
        unfold atOrAbove
        rw [show compareBytes r.1 x.1 = .gt from hless]
        rfl
      rw [hskip]
      exact ih hsorted.tail hr

/-- The sparse index leads to the record of the key, or past where it would be. -/
theorem readPathCatalogEntry_sealed {descriptor : RunDescriptor} {blockCapacity : Nat}
    {records : List FileRecord} {run : FileSealedRun} {path : RelativePath}
    (hkind : descriptor.kind = .PathCatalog)
    (h : SealedWith digest descriptor blockCapacity records run)
    (hkey : encodePathKey path = .ok expected) :
    (∀ r ∈ records, r.1 = expected →
      readPathCatalogEntry digest run path = (decodePathCatalogEntry r.2).map some) ∧
    ((∀ r ∈ records, r.1 ≠ expected) → readPathCatalogEntry digest run path = .ok none) := by
  have hrange (rest : List FileRecord) (hrest : readRange digest run expected = .ok rest) :
      readPathCatalogEntry digest run path =
        match rest.find? (atOrAbove expected) with
        | none => .ok none
        | some r => if r.1 ≠ expected then .ok none else (decodePathCatalogEntry r.2).map some := by
    obtain ⟨reader, hreader, hread⟩ := bind_eq_ok hrest
    unfold readPathCatalogEntry
    rw [if_neg (by rw [h.same_descriptor, hkind]; exact not_not.mpr rfl), hkey]
    dsimp only
    rw [hreader]
    exact findPathCatalogEntry_eq hread
  obtain ⟨hmissed, hreached⟩ := readRange_sealed (by rw [hkind]; rfl) h expected
  by_cases hreaches : Reaches records expected
  · obtain ⟨skipped, rest, rfl, hrest, hbelow⟩ := hreached hreaches
    rw [hrange rest hrest]
    constructor
    · rintro r hr rfl
      rcases List.mem_append.mp hr with hskipped | hr
      · exact absurd (compareBytes_gt.mp (hbelow r hskipped)) (lt_irrefl _)
      · rw [find_atOrAbove (List.pairwise_append.mp h.sorted).2.1 hr]
        exact if_neg (not_not.mpr rfl)
    · intro hnone
      cases hfind : rest.find? (atOrAbove expected) with
      | none => rfl
      | some r =>
        exact if_pos (hnone r (List.mem_append_right _ (List.mem_of_find?_eq_some hfind)))
  · rw [hrange [] (hmissed hreaches)]
    refine ⟨?_, fun _ => rfl⟩
    rintro r hr rfl
    -- the first record is above the key, and so are the others
    refine absurd ?_ hreaches
    intro first hfirst hgt
    have habove := compareBytes_gt.mp hgt
    obtain ⟨later, rfl⟩ := List.head?_eq_some_iff.mp hfirst
    have hle : recordKey first ≤ recordKey r := h.sorted.head_le hr
    exact absurd habove (not_lt.mpr hle)

end Find

/-! ## The catalog of a run -/

section Catalog

variable {digest : List UInt8 → BlockDigest} {refusal running : Nat → Option IoErrorKind}
  {observations : List PathObservation} {records : List FileRecord}

theorem keys_eq (h : List.Forall₂ (fun (o : PathObservation) (r : FileRecord) =>
      decodePathObservation r.1 r.2 = .ok o) observations records) :
    records.map recordKey = observations.map fun o => o.path.key := by
  induction h with
  | nil => rfl
  | cons hhead _ ih =>
    rw [List.map_cons, List.map_cons, ih]
    exact congrArg (· :: _) (decodePathObservation_key hhead).2

theorem nulFree_of_decoded (h : List.Forall₂ (fun (o : PathObservation) (r : FileRecord) =>
      decodePathObservation r.1 r.2 = .ok o) observations records) :
    ∀ o ∈ observations, ∀ c ∈ o.path.components, c.nulFree := by
  intro o ho
  obtain ⟨r, -, hr⟩ := forall₂_mem h ho
  exact (decodePathObservation_key hr).1

theorem sorted_of_keys (h : List.Forall₂ (fun (o : PathObservation) (r : FileRecord) =>
      decodePathObservation r.1 r.2 = .ok o) observations records)
    (hsorted : SortedBy recordKey records) : SortedBy PathObservation.path observations := by
  have hfree := nulFree_of_decoded h
  have hpairs : (observations.map fun o => o.path.key).Pairwise (· < ·) := by
    rw [← keys_eq h]
    exact List.pairwise_map.mpr hsorted
  refine (List.pairwise_map.mp hpairs).imp_of_mem ?_
  intro a b ha hb hlt
  have horder := unix_pathKeyLaws.order a.path b.path _ _
    ((encodePathKey_eq_ok _ _).mpr ⟨hfree a ha, rfl⟩) ((encodePathKey_eq_ok _ _).mpr ⟨hfree b hb, rfl⟩)
  refine (RelativePath.compares_cmp.lt_iff a.path b.path).mp ?_
  rw [← horder]
  exact (compares_bytes.lt_iff _ _).mpr hlt

theorem InputRun.records_lt (i : InputRun digest) : i.records.length + 1 < 2 ^ 64 := by
  have hbody := runBody_length digest i.descriptor i.blockCapacity
    (packBlocks i.blockCapacity i.records)
  have hshort := i.short
  rw [packBlocks_flatten] at hbody
  rw [runImage, List.length_append] at hshort
  have hfooter : (encodeFooter (packBlocks i.blockCapacity i.records).flatten.length
      (packBlocks i.blockCapacity i.records).length).length = 20 := by
    simp [encodeFooter, footerMagic]
  omega

/-- From a sorted run of observations in which every parent is present, the rows get the ids from
one on in path order with the ids of their parent directories, and exactly their paths are found. -/
theorem path_catalog_exact (hrun : ∀ n, running n = none) (i : InputRun digest)
    (hinput : i.descriptor.kind = .PathObservation)
    (hrecords : List.Forall₂ (fun (o : PathObservation) (r : FileRecord) =>
      decodePathObservation r.1 r.2 = .ok o) observations i.records)
    (hparents : ∀ o ∈ observations, ∃ d, o.path.isDirectChildOf d = true ∧
      (d = .root ∨ ∃ x ∈ observations, x.kind = .Directory ∧ x.path = d))
    {output : RunDescriptor} (hkind : output.kind = .PathCatalog)
    (hgeneration : i.descriptor.generation = output.generation) {blockCapacity : Nat}
    {w : FileRunWriter} (hnew : FileRunWriter.new refusal [] 0 output blockCapacity = .ok w) :
    ∃ reader rows, FileRunReader.openFile i.file = .ok reader ∧
      buildPathCatalog observations = .ok rows ∧ Catalogued observations rows ∧
      ((∀ row ∈ rows, recordBytes row.record ≤ blockCapacity) →
        HasRoom refusal (framedBytes output blockCapacity (rows.map PathCatalogEntry.record)) →
        ∃ w' run, buildPathCatalogRun digest refusal running reader w = .ok w' ∧
          w'.sealRun digest refusal = .ok run) ∧
      ∀ w' run, buildPathCatalogRun digest refusal running reader w = .ok w' →
        w'.sealRun digest refusal = .ok run →
        readRunFile digest running run.file = .ok (output, rows.map PathCatalogEntry.record) ∧
        (∀ path found, readPathCatalogEntry digest run path = .ok (some found) ↔
          ∃ row ∈ rows, row.path = path ∧ found.id = row.id ∧ found.parentId = row.parentId ∧
            path.components.getLast? = some found.name) ∧
        ∀ path : RelativePath, (∀ c ∈ path.components, c.nulFree) →
          (∀ o ∈ observations, o.path ≠ path) → readPathCatalogEntry digest run path = .ok none := by
  have hlength : observations.length + 1 < 2 ^ 64 := hrecords.length_eq ▸ i.records_lt
  have htree : TreeShaped observations := ⟨sorted_of_keys hrecords i.sorted, hparents⟩
  obtain ⟨final, hfold, hrows⟩ := htree.catalogued hlength
  obtain ⟨reader, hopen, hdescriptor, hunread⟩ := i.opens
  have hflat := packBlocks_flatten i.blockCapacity i.records
  obtain ⟨added, hadded, hloop⟩ := @catalogueRecords_eq digest refusal running hrun observations
    .start final hfold reader [] _ hunread (by rw [List.nil_append, hflat]; exact hrecords) w
  obtain rfl : final.rows = added := hadded
  obtain ⟨hcapacity, rfl, -, -⟩ := FileRunWriter.new_eq_ok digest hnew
  have hbuild : buildPathCatalogRun digest refusal running reader w =
      ((final.rows.map PathCatalogEntry.record).foldlM (FileRunWriter.append digest refusal) w).mapError
        .ofRun := by
    unfold buildPathCatalogRun
    rw [hdescriptor, if_neg (not_not.mpr hinput), if_neg (not_not.mpr hkind),
      if_neg (not_not.mpr hgeneration)]
    exact hloop
  have hkeys : (final.rows.map PathCatalogEntry.record).map recordKey = i.records.map recordKey := by
    have hpaths := congrArg (List.map RelativePath.key) hrows.paths
    rw [List.map_map, List.map_map] at hpaths
    rw [keys_eq hrecords, List.map_map]
    exact hpaths
  have hsorted : SortedBy recordKey (final.rows.map PathCatalogEntry.record) := by
    have hinorder := List.pairwise_map.mpr i.sorted
    rw [← hkeys] at hinorder
    exact List.pairwise_map.mp hinorder
  -- the loop and the seal write the rows into a run file
  have hwrite (run : FileSealedRun) :
      writeRunFile digest refusal w.descriptor blockCapacity (final.rows.map PathCatalogEntry.record)
          = .ok run ↔
        ∃ w', buildPathCatalogRun digest refusal running reader w = .ok w' ∧
          w'.sealRun digest refusal = .ok run := by
    unfold writeRunFile
    rw [hnew, hbuild]
    show ((List.foldlM (FileRunWriter.append digest refusal) w _).bind fun w' =>
      w'.sealRun digest refusal) = _ ↔ _
    cases (final.rows.map PathCatalogEntry.record).foldlM (FileRunWriter.append digest refusal) w with
    | error e => exact iff_of_false (by rintro ⟨⟩) (by rintro ⟨_, ⟨⟩, -⟩)
    | ok v =>
      constructor
      · exact fun h => ⟨v, rfl, h⟩
      · rintro ⟨_, ⟨⟩, h⟩
        exact h
  have hfree_of : ∀ o ∈ observations, ∀ c ∈ o.path.components, c.nulFree := nulFree_of_decoded hrecords
  refine ⟨reader, final.rows, hopen, ?_, hrows, ?_, ?_⟩
  · unfold buildPathCatalog
    rw [hfold]
    rfl
  · intro hfits hroom
    have hfits : ∀ r ∈ final.rows.map PathCatalogEntry.record, recordBytes r ≤ blockCapacity :=
      List.forall_mem_map.mpr hfits
    rcases writeRunFile_spec digest refusal w.descriptor hcapacity.1 hcapacity.2 hsorted hfits with
      ⟨run, hok, -⟩ | ⟨e, -, hblocked⟩
    · obtain ⟨w', hw', hseal⟩ := (hwrite run).mp hok
      exact ⟨w', run, hw', hseal⟩
    · refine absurd hblocked (not_blocked_of_hasRoom (hroom.mono ?_))
      have himage := @runImage_length_le digest w.descriptor blockCapacity
        (packBlocks blockCapacity (final.rows.map PathCatalogEntry.record))
        fun b hb => (packBlocks_full hfits b hb).1
      rwa [packBlocks_flatten] at himage
  · intro w' run hw' hseal
    have hsealed := sealedWith_of_writeRunFile (by rw [hkind]; rfl) ((hwrite run).mpr ⟨w', hw', hseal⟩)
    have hnone (path : RelativePath) (hfree : ∀ c ∈ path.components, c.nulFree)
        (hpath : ∀ o ∈ observations, o.path ≠ path) :
        readPathCatalogEntry digest run path = .ok none := by
      refine (readPathCatalogEntry_sealed hkind hsealed ((encodePathKey_eq_ok _ _).mpr ⟨hfree, rfl⟩)).2 ?_
      rintro r hr heq
      obtain ⟨row, hrow, rfl⟩ := List.mem_map.mp hr
      obtain ⟨o, ho, hsame⟩ := (hrows.mem_iff row.path).mp ⟨row, hrow, rfl⟩
      refine hpath o ho (RelativePath.key_inj (hfree_of o ho) hfree ?_)
      rw [hsame]
      exact heq
    have hfound (row : PathCatalogEntry) (hrow : row ∈ final.rows) (name : Component)
        (hname : row.path.components.getLast? = some name) (hmem : name ∈ row.path.components) :
        readPathCatalogEntry digest run row.path = .ok (some ⟨row.id, row.parentId, name⟩) := by
      obtain ⟨o, ho, hsame⟩ := (hrows.mem_iff row.path).mp ⟨row, hrow, rfl⟩
      have hfree := hfree_of o ho
      rw [hsame] at hfree
      have hid := hrows.id_le hrow
      have hparent := hrows.parentId_le hrow
      rw [(readPathCatalogEntry_sealed hkind hsealed ((encodePathKey_eq_ok _ _).mpr ⟨hfree, rfl⟩)).1
          row.record (List.mem_map_of_mem hrow) rfl,
        decodePathCatalogEntry_record (by omega) (by omega) hname (hfree name hmem)]
      rfl
    refine ⟨readRunFile_sealed hsealed hrun, ?_, hnone⟩
    intro path found
    constructor
    · intro hread
      have hfree : ∀ c ∈ path.components, c.nulFree := by
        unfold readPathCatalogEntry at hread
        split_ifs at hread
        cases hkey : encodePathKey path with
        | error e =>
          rw [hkey] at hread
          cases hread
        | ok key => exact ((encodePathKey_eq_ok _ _).mp hkey).1
      by_cases hlisted : ∃ o ∈ observations, o.path = path
      · obtain ⟨row, hrow, rfl⟩ := (hrows.mem_iff path).mpr hlisted
        obtain ⟨name, hmem, hname⟩ := hrows.name hrow
        rw [hfound row hrow name hname hmem] at hread
        cases hread
        exact ⟨row, hrow, rfl, rfl, rfl, hname⟩
      · rw [hnone path hfree fun o ho hsame => hlisted ⟨o, ho, hsame⟩] at hread
        cases hread
    · rintro ⟨row, hrow, rfl, hid, hparent, hname⟩
      obtain ⟨name, hmem, hlast⟩ := hrows.name hrow
      obtain rfl := Option.some.inj (hlast.symm.trans hname)
      rw [hfound row hrow found.name hlast hmem, ← hid, ← hparent]

end Catalog

def directoryName : Component := ⟨[97], valid_a⟩

def fileName : Component := ⟨[98], valid_b⟩

def bareObservation (path : RelativePath) (kind : PathEntryKind) : PathObservation :=
  ⟨path, kind, ⟨0, .unknown, .unknown, 0⟩, .Complete, none⟩

theorem bareObservation_decodes {path : RelativePath} {kind : PathEntryKind}
    (hfree : ∀ c ∈ path.components, c.nulFree) :
    decodePathObservation path.key (pathObservationValue 0 (bareObservation path kind))
      = .ok (bareObservation path kind) :=
  decodePathObservation_eq_ok.mpr ⟨0, rfl, rfl, ⟨rfl, by simp [bareObservation],
    by simp [bareObservation], by simp [bareObservation]⟩, ⟨plainFile_representable.metrics,
      by simp [bareObservation]⟩, rfl, rfl, (encodePathKey_eq_ok _ _).mpr ⟨hfree, rfl⟩⟩

/-- A directory and the file in it. -/
def nestedPair : List PathObservation :=
  [bareObservation ⟨[directoryName]⟩ .Directory, bareObservation ⟨[directoryName, fileName]⟩ .File]

def nestedPairRun : InputRun equalDigest where
  descriptor := ⟨⟨0⟩, 1, .PathObservation⟩
  blockCapacity := 128
  records := nestedPair.map fun o => (o.path.key, pathObservationValue 0 o)
  capacity := letterCapacity
  sorted := by decide
  fits := by decide
  short := by decide +kernel

theorem names_nulFree : ∀ c ∈ [directoryName, fileName], c.nulFree := by
  show ∀ c ∈ [directoryName, fileName], (0 : UInt8) ∉ c.bytes
  decide

theorem path_catalog_exact_nestedPair : ∃ reader w' run,
    FileRunReader.openFile nestedPairRun.file = .ok reader ∧
    buildPathCatalogRun equalDigest (fun _ => none) (fun _ => none) reader
      ⟨headerBytes ⟨⟨0⟩, 2, .PathCatalog⟩ 128, ⟨⟨0⟩, 2, .PathCatalog⟩, 128, [], none, 0, 0, 0, 28, [],
        false, some []⟩ = .ok w' ∧
    w'.sealRun equalDigest (fun _ => none) = .ok run ∧
    readPathCatalogEntry equalDigest run ⟨[directoryName, fileName]⟩ = .ok (some ⟨2, 1, fileName⟩) ∧
    readPathCatalogEntry equalDigest run ⟨[fileName]⟩ = .ok none := by
  obtain ⟨reader, rows, hopen, hpure, -, hroom, hsealed⟩ := @path_catalog_exact equalDigest
    (fun _ => none) (fun _ => none) nestedPair (fun _ => rfl) nestedPairRun rfl
    (List.Forall₂.cons (bareObservation_decodes fun c hc =>
        names_nulFree c (List.mem_append_left [fileName] hc))
      (List.Forall₂.cons (bareObservation_decodes names_nulFree) List.Forall₂.nil))
    (by
      intro o ho
      rcases List.mem_cons.mp ho with rfl | ho
      · exact ⟨.root, by decide, Or.inl rfl⟩
      · obtain rfl := List.mem_singleton.mp ho
        exact ⟨⟨[directoryName]⟩, by decide, Or.inr ⟨_, List.mem_cons_self, rfl, rfl⟩⟩)
    ⟨⟨0⟩, 2, .PathCatalog⟩ rfl rfl 128
    ⟨headerBytes ⟨⟨0⟩, 2, .PathCatalog⟩ 128, ⟨⟨0⟩, 2, .PathCatalog⟩, 128, [], none, 0, 0, 0, 28, [],
      false, some []⟩ rfl
  have hrows : buildPathCatalog nestedPair = .ok
      [⟨⟨[directoryName]⟩, 1, 0⟩, ⟨⟨[directoryName, fileName]⟩, 2, 1⟩] := by decide +kernel
  obtain rfl := Except.ok.inj (hpure.symm.trans hrows)
  obtain ⟨w', run, hbuild, hseal⟩ := hroom (by decide) ⟨by decide +kernel, fun _ _ => rfl⟩
  obtain ⟨-, hfound, hnone⟩ := hsealed w' run hbuild hseal
  refine ⟨reader, w', run, hopen, hbuild, hseal, ?_, ?_⟩
  · exact (hfound _ ⟨2, 1, fileName⟩).mpr
      ⟨_, List.mem_cons_of_mem _ List.mem_cons_self, rfl, rfl, rfl, rfl⟩
  · exact hnone _ (fun c hc => names_nulFree c (List.mem_append_right [directoryName] hc)) (by decide)

end Excise
