import Excise.Codec.Identity
import Excise.Codec.PathObservation
import Excise.Codec.RunFile

/-!
# Sealing a sorted batch

`seal_sorted_batch` of `session.rs`: a batch is sorted in memory by comparisons of its values and
appended under keys that the run writer compares as bytes. The two orders are one.
-/

namespace Excise
set_option autoImplicit false

/-! ## The order of identity observations -/

def FileId.tag : FileId → UInt8
  | .Inode _ _ => 0
  | .LowRes _ _ => 1
  | .HighRes _ _ => 2

/-- The `match` behind the tags of `compare_file_ids_by_encoding`. -/
def compareFileIdFields : FileId → FileId → Ordering
  | .Inode leftDevice leftInode, .Inode rightDevice rightInode =>
    (compareBytes (leBytes 8 leftDevice.toNat) (leBytes 8 rightDevice.toNat)).then
      (compareBytes (leBytes 8 leftInode.toNat) (leBytes 8 rightInode.toNat))
  | .LowRes leftVolume leftIndex, .LowRes rightVolume rightIndex =>
    (compareBytes (leBytes 4 leftVolume.toNat) (leBytes 4 rightVolume.toNat)).then
      (compareBytes (leBytes 8 leftIndex.toNat) (leBytes 8 rightIndex.toNat))
  | .HighRes leftVolume leftId, .HighRes rightVolume rightId =>
    (compareBytes (leBytes 8 leftVolume.toNat) (leBytes 8 rightVolume.toNat)).then
      (compareBytes (leBytes 16 leftId.toNat) (leBytes 16 rightId.toNat))
  -- unreachable: equal tags select one variant
  | _, _ => .eq

def compareFileIdsByEncoding (left right : FileId) : Ordering :=
  if compareByte left.tag right.tag ≠ .eq then compareByte left.tag right.tag
  else compareFileIdFields left right

/-- The comparison of a file identity and a path, for the paths of one platform. -/
def compareIdentityKeys {P : Type} (cmp : P → P → Ordering) (left right : FileId × P) : Ordering :=
  (compareFileIdsByEncoding left.1 right.1).then (cmp left.2 right.2)

def compareIdentityObservations (left right : IdentityObservation) : Ordering :=
  compareIdentityKeys RelativePath.cmp (left.fileId, left.path) (right.fileId, right.path)

/-- An identity observation is put under the identity and the path key behind it. -/
structure IdentityOrderAgrees {P : Type} (encode : P → Except PathKeyError (List UInt8))
    (cmp : P → P → Ordering) : Prop where
  order : ∀ a b k l, encode a.2 = .ok k → encode b.2 = .ok l →
    compareIdentityKeys cmp a b = compareBytes (a.1.encode ++ k) (b.1.encode ++ l)
  equal : ∀ a b k l, encode a.2 = .ok k → encode b.2 = .ok l →
    (compareIdentityKeys cmp a b = .eq ↔ a = b)

/-- The bytes behind the tag. -/
def FileId.fields : FileId → List UInt8
  | .Inode deviceId inodeNumber => leBytes 8 deviceId.toNat ++ leBytes 8 inodeNumber.toNat
  | .LowRes volume index => leBytes 4 volume.toNat ++ leBytes 8 index.toNat
  | .HighRes volume fileId => leBytes 8 volume.toNat ++ leBytes 16 fileId.toNat

theorem FileId.encode_eq (id : FileId) : id.encode = id.tag :: id.fields := by
  cases id <;> rfl

/-- Equal tags select one variant. -/
theorem FileId.of_tag_eq {motive : FileId → FileId → Prop} {a b : FileId} (h : a.tag = b.tag)
    (inode : ∀ d i d' i', motive (.Inode d i) (.Inode d' i'))
    (lowRes : ∀ v i v' i', motive (.LowRes v i) (.LowRes v' i'))
    (highRes : ∀ v i v' i', motive (.HighRes v i) (.HighRes v' i')) : motive a b := by
  cases a with
  | Inode d i =>
    cases b with
    | Inode d' i' => exact inode d i d' i'
    | LowRes => exact absurd (show (0 : UInt8) = 1 from h) (by decide)
    | HighRes => exact absurd (show (0 : UInt8) = 2 from h) (by decide)
  | LowRes v i =>
    cases b with
    | Inode => exact absurd (show (1 : UInt8) = 0 from h) (by decide)
    | LowRes v' i' => exact lowRes v i v' i'
    | HighRes => exact absurd (show (1 : UInt8) = 2 from h) (by decide)
  | HighRes v i =>
    cases b with
    | Inode => exact absurd (show (2 : UInt8) = 0 from h) (by decide)
    | LowRes => exact absurd (show (2 : UInt8) = 1 from h) (by decide)
    | HighRes v' i' => exact highRes v i v' i'

theorem FileId.fields_length {a b : FileId} (h : a.tag = b.tag) :
    a.fields.length = b.fields.length := by
  refine FileId.of_tag_eq (motive := fun a b => a.fields.length = b.fields.length) h ?_ ?_ ?_ <;>
    intros <;> simp [FileId.fields]

theorem compareBytes_cons (x y : UInt8) (xs ys : List UInt8) :
    compareBytes (x :: xs) (y :: ys) = (compareByte x y).then (compareBytes xs ys) := by
  unfold compareBytes
  exact List.compareLex_cons_cons

/-- No identity begins another, so what follows decides only between equal ones. -/
theorem compareBytes_encode_append (a b : FileId) (s t : List UInt8) :
    compareBytes (a.encode ++ s) (b.encode ++ t)
      = (compareBytes a.encode b.encode).then (compareBytes s t) := by
  rw [FileId.encode_eq, FileId.encode_eq, List.cons_append, List.cons_append, compareBytes_cons,
    compareBytes_cons]
  cases htag : compareByte a.tag b.tag with
  | lt => rfl
  | gt => rfl
  | eq => exact Compares.compareLex_append (FileId.fields_length ((compares_byte.eq_iff _ _).mp htag)) s t

theorem compareFileIds_eq (a b : FileId) :
    compareFileIdsByEncoding a b = compareBytes a.encode b.encode := by
  have hfields {n m v w x y : Nat} : (compareBytes (leBytes n v) (leBytes n w)).then
      (compareBytes (leBytes m x) (leBytes m y))
        = compareBytes (leBytes n v ++ leBytes m x) (leBytes n w ++ leBytes m y) :=
    (Compares.compareLex_append (by rw [leBytes_length, leBytes_length]) _ _).symm
  unfold compareFileIdsByEncoding
  rw [FileId.encode_eq, FileId.encode_eq, compareBytes_cons]
  by_cases htag : compareByte a.tag b.tag = .eq
  · rw [if_neg (not_not.mpr htag), htag]
    refine FileId.of_tag_eq (motive := fun a b => compareFileIdFields a b
      = compareBytes a.fields b.fields) ((compares_byte.eq_iff _ _).mp htag) ?_ ?_ ?_
    all_goals exact fun _ _ _ _ => hfields
  · rw [if_pos htag]
    cases hcmp : compareByte a.tag b.tag with
    | lt => rfl
    | gt => rfl
    | eq => exact absurd hcmp htag

theorem identityOrderAgrees_of_laws {P : Type} {encode : P → Except PathKeyError (List UInt8)}
    {decode : List UInt8 → Except PathKeyError P} {cmp : P → P → Ordering}
    {startsWith : P → P → Bool} (h : PathKeyLaws encode decode cmp startsWith) :
    IdentityOrderAgrees encode cmp := by
  have horder : ∀ a b k l, encode a.2 = .ok k → encode b.2 = .ok l →
      compareIdentityKeys cmp a b = compareBytes (a.1.encode ++ k) (b.1.encode ++ l) := by
    intro a b k l hk hl
    rw [compareIdentityKeys, compareFileIds_eq, compareBytes_encode_append, h.order _ _ k l hk hl]
  refine ⟨horder, ?_⟩
  intro a b k l hk hl
  unfold compareIdentityKeys
  rw [Ordering.then_eq_eq, compareFileIds_eq, ← h.order _ _ k l hk hl, compares_bytes.eq_iff,
    compares_bytes.eq_iff]
  constructor
  · rintro ⟨hid, rfl⟩
    have hpath : a.2 = b.2 :=
      Except.ok.inj ((h.roundTrip _ _ hk).symm.trans (h.roundTrip _ _ hl))
    exact Prod.ext (FileId.encode_injective hid) hpath
  · rintro rfl
    exact ⟨rfl, Except.ok.inj (hk.symm.trans hl)⟩

theorem compareIdentityObservations_isLE (a b : IdentityObservation) :
    (compareIdentityObservations a b).isLE = true ↔
      (Fact.identity a).key ≤ (Fact.identity b).key := by
  have hgt : compareIdentityObservations a b = .gt ↔
      (Fact.identity b).key < (Fact.identity a).key := by
    unfold compareIdentityObservations compareIdentityKeys Fact.key
    rw [Ordering.then_eq_gt, compareFileIds_eq, compareBytes_gt, compares_bytes.eq_iff,
      RelativePath.compares_cmp.gt_iff, FactKey.identity_lt_identity]
    exact or_congr Iff.rfl (and_congr_left fun _ => ⟨fun h => FileId.encode_injective h.symm,
      fun h => congrArg FileId.encode h.symm⟩)
  rw [← not_lt, ← hgt]
  cases compareIdentityObservations a b <;> simp

/-! ## Sealing -/

inductive RecordRunError (ε : Type) where
  | Codec (error : ε)
  | Run (error : RunFileFailure)
  | WrongRunKind

/-- The errors of `seal_sorted_batch`: of the appended families, of opening and of sealing a run. -/
inductive BatchSealError where
  | PathObservationRun (error : RecordRunError PathObservationCodecError)
  | IdentityObservationRun (error : RecordRunError IdentityObservationCodecError)
  | Run (error : RunFileFailure)

/-- `RUN_BLOCK_BYTES`. -/
def runBlockBytes : Nat := 64 * 1024

section Sealing

variable (digest : List UInt8 → BlockDigest) (refusal : Nat → Option IoErrorKind)

/-- Encodes a record and appends it to a run of its kind. -/
def appendEncoded {ο ε : Type} (kind : RunKind) (encode : ο → Except ε FileRecord)
    (writer : FileRunWriter) (observation : ο) : Except (RecordRunError ε) FileRunWriter :=
  if writer.descriptor.kind ≠ kind then .error .WrongRunKind
  else
    match encode observation with
    | .error e => .error (.Codec e)
    | .ok record => (writer.append digest refusal record).mapError .Run

def appendPathObservation (writer : FileRunWriter) (observation : PathObservation) :
    Except (RecordRunError PathObservationCodecError) FileRunWriter :=
  appendEncoded digest refusal .PathObservation encodePathObservation writer observation

def appendIdentityObservation (writer : FileRunWriter) (observation : IdentityObservation) :
    Except (RecordRunError IdentityObservationCodecError) FileRunWriter :=
  appendEncoded digest refusal .IdentityObservation encodeIdentityObservation writer observation

/-- A run of one family: none is opened for no observations. -/
def sealFamilyRun {ο ε : Type} (descriptor : RunDescriptor) (family : RecordRunError ε → BatchSealError)
    (append : FileRunWriter → ο → Except (RecordRunError ε) FileRunWriter) (observations : List ο) :
    Except BatchSealError (List FileSealedRun) :=
  if observations.isEmpty then .ok []
  else do
    let writer ← (FileRunWriter.new refusal [] 0 descriptor runBlockBytes).mapError .Run
    let writer ← (observations.foldlM append writer).mapError family
    let run ← (writer.sealRun digest refusal).mapError .Run
    return [run]

def sealSortedBatch (generation : ScanGeneration) (pathRunId identityRunId : UInt64)
    (paths : List PathObservation) (identities : List IdentityObservation) :
    Except BatchSealError (List FileSealedRun) := do
  let paths := paths.mergeSort fun left right => (RelativePath.cmp left.path right.path).isLE
  let identities := identities.mergeSort fun left right =>
    (compareIdentityObservations left right).isLE
  let pathRuns ← sealFamilyRun digest refusal ⟨generation, pathRunId, .PathObservation⟩
    .PathObservationRun (appendPathObservation digest refusal) paths
  let identityRuns ← sealFamilyRun digest refusal ⟨generation, identityRunId, .IdentityObservation⟩
    .IdentityObservationRun (appendIdentityObservation digest refusal) identities
  return pathRuns ++ identityRuns

end Sealing

/-- `RunError::UnsortedKey`, from wherever it comes. -/
def BatchSealError.isUnsorted : BatchSealError → Prop
  | .PathObservationRun e => e = .Run (.Run .UnsortedKey)
  | .IdentityObservationRun e => e = .Run (.Run .UnsortedKey)
  | .Run e => e = .Run .UnsortedKey

section

variable {digest : List UInt8 → BlockDigest} {refusal : Nat → Option IoErrorKind}

theorem writeReserved_not_unsorted {w : FileRunWriter} {bytes : List UInt8} :
    w.writeReserved refusal bytes ≠ .error (.Run .UnsortedKey) := by
  unfold FileRunWriter.writeReserved
  split
  · simp
  · split <;> simp

theorem flushBlock_not_unsorted {w : FileRunWriter} :
    w.flushBlock digest refusal ≠ .error (.Run .UnsortedKey) := by
  unfold FileRunWriter.flushBlock
  split
  · simp
  split
  · simp
  have hindex : ∀ e, w.indexBlock = .error e → e = .panicked := by
    intro e he
    unfold FileRunWriter.indexBlock at he
    split at he
    · cases he
    · split at he <;> cases he
      rfl
  dsimp only [bind, Except.bind]
  cases h₁ : w.indexBlock with
  | error e => simp [hindex e h₁]
  | ok w₁ =>
    dsimp only
    cases h₂ : w₁.writeReserved refusal (FileRunWriter.blockHeader digest w.blockRecords w.block) with
    | error e =>
      rintro heq
      cases heq
      exact writeReserved_not_unsorted h₂
    | ok w₂ =>
      dsimp only
      cases h₃ : FileRunWriter.writeReserved refusal { w₂ with block := [] } w.block with
      | error e =>
        rintro heq
        cases heq
        exact writeReserved_not_unsorted h₃
      | ok w₃ =>
        dsimp only
        split <;> simp

/-- A key is refused as unsorted only when it is not above the last one. -/
theorem append_unsorted {w : FileRunWriter} {r : FileRecord}
    (h : w.append digest refusal r = .error (.Run .UnsortedKey)) :
    w.hasKey = true ∧ compareBytes r.1 w.lastKey ≠ .gt := by
  have hpush : ∀ v : FileRunWriter, v.pushRecord r ≠ .error (.Run .UnsortedKey) := by
    intro v
    unfold FileRunWriter.pushRecord
    split <;> simp
  by_contra hsorted
  unfold FileRunWriter.append at h
  rw [if_neg hsorted] at h
  split at h
  · cases h
  split at h
  · cases h
  split at h
  · cases h
  split at h
  · cases hflush : w.flushBlock digest refusal with
    | error e =>
      rw [hflush] at h
      cases h
      exact absurd hflush flushBlock_not_unsorted
    | ok v =>
      rw [hflush] at h
      exact absurd h (hpush v)
  · exact absurd h (hpush w)

/-- Appending keeps the kind of the run, so only the key can be refused. -/
theorem appendAll_not_unsorted {ο ε : Type} {kind : RunKind} {encode : ο → Except ε FileRecord}
    {observations : List ο} {w : FileRunWriter}
    (hsorted : observations.Pairwise fun a b => ∀ r s, encode a = .ok r → encode b = .ok s →
      compareBytes s.1 r.1 = .gt)
    (hlast : w.hasKey = true → ∀ o ∈ observations, ∀ r, encode o = .ok r →
      compareBytes r.1 w.lastKey = .gt) :
    observations.foldlM (appendEncoded digest refusal kind encode) w
      ≠ .error (.Run (.Run .UnsortedKey)) := by
  induction observations generalizing w with
  | nil => exact fun h => by cases h
  | cons o observations ih =>
    obtain ⟨hfirst, hrest⟩ := List.pairwise_cons.mp hsorted
    rw [List.foldlM_cons]
    intro h
    cases happend : appendEncoded digest refusal kind encode w o with
    | error e =>
      rw [happend] at h
      cases h
      unfold appendEncoded at happend
      split at happend
      · cases happend
      split at happend
      · cases happend
      rename_i record hrecord
      cases hw : w.append digest refusal record with
      | ok v =>
        rw [hw] at happend
        cases happend
      | error e =>
        rw [hw] at happend
        cases happend
        obtain ⟨hhas, hle⟩ := append_unsorted hw
        exact hle (hlast hhas o List.mem_cons_self record hrecord)
    | ok v =>
      rw [happend] at h
      refine ih hrest ?_ h
      unfold appendEncoded at happend
      split at happend
      · cases happend
      split at happend
      · cases happend
      rename_i record hrecord
      cases hw : w.append digest refusal record with
      | error e =>
        rw [hw] at happend
        cases happend
      | ok v' =>
        rw [hw] at happend
        cases happend
        intro _ p hp r hr
        rw [(append_lastKey hw).2]
        exact hfirst p hp record r hrecord hr

theorem sealFamilyRun_not_unsorted {ο ε : Type} {kind : RunKind} {encode : ο → Except ε FileRecord}
    {descriptor : RunDescriptor} (family : RecordRunError ε → BatchSealError) {observations : List ο}
    (hfamily : ∀ e, (family e).isUnsorted → e = .Run (.Run .UnsortedKey))
    (hsorted : observations.Pairwise fun a b => ∀ r s, encode a = .ok r → encode b = .ok s →
      compareBytes s.1 r.1 = .gt) {e : BatchSealError}
    (h : sealFamilyRun digest refusal descriptor family (appendEncoded digest refusal kind encode)
      observations = .error e) : ¬e.isUnsorted := by
  unfold sealFamilyRun at h
  split at h
  · cases h
  dsimp only [bind, Except.bind] at h
  cases hnew : FileRunWriter.new refusal [] 0 descriptor runBlockBytes with
  | error e' =>
    rw [hnew] at h
    cases h
    rintro (rfl : e' = _)
    unfold FileRunWriter.new encodeHeader at hnew
    rw [if_neg (by decide), if_neg (by simp), if_neg (by decide)] at hnew
    exact writeReserved_not_unsorted hnew
  | ok w =>
    rw [hnew] at h
    dsimp only [Except.mapError] at h
    have hfresh : w.hasKey = false := by
      unfold FileRunWriter.new encodeHeader at hnew
      rw [if_neg (by decide), if_neg (by simp), if_neg (by decide)] at hnew
      unfold FileRunWriter.writeReserved at hnew
      dsimp only at hnew
      split at hnew
      · cases hnew
      split at hnew
      · cases hnew
      cases hnew
      rfl
    cases happend : observations.foldlM (appendEncoded digest refusal kind encode) w with
    | error e' =>
      rw [happend] at h
      cases h
      intro hunsorted
      rw [hfamily e' hunsorted] at happend
      exact appendAll_not_unsorted hsorted (fun h => by rw [hfresh] at h; cases h) happend
    | ok v =>
      rw [happend] at h
      dsimp only at h
      cases hseal : v.sealRun digest refusal with
      | ok run =>
        rw [hseal] at h
        cases h
      | error e' =>
        rw [hseal] at h
        cases h
        rintro (rfl : e' = _)
        unfold FileRunWriter.sealRun at hseal
        dsimp only [bind, Except.bind] at hseal
        cases hflush : v.flushBlock digest refusal with
        | error e' =>
          rw [hflush] at hseal
          cases hseal
          exact flushBlock_not_unsorted hflush
        | ok u =>
          rw [hflush] at hseal
          dsimp only at hseal
          cases hfooter : u.writeReserved refusal (encodeFooter u.totalRecords u.totalBlocks) with
          | error e' =>
            rw [hfooter] at hseal
            cases hseal
            exact writeReserved_not_unsorted hfooter
          | ok t =>
            rw [hfooter] at hseal
            cases hseal

/-- The sorted paths of a batch are encoded under increasing keys. -/
theorem sorted_paths_increase {paths : List PathObservation}
    (hpaths : (paths.map fun o => o.path).Nodup) :
    (paths.mergeSort fun left right => (RelativePath.cmp left.path right.path).isLE).Pairwise
      fun a b => ∀ r s, encodePathObservation a = .ok r → encodePathObservation b = .ok s →
        compareBytes s.1 r.1 = .gt := by
  have hsorted : SortedBy PathObservation.path
      (paths.mergeSort fun left right => (RelativePath.cmp left.path right.path).isLE) := by
    refine SortedBy.mergeSort (fun a b => ?_) hpaths
    rw [← not_lt, ← RelativePath.compares_cmp.gt_iff]
    cases RelativePath.cmp a.path b.path <;> simp
  refine hsorted.imp ?_
  rintro a b hab ⟨k, v⟩ ⟨l, u⟩ hk hl
  have hk := (encodePathObservation_eq_ok.mp hk).1
  have hl := (encodePathObservation_eq_ok.mp hl).1
  show compareBytes l k = .gt
  rw [unix_pathKeyLaws.order _ _ l k hl hk]
  exact (RelativePath.compares_cmp.gt_iff _ _).mpr hab

/-- So are its identities. -/
theorem sorted_identities_increase {identities : List IdentityObservation}
    (hidentities : (identities.map fun o => (o.fileId, o.path)).Nodup) :
    (identities.mergeSort fun left right => (compareIdentityObservations left right).isLE).Pairwise
      fun a b => ∀ r s, encodeIdentityObservation a = .ok r → encodeIdentityObservation b = .ok s →
        compareBytes s.1 r.1 = .gt := by
  have hsorted : SortedBy (fun o => (Fact.identity o).key) (identities.mergeSort
      fun left right => (compareIdentityObservations left right).isLE) := by
    refine SortedBy.mergeSort compareIdentityObservations_isLE ?_
    have hinj : Function.Injective fun key : FileId × RelativePath => FactKey.identity key.1 key.2 :=
      fun a b hab => Prod.ext (FactKey.identity.inj hab).1 (FactKey.identity.inj hab).2
    have hkeys := hidentities.map hinj
    rwa [List.map_map] at hkeys
  refine hsorted.imp ?_
  rintro a b hab ⟨k, v⟩ ⟨l, u⟩ hk hl
  obtain ⟨-, ⟨pk, hpk, rfl⟩, -⟩ := encodeIdentityObservation_eq_ok.mp hk
  obtain ⟨-, ⟨pl, hpl, rfl⟩, -⟩ := encodeIdentityObservation_eq_ok.mp hl
  show compareBytes (b.fileId.encode ++ pl) (a.fileId.encode ++ pk) = .gt
  rw [← (identityOrderAgrees_of_laws unix_pathKeyLaws).order (b.fileId, b.path)
    (a.fileId, a.path) pl pk hpl hpk]
  have hle := compareIdentityObservations_isLE b a
  unfold compareIdentityObservations at hle
  cases hcmp : compareIdentityKeys RelativePath.cmp (b.fileId, b.path) (a.fileId, a.path) with
  | gt => rfl
  | lt => exact absurd hab (not_lt.mpr (hle.mp (by rw [hcmp]; rfl)))
  | eq => exact absurd hab (not_lt.mpr (hle.mp (by rw [hcmp]; rfl)))

/-- A batch without duplicates is appended in the order of its keys. -/
theorem sealSortedBatch_not_unsorted {generation : ScanGeneration} {pathRunId identityRunId : UInt64}
    {paths : List PathObservation} {identities : List IdentityObservation}
    (hpaths : (paths.map fun o => o.path).Nodup)
    (hidentities : (identities.map fun o => (o.fileId, o.path)).Nodup) {e : BatchSealError}
    (h : sealSortedBatch digest refusal generation pathRunId identityRunId paths identities
      = .error e) : ¬e.isUnsorted := by
  unfold sealSortedBatch at h
  rcases bind_eq_error h with hpathRuns | ⟨pathRuns, -, h⟩
  · exact sealFamilyRun_not_unsorted .PathObservationRun (fun _ h => h) (sorted_paths_increase hpaths)
      hpathRuns
  · rcases bind_eq_error h with hidentityRuns | ⟨identityRuns, -, h⟩
    · exact sealFamilyRun_not_unsorted .IdentityObservationRun (fun _ h => h)
        (sorted_identities_increase hidentities) hidentityRuns
    · cases h

end

/-- The comparison of identity observations is the order of their record keys, so that sealing a
batch without duplicates never meets an unsorted key. -/
theorem identity_sort_key :
    IdentityOrderAgrees encodePathKey RelativePath.cmp ∧
    IdentityOrderAgrees encodeWidePathKey WideRelativePath.cmp ∧
    (∀ a b k l v u, encodeIdentityObservation a = .ok (k, v) →
      encodeIdentityObservation b = .ok (l, u) →
      compareIdentityObservations a b = compareBytes k l) ∧
    ∀ digest refusal generation pathRunId identityRunId (paths : List PathObservation)
      (identities : List IdentityObservation) e,
      (paths.map fun o => o.path).Nodup → (identities.map fun o => (o.fileId, o.path)).Nodup →
      sealSortedBatch digest refusal generation pathRunId identityRunId paths identities = .error e →
      ¬e.isUnsorted := by
  have hunix := identityOrderAgrees_of_laws unix_pathKeyLaws
  refine ⟨hunix, identityOrderAgrees_of_laws windows_pathKeyLaws, ?_, ?_⟩
  · intro a b k l v u hk hl
    obtain ⟨-, ⟨pk, hpk, rfl⟩, -⟩ := encodeIdentityObservation_eq_ok.mp hk
    obtain ⟨-, ⟨pl, hpl, rfl⟩, -⟩ := encodeIdentityObservation_eq_ok.mp hl
    exact hunix.order _ _ pk pl hpk hpl
  · intro _ _ _ _ _ _ _ _ hpaths hidentities h
    exact sealSortedBatch_not_unsorted hpaths hidentities h

end Excise
