import Excise.Codec.PathKey
import Excise.Codec.Stored

/-!
# Page record keys

The keys of `page.rs`: a folder's path key, the two zero bytes that no component can begin with, a
tag, and for a child the rest of its path key, in a query run after the inverted metric.
-/

namespace Excise
set_option autoImplicit false

/-- `PAGE_RECORD_NAMESPACE`. -/
def pageRecordNamespace : List UInt8 := [0, 0]

def pageHeaderTag : UInt8 := 0

def pageEntryTag : UInt8 := 1

/-- `QUERY_METRIC_BYTES`. -/
def queryMetricBytes : Nat := 16

def pageHeaderKeyFromEncoded (folderKey : List UInt8) : List UInt8 :=
  folderKey ++ (pageRecordNamespace ++ [pageHeaderTag])

/-- The prefix of the entries and of the ordered query records of a folder. -/
def pageEntryPrefixFromEncoded (folderKey : List UInt8) : List UInt8 :=
  folderKey ++ (pageRecordNamespace ++ [pageEntryTag])

def pageEntryKeyFromEncoded (folderKey componentKey : List UInt8) : List UInt8 :=
  pageEntryPrefixFromEncoded folderKey ++ componentKey

/-- `!represented_bytes` of a `u128`, so that the largest comes first. -/
def invertMetric (representedBytes : Nat) : Nat := 2 ^ 128 - 1 - representedBytes

def pageEntryQueryKeyFromEncoded (folderKey : List UInt8) (representedBytes : Nat)
    (childSuffix : List UInt8) : List UInt8 :=
  pageEntryPrefixFromEncoded folderKey ++
    (beBytes queryMetricBytes (invertMetric representedBytes) ++ childSuffix)

/-- `slice.get(start..)`. -/
def sliceFrom (bytes : List UInt8) (start : Nat) : Option (List UInt8) :=
  if start ≤ bytes.length then some (bytes.drop start) else none

/-- `slice.get(start..stop)`. -/
def sliceRange (bytes : List UInt8) (start stop : Nat) : Option (List UInt8) :=
  if start ≤ stop ∧ stop ≤ bytes.length then some ((bytes.take stop).drop start) else none

/-- How a key builder fails: the path has no key, or its `expect` panics. -/
inductive PageKeyFailure where
  | PathKey (e : PathKeyError)
  | panicked
  deriving DecidableEq, Repr

section Builders

variable {P : Type} (encode : P → Except PathKeyError (List UInt8))

def encodePath (path : P) : Except PageKeyFailure (List UInt8) := (encode path).mapError .PathKey

def pageHeaderKey (folder : P) : Except PageKeyFailure (List UInt8) :=
  (encodePath encode folder).map pageHeaderKeyFromEncoded

def pageEntryPrefix (folder : P) : Except PageKeyFailure (List UInt8) :=
  (encodePath encode folder).map pageEntryPrefixFromEncoded

/-- The folder's key and what the child's key adds to it. -/
def childSuffix (folder child : P) : Except PageKeyFailure (List UInt8 × List UInt8) := do
  let folderKey ← encodePath encode folder
  let childPathKey ← encodePath encode child
  match sliceFrom childPathKey folderKey.length with
  | some suffix => return (folderKey, suffix)
  | none => throw .panicked

/-- `page_entry_key_into`. -/
def pageEntryKey (folder child : P) : Except PageKeyFailure (List UInt8) :=
  (childSuffix encode folder child).map fun keys => pageEntryKeyFromEncoded keys.1 keys.2

/-- `page_entry_query_key_into`. -/
def pageEntryQueryKey (folder child : P) (representedBytes : Nat) :
    Except PageKeyFailure (List UInt8) :=
  (childSuffix encode folder child).map fun keys =>
    pageEntryQueryKeyFromEncoded keys.1 representedBytes keys.2

end Builders

/-- `child_path_key_from_record_with_metric`. -/
def childPathKeyFromRecordWithMetric (recordKey : List UInt8) (parentKeyBytes : Nat)
    (metricOrdered : Bool) : Except PageRecordError (List UInt8) :=
  let namespaceEnd := parentKeyBytes + pageRecordNamespace.length
  let tagEnd := namespaceEnd + 1
  if sliceRange recordKey parentKeyBytes namespaceEnd ≠ some pageRecordNamespace
      ∨ recordKey[namespaceEnd]? ≠ some pageEntryTag then .error .Malformed
  else
    match (sliceFrom recordKey (tagEnd + if metricOrdered then queryMetricBytes else 0)).filter
        fun suffix => !suffix.isEmpty with
    | none => .error .Malformed
    | some suffix =>
      match sliceRange recordKey 0 parentKeyBytes with
      | none => .error .Malformed
      | some parent => .ok (parent ++ suffix)

def childPathKeyFromIndexRecord (recordKey : List UInt8) (parentKeyBytes : Nat) :
    Except PageRecordError (List UInt8) :=
  childPathKeyFromRecordWithMetric recordKey parentKeyBytes false

def childPathKeyFromRecord (recordKey : List UInt8) (parentKeyBytes : Nat) :
    Except PageRecordError (List UInt8) :=
  childPathKeyFromRecordWithMetric recordKey parentKeyBytes true

/-! ## What a key names -/

/-- A record of a page index run or of a child query run. -/
inductive PageRecordName (P : Type) where
  | header (folder : P)
  | entry (folder child : P)
  | query (folder child : P) (representedBytes : Nat)
  deriving DecidableEq

namespace PageRecordName

variable {P : Type}

def folder : PageRecordName P → P
  | header folder => folder
  | entry folder _ => folder
  | query folder _ _ => folder

def isHeader : PageRecordName P → Bool
  | header _ => true
  | _ => false

def isQuery : PageRecordName P → Bool
  | query _ _ _ => true
  | _ => false

/-- A child lies directly in its folder, and the metric is a `u128`. -/
def WellPlaced (isDirectChildOf : P → P → Bool) : PageRecordName P → Prop
  | header _ => True
  | entry folder child => isDirectChildOf child folder = true
  | query folder child represented => isDirectChildOf child folder = true ∧ represented < 2 ^ 128

def key (encode : P → Except PathKeyError (List UInt8)) :
    PageRecordName P → Except PageKeyFailure (List UInt8)
  | header folder => pageHeaderKey encode folder
  | entry folder child => pageEntryKey encode folder child
  | query folder child represented => pageEntryQueryKey encode folder child represented

/-- An entry and an ordered query record of one folder: they are never in the same run. -/
def ApartByRun (r s : PageRecordName P) : Prop :=
  r.folder = s.folder ∧ r.isHeader = false ∧ s.isHeader = false ∧ r.isQuery = !s.isQuery

end PageRecordName

/-- What the page readers rely on, for the paths of one platform. -/
structure PageKeyLaws {P : Type} (encode : P → Except PathKeyError (List UInt8))
    (isDirectChildOf : P → P → Bool) : Prop where
  total : ∀ (r : PageRecordName P), r.WellPlaced isDirectChildOf → r.key encode ≠ .error .panicked
  separated : ∀ (r s : PageRecordName P) k, r.WellPlaced isDirectChildOf →
    s.WellPlaced isDirectChildOf → r.key encode = .ok k → s.key encode = .ok k →
      r = s ∨ r.ApartByRun s
  headerPrefix : ∀ folder h (r : PageRecordName P) k, r.WellPlaced isDirectChildOf →
    pageHeaderKey encode folder = .ok h → r.key encode = .ok k → (h <+: k ↔ r = .header folder)
  entryPrefix : ∀ folder p (r : PageRecordName P) k, r.WellPlaced isDirectChildOf →
    pageEntryPrefix encode folder = .ok p → r.key encode = .ok k →
      (p <+: k ↔ r.folder = folder ∧ r.isHeader = false)
  indexInverse : ∀ folder child folderKey childKey k, isDirectChildOf child folder = true →
    encode folder = .ok folderKey → encode child = .ok childKey →
      pageEntryKey encode folder child = .ok k →
        childPathKeyFromIndexRecord k folderKey.length = .ok childKey
  queryInverse : ∀ folder child represented folderKey childKey k,
    isDirectChildOf child folder = true → represented < 2 ^ 128 →
      encode folder = .ok folderKey → encode child = .ok childKey →
        pageEntryQueryKey encode folder child represented = .ok k →
          childPathKeyFromRecord k folderKey.length = .ok childKey

/-! ## Taking a key apart -/

theorem sliceFrom_append (xs ys : List UInt8) : sliceFrom (xs ++ ys) xs.length = some ys := by
  unfold sliceFrom
  rw [if_pos (by rw [List.length_append]; omega), List.drop_left]

theorem sliceFrom_eq_some {bytes suffix : List UInt8} {start : Nat}
    (h : sliceFrom bytes start = some suffix) : start ≤ bytes.length ∧ bytes.drop start = suffix := by
  unfold sliceFrom at h
  split at h
  · rename_i hstart
    exact ⟨hstart, Option.some.inj h⟩
  · cases h

theorem sliceRange_append (xs ys zs : List UInt8) :
    sliceRange (xs ++ (ys ++ zs)) xs.length (xs.length + ys.length) = some ys := by
  unfold sliceRange
  rw [if_pos (by simp only [List.length_append]; omega), ← List.append_assoc,
    List.take_left' (List.length_append), List.drop_left]

theorem sliceRange_eq_some {bytes part : List UInt8} {start stop : Nat}
    (h : sliceRange bytes start stop = some part) :
    stop ≤ bytes.length ∧ bytes.drop start = part ++ bytes.drop stop := by
  unfold sliceRange at h
  split at h
  · rename_i hbounds
    refine ⟨hbounds.2, ?_⟩
    rw [← Option.some.inj h]
    conv_lhs => rw [← List.take_append_drop stop bytes]
    rw [List.drop_append_of_le_length (by rw [List.length_take]; omega)]
  · cases h

/-- A record key is taken apart at the namespace, behind as many bytes as the folder's key has. -/
theorem childPathKey_of_shape {folderKey metric suffix : List UInt8} {metricOrdered : Bool}
    (hmetric : metric.length = if metricOrdered then queryMetricBytes else 0) (hsuffix : suffix ≠ []) :
    childPathKeyFromRecordWithMetric
      (folderKey ++ (pageRecordNamespace ++ pageEntryTag :: (metric ++ suffix))) folderKey.length
      metricOrdered = .ok (folderKey ++ suffix) := by
  unfold childPathKeyFromRecordWithMetric
  have hnamespace := sliceRange_append folderKey pageRecordNamespace
    (pageEntryTag :: (metric ++ suffix))
  have hwhole : folderKey ++ (pageRecordNamespace ++ pageEntryTag :: (metric ++ suffix))
      = (folderKey ++ pageRecordNamespace ++ pageEntryTag :: metric) ++ suffix := by simp
  have htag : (folderKey ++ (pageRecordNamespace ++ pageEntryTag :: (metric ++ suffix)))[
      folderKey.length + pageRecordNamespace.length]? = some pageEntryTag := by
    rw [← List.append_assoc, ← List.length_append, List.getElem?_append_right (le_refl _)]
    simp
  have hparent : sliceRange (folderKey ++ (pageRecordNamespace ++ pageEntryTag :: (metric ++ suffix)))
      0 folderKey.length = some folderKey := by
    have h := sliceRange_append [] folderKey (pageRecordNamespace ++ pageEntryTag :: (metric ++ suffix))
    simpa only [List.nil_append, List.length_nil, Nat.zero_add] using h
  have hsuffixAt := sliceFrom_append (folderKey ++ pageRecordNamespace ++ pageEntryTag :: metric) suffix
  rw [← hwhole, List.length_append, List.length_append, List.length_cons, hmetric] at hsuffixAt
  have hnonempty : suffix.isEmpty = false := by
    rw [List.isEmpty_eq_false_iff]
    exact hsuffix
  dsimp only
  rw [hnamespace, htag, hparent]
  simp only [ne_eq, not_true, or_self, if_false]
  rw [show folderKey.length + pageRecordNamespace.length + 1 +
      (if metricOrdered = true then queryMetricBytes else 0) = folderKey.length +
        pageRecordNamespace.length + ((if metricOrdered = true then queryMetricBytes else 0) + 1) by
      omega, hsuffixAt]
  rw [Option.filter_some, hnonempty]
  rfl

theorem childPathKey_eq_ok {recordKey out : List UInt8} {parentKeyBytes : Nat} {metricOrdered : Bool} :
    childPathKeyFromRecordWithMetric recordKey parentKeyBytes metricOrdered = .ok out ↔
      ∃ folderKey metric suffix, folderKey.length = parentKeyBytes ∧
        metric.length = (if metricOrdered then queryMetricBytes else 0) ∧ suffix ≠ [] ∧
        recordKey = folderKey ++ (pageRecordNamespace ++ pageEntryTag :: (metric ++ suffix)) ∧
        out = folderKey ++ suffix := by
  constructor
  · intro h
    unfold childPathKeyFromRecordWithMetric at h
    dsimp only at h
    split at h
    · cases h
    rename_i hmarks
    obtain ⟨hnamespace, htag⟩ := not_or.mp hmarks
    rw [not_not] at hnamespace htag
    split at h
    · cases h
    rename_i suffix hsuffix
    obtain ⟨hfrom, hnonempty⟩ := Option.filter_eq_some_iff.mp hsuffix
    split at h
    · cases h
    rename_i parent hparent
    cases h
    obtain ⟨hparentBound, hparentEq⟩ := sliceRange_eq_some hparent
    obtain ⟨hnamespaceBound, hnamespaceEq⟩ := sliceRange_eq_some hnamespace
    obtain ⟨hfromBound, hdrop⟩ := sliceFrom_eq_some hfrom
    rw [List.drop_zero] at hparentEq
    obtain ⟨htagBound, htagEq⟩ := List.getElem?_eq_some_iff.mp htag
    have hparentLength : parent.length = parentKeyBytes := by
      have := congrArg List.length hparentEq
      rw [List.length_append, List.length_drop] at this
      omega
    refine ⟨parent, (recordKey.drop (parentKeyBytes + pageRecordNamespace.length + 1)).take
      (if metricOrdered then queryMetricBytes else 0), suffix, hparentLength, ?_, ?_, ?_, rfl⟩
    · rw [List.length_take, List.length_drop]
      omega
    · intro hnil
      rw [hnil] at hnonempty
      cases hnonempty
    · have hrest := List.take_append_drop (if metricOrdered then queryMetricBytes else 0)
        (recordKey.drop (parentKeyBytes + pageRecordNamespace.length + 1))
      rw [List.drop_drop, hdrop] at hrest
      rw [hrest, ← htagEq, ← List.drop_eq_getElem_cons htagBound, ← hnamespaceEq]
      exact hparentEq
  · rintro ⟨folderKey, metric, suffix, rfl, hmetric, hsuffix, rfl, rfl⟩
    exact childPathKey_of_shape hmetric hsuffix

theorem invertMetric_lt (represented : Nat) : invertMetric represented < 256 ^ queryMetricBytes := by
  unfold invertMetric queryMetricBytes
  omega

theorem invertMetric_inj {m n : Nat} (hm : m < 2 ^ 128) (hn : n < 2 ^ 128)
    (h : invertMetric m = invertMetric n) : m = n := by
  unfold invertMetric at h
  omega

theorem childPathKeyFromIndexRecord_eq_ok {recordKey out : List UInt8} {parentKeyBytes : Nat} :
    childPathKeyFromIndexRecord recordKey parentKeyBytes = .ok out ↔
      ∃ folderKey suffix, folderKey.length = parentKeyBytes ∧ suffix ≠ [] ∧
        recordKey = pageEntryKeyFromEncoded folderKey suffix ∧ out = folderKey ++ suffix := by
  unfold childPathKeyFromIndexRecord
  rw [childPathKey_eq_ok]
  simp only [pageEntryKeyFromEncoded, pageEntryPrefixFromEncoded, List.append_assoc,
    List.singleton_append]
  constructor
  · rintro ⟨folderKey, metric, suffix, hlength, hmetric, hsuffix, hkey, hout⟩
    obtain rfl := List.eq_nil_of_length_eq_zero hmetric
    exact ⟨folderKey, suffix, hlength, hsuffix, hkey, hout⟩
  · rintro ⟨folderKey, suffix, hlength, hsuffix, hkey, hout⟩
    exact ⟨folderKey, [], suffix, hlength, rfl, hsuffix, hkey, hout⟩

theorem childPathKeyFromRecord_eq_ok {recordKey out : List UInt8} {parentKeyBytes : Nat} :
    childPathKeyFromRecord recordKey parentKeyBytes = .ok out ↔
      ∃ folderKey represented suffix, folderKey.length = parentKeyBytes ∧
        represented < 2 ^ 128 ∧ suffix ≠ [] ∧
        recordKey = pageEntryQueryKeyFromEncoded folderKey represented suffix ∧
        out = folderKey ++ suffix := by
  unfold childPathKeyFromRecord
  rw [childPathKey_eq_ok]
  simp only [pageEntryQueryKeyFromEncoded, pageEntryPrefixFromEncoded, List.append_assoc,
    List.singleton_append]
  constructor
  · rintro ⟨folderKey, metric, suffix, hlength, hmetric, hsuffix, hkey, hout⟩
    have hmetric : metric.length = queryMetricBytes := hmetric
    have hlt := beNat_lt metric
    rw [hmetric] at hlt
    have hinvert : invertMetric (invertMetric (beNat metric)) = beNat metric := by
      unfold invertMetric
      unfold queryMetricBytes at hlt
      omega
    have hbytes : beBytes queryMetricBytes (invertMetric (invertMetric (beNat metric))) = metric := by
      rw [hinvert, ← hmetric, beBytes_beNat]
    refine ⟨folderKey, invertMetric (beNat metric), suffix, hlength, ?_, hsuffix, ?_, hout⟩
    · exact invertMetric_lt _
    · rw [hbytes]
      exact hkey
  · rintro ⟨folderKey, represented, suffix, hlength, -, hsuffix, hkey, hout⟩
    exact ⟨folderKey, _, suffix, hlength, beBytes_length _ _, hsuffix, hkey, hout⟩

/-! ## The laws from the code of the components -/

section Code

variable {P C : Type} {components : P → List C} {enc : C → List UInt8} {dom : C → Prop}
  {encode : P → Except PathKeyError (List UInt8)} {isDirectChildOf : P → P → Bool}

theorem tags_ne : pageHeaderTag ≠ pageEntryTag := by decide

/-- What follows the namespace in the key of a record. -/
def PageRecordName.Tail (components : P → List C) (enc : C → List UInt8) (dom : C → Prop) :
    PageRecordName P → List UInt8 → Prop
  | .header _, tail => tail = [pageHeaderTag]
  | .entry folder child, tail =>
    ∃ x, dom x ∧ components child = components folder ++ [x] ∧ tail = pageEntryTag :: enc x
  | .query folder child represented, tail =>
    ∃ x, dom x ∧ components child = components folder ++ [x] ∧
      tail = pageEntryTag :: (beBytes queryMetricBytes (invertMetric represented) ++ enc x)

theorem encodePath_eq_ok {path : P} {k : List UInt8} :
    encodePath encode path = .ok k ↔ encode path = .ok k := by
  unfold encodePath
  cases encode path <;> simp [Except.mapError]

/-- A direct child's key is its folder's key and the code of its last component. -/
theorem childSuffix_eq (hencode : ∀ p k, encode p = .ok k ↔
      (∀ c ∈ components p, dom c) ∧ k = (components p).flatMap enc) {folder child : P} {x : C}
    (hx : components child = components folder ++ [x]) :
    childSuffix encode folder child ≠ .error .panicked ∧
    ∀ folderKey suffix, childSuffix encode folder child = .ok (folderKey, suffix) →
      encode folder = .ok folderKey ∧ dom x ∧ suffix = enc x := by
  unfold childSuffix encodePath
  cases hfolder : encode folder with
  | error e => simp [Except.mapError, bind, Except.bind]
  | ok fk =>
    cases hchild : encode child with
    | error e => simp [Except.mapError, bind, Except.bind]
    | ok ck =>
      obtain ⟨-, rfl⟩ := (hencode folder fk).mp hfolder
      obtain ⟨hdom, rfl⟩ := (hencode child ck).mp hchild
      rw [hx] at hdom ⊢
      have hlast : dom x := hdom x (by simp)
      simp only [Except.mapError, bind, Except.bind, List.flatMap_append, List.flatMap_singleton,
        sliceFrom_append, pure, Except.pure]
      refine ⟨by simp, ?_⟩
      intro folderKey suffix heq
      cases heq
      exact ⟨rfl, hlast, rfl⟩

theorem childKey_eq (hencode : ∀ p k, encode p = .ok k ↔
      (∀ c ∈ components p, dom c) ∧ k = (components p).flatMap enc) {folder child : P} {x : C}
    {folderKey childKey : List UInt8} (hx : components child = components folder ++ [x])
    (hfolder : encode folder = .ok folderKey) (hchildKey : encode child = .ok childKey) :
    childKey = folderKey ++ enc x := by
  rw [((hencode child childKey).mp hchildKey).2, ((hencode folder folderKey).mp hfolder).2, hx,
    List.flatMap_append, List.flatMap_singleton]

theorem key_ne_panicked (hencode : ∀ p k, encode p = .ok k ↔
      (∀ c ∈ components p, dom c) ∧ k = (components p).flatMap enc)
    (hchild : ∀ p f, isDirectChildOf p f = true ↔ ∃ x, components p = components f ++ [x])
    {r : PageRecordName P} (hr : r.WellPlaced isDirectChildOf) :
    r.key encode ≠ .error .panicked := by
  have hmap : ∀ {α β : Type} {f : α → β} {v : Except PageKeyFailure α},
      v ≠ .error .panicked → v.map f ≠ .error .panicked := by
    intro α β f v hv
    cases v with
    | error e => exact fun h => hv (by cases h; rfl)
    | ok a => simp [Except.map]
  cases r with
  | header folder =>
    refine hmap ?_
    unfold encodePath
    cases encode folder <;> simp [Except.mapError]
  | entry folder child =>
    obtain ⟨x, hx⟩ := (hchild child folder).mp hr
    exact hmap (childSuffix_eq hencode hx).1
  | query folder child represented =>
    obtain ⟨x, hx⟩ := (hchild child folder).mp hr.1
    exact hmap (childSuffix_eq hencode hx).1

/-- Every key is the folder's key, the namespace and a tail that names the record. -/
theorem key_shape (hencode : ∀ p k, encode p = .ok k ↔
      (∀ c ∈ components p, dom c) ∧ k = (components p).flatMap enc)
    (hchild : ∀ p f, isDirectChildOf p f = true ↔ ∃ x, components p = components f ++ [x])
    {r : PageRecordName P} {k : List UInt8} (hr : r.WellPlaced isDirectChildOf)
    (hk : r.key encode = .ok k) :
    ∃ folderKey tail, encode r.folder = .ok folderKey ∧ r.Tail components enc dom tail ∧
      k = folderKey ++ (pageRecordNamespace ++ tail) := by
  cases r with
  | header folder =>
    obtain ⟨folderKey, hfolder, rfl⟩ := map_eq_ok hk
    exact ⟨folderKey, _, encodePath_eq_ok.mp hfolder, rfl, rfl⟩
  | entry folder child =>
    obtain ⟨x, hx⟩ := (hchild child folder).mp hr
    obtain ⟨⟨folderKey, suffix⟩, hkeys, rfl⟩ := map_eq_ok hk
    obtain ⟨hfolder, hdom, rfl⟩ := (childSuffix_eq hencode hx).2 folderKey suffix hkeys
    refine ⟨folderKey, _, hfolder, ⟨x, hdom, hx, rfl⟩, ?_⟩
    simp only [pageEntryKeyFromEncoded, pageEntryPrefixFromEncoded, List.append_assoc,
      List.singleton_append]
  | query folder child represented =>
    obtain ⟨x, hx⟩ := (hchild child folder).mp hr.1
    obtain ⟨⟨folderKey, suffix⟩, hkeys, rfl⟩ := map_eq_ok hk
    obtain ⟨hfolder, hdom, rfl⟩ := (childSuffix_eq hencode hx).2 folderKey suffix hkeys
    refine ⟨folderKey, _, hfolder, ⟨x, hdom, hx, rfl⟩, ?_⟩
    simp only [pageEntryQueryKeyFromEncoded, pageEntryPrefixFromEncoded, List.append_assoc,
      List.singleton_append]

/-- The tail of a record of a folder names the record within its run. -/
theorem tail_inj [LinearOrder C] (hcode : OrderedCode enc dom)
    (hinj : ∀ p q, components p = components q → p = q) {r s : PageRecordName P}
    {tail : List UInt8} (hfolder : r.folder = s.folder) (hr : r.WellPlaced isDirectChildOf)
    (hs : s.WellPlaced isDirectChildOf) (hrt : r.Tail components enc dom tail)
    (hst : s.Tail components enc dom tail) : r = s ∨ r.ApartByRun s := by
  have hapart {t : List UInt8} (h : [pageHeaderTag] = pageEntryTag :: t) : False :=
    tags_ne (List.cons.inj h).1
  have hlast {f c d : P} {x y : C} (hxy : x = y) (hc : components c = components f ++ [x])
      (hd : components d = components f ++ [y]) : c = d := hinj c d (by rw [hc, hd, hxy])
  cases r with
  | header f =>
    cases s with
    | header g => exact Or.inl (congrArg PageRecordName.header hfolder)
    | entry g d =>
      obtain ⟨y, -, -, rfl⟩ := hst
      exact (hapart hrt.symm).elim
    | query g d n =>
      obtain ⟨y, -, -, rfl⟩ := hst
      exact (hapart hrt.symm).elim
  | entry f c =>
    obtain ⟨x, hx, hc, rfl⟩ := hrt
    cases s with
    | header g => exact (hapart hst.symm).elim
    | entry g d =>
      obtain rfl : f = g := hfolder
      obtain ⟨y, hy, hd, htail⟩ := hst
      have hcodes : enc x = enc y := (List.cons.inj htail).2
      have hxy : x = y := hcode.prefixFree hx hy (hcodes ▸ List.prefix_refl _)
      exact Or.inl (by rw [hlast hxy hc hd])
    | query g d n => exact Or.inr ⟨hfolder, rfl, rfl, rfl⟩
  | query f c m =>
    obtain ⟨x, hx, hc, rfl⟩ := hrt
    cases s with
    | header g => exact (hapart hst.symm).elim
    | entry g d => exact Or.inr ⟨hfolder, rfl, rfl, rfl⟩
    | query g d n =>
      obtain rfl : f = g := hfolder
      obtain ⟨y, hy, hd, htail⟩ := hst
      obtain ⟨hmetric, hcodes⟩ := List.append_inj (List.cons.inj htail).2
        (by rw [beBytes_length, beBytes_length])
      have hmn : m = n := invertMetric_inj hr.2 hs.2
        (beBytes_inj (invertMetric_lt m) (invertMetric_lt n) hmetric)
      have hxy : x = y := hcode.prefixFree hx hy (hcodes ▸ List.prefix_refl _)
      exact Or.inl (by rw [hlast hxy hc hd, hmn])

theorem tail_head {r : PageRecordName P} {tail : List UInt8} (h : r.Tail components enc dom tail) :
    ∃ rest, tail = (if r.isHeader then pageHeaderTag else pageEntryTag) :: rest := by
  cases r with
  | header f => exact ⟨[], h⟩
  | entry f c =>
    obtain ⟨x, -, -, rfl⟩ := h
    exact ⟨_, rfl⟩
  | query f c n =>
    obtain ⟨x, -, -, rfl⟩ := h
    exact ⟨_, rfl⟩

theorem pageKeyLaws_of_code [LinearOrder C] (hcode : OrderedCode enc dom)
    (hnamespace : ∀ x, dom x → ∀ s t, enc x ++ s ≠ pageRecordNamespace ++ t)
    (hinj : ∀ p q, components p = components q → p = q)
    (hencode : ∀ p k, encode p = .ok k ↔
      (∀ c ∈ components p, dom c) ∧ k = (components p).flatMap enc)
    (hchild : ∀ p f, isDirectChildOf p f = true ↔ ∃ x, components p = components f ++ [x]) :
    PageKeyLaws encode isDirectChildOf := by
  -- two folder keys with the namespace behind them never run into each other
  have hfolders : ∀ {f g : P} {fk gk s t : List UInt8}, encode f = .ok fk → encode g = .ok gk →
      (fk ++ (pageRecordNamespace ++ s) <+: gk ++ (pageRecordNamespace ++ t) ↔ f = g ∧ s <+: t) := by
    intro f g fk gk s t hf hg
    obtain ⟨hfdom, rfl⟩ := (hencode f fk).mp hf
    obtain ⟨hgdom, rfl⟩ := (hencode g gk).mp hg
    rw [hcode.flatMap_mark_prefix_iff hnamespace hfdom hgdom]
    exact and_congr_left fun _ => ⟨hinj f g, congrArg components⟩
  refine ⟨fun r hr => key_ne_panicked hencode hchild hr, ?_, ?_, ?_, ?_, ?_⟩
  · intro r s k hr hs hrk hsk
    obtain ⟨fk, t, hf, hrt, rfl⟩ := key_shape hencode hchild hr hrk
    obtain ⟨gk, u, hg, hst, heq⟩ := key_shape hencode hchild hs hsk
    have hstarts : fk ++ (pageRecordNamespace ++ t) <+: gk ++ (pageRecordNamespace ++ u) := by
      rw [heq]
    obtain ⟨hfolder, -⟩ := (hfolders hf hg).mp hstarts
    have hkeys : fk = gk := by
      rw [hfolder] at hf
      exact Except.ok.inj (hf.symm.trans hg)
    rw [hkeys] at heq
    have htail : t = u := List.append_cancel_left (List.append_cancel_left heq)
    exact tail_inj hcode hinj hfolder hr hs hrt (htail ▸ hst)
  · intro f h r k hr hh hk
    obtain ⟨fk, hf, rfl⟩ := map_eq_ok hh
    obtain ⟨gk, t, hg, hrt, rfl⟩ := key_shape hencode hchild hr hk
    obtain ⟨rest, hhead⟩ := tail_head hrt
    refine Iff.trans (hfolders (encodePath_eq_ok.mp hf) hg) ?_
    rw [hhead, List.cons_prefix_cons]
    cases r with
    | header g =>
      rw [PageRecordName.header.injEq]
      exact ⟨fun h => h.1.symm, fun h => ⟨h.symm, rfl, List.nil_prefix⟩⟩
    | entry g c => exact iff_of_false (fun h => tags_ne h.2.1) (by simp)
    | query g c n => exact iff_of_false (fun h => tags_ne h.2.1) (by simp)
  · intro f p r k hr hp hk
    obtain ⟨fk, hf, rfl⟩ := map_eq_ok hp
    obtain ⟨gk, t, hg, hrt, rfl⟩ := key_shape hencode hchild hr hk
    obtain ⟨rest, hhead⟩ := tail_head hrt
    refine Iff.trans (hfolders (encodePath_eq_ok.mp hf) hg) ?_
    rw [hhead, List.cons_prefix_cons, and_iff_left List.nil_prefix, @eq_comm _ f]
    refine and_congr_right fun _ => ?_
    cases r with
    | header g => exact iff_of_false tags_ne.symm (by simp [PageRecordName.isHeader])
    | entry g c => exact iff_of_true rfl rfl
    | query g c n => exact iff_of_true rfl rfl
  · intro f c fk ck k hc hf hck hk
    obtain ⟨gk, t, hg, ⟨x, hx, hxc, rfl⟩, rfl⟩ :=
      key_shape (r := .entry f c) hencode hchild hc hk
    obtain rfl : fk = gk := Except.ok.inj (hf.symm.trans hg)
    rw [childKey_eq hencode hxc hf hck]
    exact @childPathKey_of_shape fk [] (enc x) false rfl (hcode.nonempty hx)
  · intro f c n fk ck k hc hn hf hck hk
    obtain ⟨gk, t, hg, ⟨x, hx, hxc, rfl⟩, rfl⟩ :=
      key_shape (r := .query f c n) hencode hchild ⟨hc, hn⟩ hk
    obtain rfl : fk = gk := Except.ok.inj (hf.symm.trans hg)
    rw [childKey_eq hencode hxc hf hck]
    exact childPathKey_of_shape (beBytes_length _ _) (hcode.nonempty hx)

end Code

/-! ## The two platforms -/

/-- A component begins with a byte that is not zero. -/
theorem component_ne_namespace (c : Component) (hc : c.nulFree) (s t : List UInt8) :
    c.key ++ s ≠ pageRecordNamespace ++ t := by
  intro heq
  obtain ⟨b, rest, hb⟩ := List.exists_cons_of_ne_nil c.valid.1
  have hnul : (0 : UInt8) ∉ c.bytes := hc
  have hkey : c.key = c.bytes ++ [0] := rfl
  rw [hkey, hb, List.cons_append, List.cons_append] at heq
  rw [hb, (List.cons.inj heq).1] at hnul
  exact hnul List.mem_cons_self

theorem unix_pageKeyLaws : PageKeyLaws encodePathKey RelativePath.isDirectChildOf :=
  pageKeyLaws_of_code component_code component_ne_namespace
    (fun _ _ h => RelativePath.ext_components h) encodePathKey_eq_ok
    fun _ _ => RelativePath.isDirectChildOf_iff

namespace WideRelativePath

def depth (p : WideRelativePath) : Nat := p.components.length

def isDirectChildOf (p parent : WideRelativePath) : Bool :=
  p.depth == parent.depth + 1 && p.startsWith parent

theorem isDirectChildOf_iff (p parent : WideRelativePath) :
    p.isDirectChildOf parent = true ↔ ∃ c, p.components = parent.components ++ [c] := by
  unfold isDirectChildOf depth
  rw [Bool.and_eq_true, beq_iff_eq, wide_startsWith_iff]
  constructor
  · rintro ⟨hlength, tail, htail⟩
    rw [← htail, List.length_append] at hlength
    obtain ⟨c, rfl⟩ := List.length_eq_one_iff.mp (show tail.length = 1 by omega)
    exact ⟨c, htail.symm⟩
  · rintro ⟨c, hc⟩
    rw [hc]
    exact ⟨by simp, List.prefix_append _ _⟩

end WideRelativePath

/-- A component begins with a code unit that is not zero. -/
theorem wideComponent_ne_namespace (c : WideComponent) (hc : c.nulFree) (s t : List UInt8) :
    c.key ++ s ≠ pageRecordNamespace ++ t := by
  intro heq
  obtain ⟨u, rest, hu⟩ := List.exists_cons_of_ne_nil c.valid.1
  have hnul : (0 : UInt16) ∉ c.units := hc
  have hkey : c.key = (c.units ++ [0]).flatMap beUnit := rfl
  rw [hkey, hu, List.cons_append, List.flatMap_cons, List.append_assoc] at heq
  have hzero : beUnit u = beUnit 0 := List.append_inj_left heq rfl
  have hu0 : u = 0 := unit_code.prefixFree trivial trivial (hzero ▸ List.prefix_refl _)
  rw [hu, hu0] at hnul
  exact hnul List.mem_cons_self

theorem windows_pageKeyLaws : PageKeyLaws encodeWidePathKey WideRelativePath.isDirectChildOf :=
  pageKeyLaws_of_code wideComponent_code wideComponent_ne_namespace
    (fun p q h => by cases p; cases q; cases h; rfl) encodeWidePathKey_eq_ok
    WideRelativePath.isDirectChildOf_iff

/-- Within one run the keys name the records, and a folder's prefix is that of its own children. -/
theorem page_record_keys :
    PageKeyLaws encodePathKey RelativePath.isDirectChildOf ∧
    PageKeyLaws encodeWidePathKey WideRelativePath.isDirectChildOf ∧
    (∀ recordKey parentKeyBytes out, childPathKeyFromIndexRecord recordKey parentKeyBytes = .ok out ↔
      ∃ folderKey suffix, folderKey.length = parentKeyBytes ∧ suffix ≠ [] ∧
        recordKey = pageEntryKeyFromEncoded folderKey suffix ∧ out = folderKey ++ suffix) ∧
    ∀ recordKey parentKeyBytes out, childPathKeyFromRecord recordKey parentKeyBytes = .ok out ↔
      ∃ folderKey represented suffix, folderKey.length = parentKeyBytes ∧
        represented < 2 ^ 128 ∧ suffix ≠ [] ∧
        recordKey = pageEntryQueryKeyFromEncoded folderKey represented suffix ∧
        out = folderKey ++ suffix :=
  ⟨unix_pageKeyLaws, windows_pageKeyLaws, fun _ _ _ => childPathKeyFromIndexRecord_eq_ok,
    fun _ _ _ => childPathKeyFromRecord_eq_ok⟩

/-- A child named by sixteen `FF` bytes and "b". -/
def paddedChild : RelativePath := ⟨[⟨List.replicate 16 0xFF ++ [0x62], by decide⟩]⟩

def plainChild : RelativePath := ⟨[⟨[0x62], valid_b⟩]⟩

/-- The entry of one child and the ordered query record of another can have one key. -/
theorem entry_and_query_share_key :
    ∃ (r s : PageRecordName RelativePath) (k : List UInt8),
      r.WellPlaced RelativePath.isDirectChildOf ∧ s.WellPlaced RelativePath.isDirectChildOf ∧
      r = .entry RelativePath.root paddedChild ∧ s = .query RelativePath.root plainChild 0 ∧
      paddedChild ≠ plainChild ∧ r.key encodePathKey = .ok k ∧ s.key encodePathKey = .ok k := by
  refine ⟨.entry RelativePath.root paddedChild, .query RelativePath.root plainChild 0,
    [0, 0, 1] ++ (List.replicate 16 0xFF ++ [0x62, 0]), rfl, ⟨rfl, by decide⟩, rfl, rfl,
    ?_, rfl, rfl⟩
  intro h
  have hbytes := congrArg (fun p => p.components.map fun c => c.bytes.length) h
  exact absurd hbytes (by decide)

end Excise
