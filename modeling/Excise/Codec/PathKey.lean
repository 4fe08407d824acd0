import Excise.Lib.PrefixCode
import Excise.Lib.Folds
import Excise.Path

/-!
# Path keys

`path_key.rs`: every component ended by a NUL unit. On Unix a unit is a byte, on Windows it is a
UTF-16 code unit in big-endian bytes. Both are ordered prefix codes of the components.
-/

namespace Excise
set_option autoImplicit false

inductive PathKeyError where
  | NulComponent
  | Malformed
  | WrongPlatform
  deriving DecidableEq, Repr

inductive RelativePathError where
  | NotRelative
  deriving DecidableEq, Repr

/-- The order of `u8`. -/
def compareByte (a b : UInt8) : Ordering := compare a.toNat b.toNat

theorem compares_byte : Compares compareByte where
  lt_iff _ _ := Nat.compare_eq_lt
  eq_iff _ _ := Nat.compare_eq_eq.trans UInt8.toNat_inj

/-- The order of `[u8]`, which sorts run records. -/
def compareBytes : List UInt8 → List UInt8 → Ordering := List.compareLex compareByte

theorem compares_bytes : Compares compareBytes := compares_byte.compareLex

theorem compareBytes_gt {x y : List UInt8} : compareBytes x y = .gt ↔ y < x :=
  compares_bytes.gt_iff x y

/-! ## Unix -/

namespace Component

def ofBytes? (c : OsString) : Option Component :=
  if h : ValidComponent c then some ⟨c, h⟩ else none

theorem ofBytes?_eq_some {c : OsString} {d : Component} : ofBytes? c = some d ↔ d.bytes = c := by
  unfold ofBytes?
  split
  · constructor
    · intro h
      rw [← Option.some.inj h]
    · intro h
      rw [Option.some.injEq]
      exact component_ext h.symm
  · rename_i hinvalid
    refine iff_of_false (by simp) ?_
    rintro rfl
    exact hinvalid d.valid

end Component

/-- `compare_native_components`. -/
def compareNativeComponents (left right : OsString) : Ordering := compareBytes left right

theorem compares_component :
    Compares fun a b : Component => compareNativeComponents a.bytes b.bytes where
  lt_iff a b := compares_byte.compareLex.lt_iff a.bytes b.bytes
  eq_iff a b := (compares_byte.compareLex.eq_iff a.bytes b.bytes).trans
    ⟨component_ext, fun h => congrArg Component.bytes h⟩

namespace RelativePath

def fromComponents (components : List OsString) : Except RelativePathError RelativePath :=
  match components.mapM Component.ofBytes? with
  | some components => .ok ⟨components⟩
  | none => .error .NotRelative

/-- `impl Ord for RelativePath`. -/
def cmp (p q : RelativePath) : Ordering :=
  List.compareLex (fun a b => compareNativeComponents a.bytes b.bytes) p.components q.components

theorem compares_cmp : Compares cmp where
  lt_iff p q := compares_component.compareLex.lt_iff p.components q.components
  eq_iff p q := (compares_component.compareLex.eq_iff p.components q.components).trans
    ⟨ext_components, fun h => congrArg components h⟩

end RelativePath

def appendPathComponentKey (component : OsString) (encoded : List UInt8) :
    Except PathKeyError (List UInt8) :=
  if component.contains 0 then .error .NulComponent else .ok (encoded ++ (component ++ [0]))

def appendPathKey (path : RelativePath) (encoded : List UInt8) : Except PathKeyError (List UInt8) :=
  path.components.foldlM (fun encoded c => appendPathComponentKey c.bytes encoded) encoded

def encodePathKey (path : RelativePath) : Except PathKeyError (List UInt8) := appendPathKey path []

/-- The loop of `decode_path_key`: a component reaches to the next NUL byte. -/
def splitComponents (remaining : List UInt8) : Except PathKeyError (List OsString) :=
  match remaining with
  | [] => .ok []
  | byte :: rest =>
    match (byte :: rest).findIdx? (· == 0) with
    | none => .error .Malformed
    | some length =>
      if length = 0 then .error .Malformed
      else
        (splitComponents ((byte :: rest).drop (length + 1))).map ((byte :: rest).take length :: ·)
termination_by remaining.length

def decodePathKey (encoded : List UInt8) : Except PathKeyError RelativePath :=
  match splitComponents encoded with
  | .error e => .error e
  | .ok components =>
    match RelativePath.fromComponents components with
    | .error _ => .error .Malformed
    | .ok path => .ok path

/-! ## The laws of a path key codec -/

/-- What the sorted runs rely on, for the paths of one platform. -/
structure PathKeyLaws {P : Type} (encode : P → Except PathKeyError (List UInt8))
    (decode : List UInt8 → Except PathKeyError P) (cmp : P → P → Ordering)
    (startsWith : P → P → Bool) : Prop where
  roundTrip : ∀ p k, encode p = .ok k → decode k = .ok p
  canonical : ∀ k p, decode k = .ok p → encode p = .ok k
  order : ∀ p q k l, encode p = .ok k → encode q = .ok l → compareBytes k l = cmp p q
  ancestor : ∀ p q k l, encode p = .ok k → encode q = .ok l →
    (k <+: l ↔ startsWith q p = true)
  contiguous : ∀ p q r k l m, encode p = .ok k → encode q = .ok l → encode r = .ok m →
    compareBytes k l ≠ .gt → compareBytes l m ≠ .gt → startsWith r p = true →
      startsWith q p = true

/-- The keys of a platform are the concatenated codes of the components of its paths. -/
theorem pathKeyLaws_of_code {P C : Type} [LinearOrder C] {components : P → List C}
    {enc : C → List UInt8} {dom : C → Prop} {cmpC : C → C → Ordering}
    {encode : P → Except PathKeyError (List UInt8)} {decode : List UInt8 → Except PathKeyError P}
    {startsWith : P → P → Bool} (hcode : OrderedCode enc dom) (hcmp : Compares cmpC)
    (hencode : ∀ p k, encode p = .ok k ↔ (∀ c ∈ components p, dom c) ∧ k = (components p).flatMap enc)
    (hdecode : ∀ k p, decode k = .ok p ↔ (∀ c ∈ components p, dom c) ∧ k = (components p).flatMap enc)
    (hstarts : ∀ p q, startsWith q p = true ↔ components p <+: components q) :
    PathKeyLaws encode decode (fun p q => List.compareLex cmpC (components p) (components q))
      startsWith where
  roundTrip p k h := (hdecode k p).mpr ((hencode p k).mp h)
  canonical k p h := (hencode p k).mpr ((hdecode k p).mp h)
  order p q k l hk hl := by
    obtain ⟨hp, rfl⟩ := (hencode p k).mp hk
    obtain ⟨hq, rfl⟩ := (hencode q l).mp hl
    exact hcode.compareLex_flatMap hcmp compares_byte hp hq
  ancestor p q k l hk hl := by
    obtain ⟨hp, rfl⟩ := (hencode p k).mp hk
    obtain ⟨hq, rfl⟩ := (hencode q l).mp hl
    rw [hstarts p q]
    exact hcode.flatMap_prefix_iff hp hq
  contiguous p q r k l m hk hl hm hkl hlm hr := by
    obtain ⟨hp, rfl⟩ := (hencode p k).mp hk
    obtain ⟨hq, rfl⟩ := (hencode q l).mp hl
    obtain ⟨hr', rfl⟩ := (hencode r m).mp hm
    have hle : ∀ {x y : List UInt8}, compareBytes x y ≠ .gt → x ≤ y := fun {x y} h =>
      not_lt.mp fun hlt => h ((compares_byte.compareLex.gt_iff x y).mpr hlt)
    rw [hstarts p r] at hr
    rw [hstarts p q]
    exact (hcode.flatMap_prefix_iff hp hq).mp
      (OrderedCode.prefix_of_between (hle hkl) (hle hlm) ((hcode.flatMap_prefix_iff hp hr').mpr hr))

/-! ## Unix -/

/-- The key of one component. -/
def Component.key (c : Component) : List UInt8 := c.bytes ++ [0]

def Component.nulFree (c : Component) : Prop := (0 : UInt8) ∉ c.bytes

theorem component_code : OrderedCode Component.key Component.nulFree :=
  have hterminated := OrderedCode.terminated (z := (0 : UInt8)) fun b => Nat.zero_le b.toNat
  { prefixFree := fun ha hb hp => component_ext (hterminated.prefixFree ha hb hp)
    strictMono := fun ha hb hab => hterminated.strictMono ha hb hab
    nonempty := fun ha => hterminated.nonempty ha }

theorem appendPathComponentKey_eq_ok (c : Component) (encoded k : List UInt8) :
    appendPathComponentKey c.bytes encoded = .ok k ↔ c.nulFree ∧ k = encoded ++ c.key := by
  unfold appendPathComponentKey Component.nulFree Component.key
  by_cases hnul : (0 : UInt8) ∈ c.bytes
  · simp [hnul]
  · simp [hnul, eq_comm]

theorem appendPathKey_eq_ok (p : RelativePath) (encoded k : List UInt8) :
    appendPathKey p encoded = .ok k ↔
      (∀ c ∈ p.components, c.nulFree) ∧ k = encoded ++ p.components.flatMap Component.key := by
  unfold appendPathKey
  induction p.components generalizing encoded with
  | nil => simp [List.foldlM, pure, Except.pure, eq_comm]
  | cons c cs ih =>
    rw [List.flatMap_cons, ← List.append_assoc]
    constructor
    · intro h
      obtain ⟨m, hm, hrest⟩ := foldlM_cons_ok h
      obtain ⟨hc, rfl⟩ := (appendPathComponentKey_eq_ok c encoded m).mp hm
      obtain ⟨hcs, hk⟩ := (ih _).mp hrest
      exact ⟨List.forall_mem_cons.mpr ⟨hc, hcs⟩, hk⟩
    · rintro ⟨hfree, hk⟩
      obtain ⟨hc, hcs⟩ := List.forall_mem_cons.mp hfree
      rw [List.foldlM_cons, (appendPathComponentKey_eq_ok c encoded _).mpr ⟨hc, rfl⟩]
      exact (ih _).mpr ⟨hcs, hk⟩

theorem encodePathKey_eq_ok (p : RelativePath) (k : List UInt8) :
    encodePathKey p = .ok k ↔
      (∀ c ∈ p.components, c.nulFree) ∧ k = p.components.flatMap Component.key :=
  appendPathKey_eq_ok p [] k

theorem findIdx_nul (w rest : List UInt8) (hw : (0 : UInt8) ∉ w) :
    (w ++ 0 :: rest).findIdx? (· == 0) = some w.length := by
  induction w with
  | nil => rfl
  | cons b w ih =>
    have hb : (b == 0) = false := by
      rw [beq_eq_false_iff_ne]
      rintro rfl
      exact hw List.mem_cons_self
    rw [List.cons_append, List.findIdx?_cons, hb, ih fun h => hw (List.mem_cons_of_mem _ h)]
    rfl

theorem split_of_findIdx {l : List UInt8} {n : Nat} (h : l.findIdx? (· == 0) = some n) :
    (l.take n).length = n ∧ (0 : UInt8) ∉ l.take n ∧ l = l.take n ++ 0 :: l.drop (n + 1) := by
  obtain ⟨hn, hzero, hbefore⟩ := List.findIdx?_eq_some_iff_getElem.mp h
  have hlength : (l.take n).length = n := by rw [List.length_take]; omega
  refine ⟨hlength, ?_, ?_⟩
  · intro hmem
    obtain ⟨i, hi, hget⟩ := List.mem_iff_getElem.mp hmem
    rw [hlength] at hi
    rw [List.getElem_take] at hget
    exact hbefore i hi (by rw [hget]; rfl)
  · have hget : l[n] = 0 := eq_of_beq hzero
    rw [← hget, ← List.drop_eq_getElem_cons hn, List.take_append_drop]

theorem splitComponents_eq_ok (encoded : List UInt8) (ws : List OsString) :
    splitComponents encoded = .ok ws ↔
      (∀ w ∈ ws, w ≠ [] ∧ (0 : UInt8) ∉ w) ∧ encoded = ws.flatMap (· ++ [0]) := by
  constructor
  · intro h
    fun_induction splitComponents encoded generalizing ws with
    | case1 =>
      cases h
      simp
    | case2 => cases h
    | case3 => cases h
    | case4 byte rest length hfind hlength ih =>
      obtain ⟨vs, hvs, rfl⟩ := map_eq_ok h
      obtain ⟨htake, hfree, hsplit⟩ := split_of_findIdx hfind
      obtain ⟨hall, hrest⟩ := ih vs hvs
      refine ⟨List.forall_mem_cons.mpr ⟨⟨?_, hfree⟩, hall⟩, ?_⟩
      · intro hnil
        rw [hnil] at htake
        exact hlength htake.symm
      · rw [List.flatMap_cons, ← hrest]
        simpa using hsplit
  · rintro ⟨hall, rfl⟩
    induction ws with
    | nil => simp [splitComponents]
    | cons w ws ih =>
      obtain ⟨⟨hne, hfree⟩, hrest⟩ := List.forall_mem_cons.mp hall
      have hcat : (w :: ws).flatMap (· ++ [0]) = w ++ 0 :: ws.flatMap (· ++ [(0 : UInt8)]) := by simp
      obtain ⟨byte, rest, hcons⟩ :=
        List.exists_cons_of_ne_nil (l := w ++ 0 :: ws.flatMap (· ++ [(0 : UInt8)])) (by simp)
      have hfind := findIdx_nul w (ws.flatMap (· ++ [0])) hfree
      rw [hcat, hcons, splitComponents, ← hcons, hfind]
      have hpos : w.length ≠ 0 := fun h => hne (List.eq_nil_of_length_eq_zero h)
      simp [hpos, ih hrest, Except.map]

theorem fromComponents_eq_ok (ws : List OsString) (p : RelativePath) :
    RelativePath.fromComponents ws = .ok p ↔ p.components.map Component.bytes = ws := by
  have hmap (cs : List Component) :=
    mapM_eq_some_iff_map (fun _ _ => Component.ofBytes?_eq_some) ws cs
  unfold RelativePath.fromComponents
  cases hcs : ws.mapM Component.ofBytes? with
  | none =>
    refine iff_of_false (by simp) fun h => ?_
    rw [(hmap p.components).mpr h] at hcs
    cases hcs
  | some cs =>
    have hp := hmap p.components
    rw [hcs, Option.some.injEq] at hp
    rw [← hp, Except.ok.injEq]
    exact ⟨fun h => congrArg RelativePath.components h, fun h => RelativePath.ext_components h⟩

theorem decodePathKey_eq_ok (k : List UInt8) (p : RelativePath) :
    decodePathKey k = .ok p ↔
      (∀ c ∈ p.components, c.nulFree) ∧ k = p.components.flatMap Component.key := by
  have hflat : (p.components.map Component.bytes).flatMap (· ++ [0])
      = p.components.flatMap Component.key := by
    rw [List.flatMap_map]
    rfl
  have hdecode : decodePathKey k = .ok p ↔
      splitComponents k = .ok (p.components.map Component.bytes) := by
    unfold decodePathKey
    cases hsplit : splitComponents k with
    | error e => simp
    | ok ws =>
      rw [Except.ok.injEq, @eq_comm _ ws, ← fromComponents_eq_ok ws p]
      dsimp only
      cases RelativePath.fromComponents ws <;> simp
  rw [hdecode, splitComponents_eq_ok, hflat]
  refine and_congr_left fun _ => ?_
  rw [List.forall_mem_map]
  exact forall₂_congr fun c _ => and_iff_right c.valid.1

theorem unix_pathKeyLaws :
    PathKeyLaws encodePathKey decodePathKey RelativePath.cmp RelativePath.startsWith :=
  pathKeyLaws_of_code component_code compares_component encodePathKey_eq_ok decodePathKey_eq_ok
    fun p q => RelativePath.startsWith_iff q p

/-! ## Windows -/

instance unitOrder : LinearOrder UInt16 :=
  LinearOrder.lift' UInt16.toNat fun _ _ h => UInt16.toNat.inj h

/-- An `OsString` on Windows: UTF-16 code units, unpaired surrogates included. -/
abbrev WideString := List UInt16

/-- A drive letter and a colon begin a prefix, not a normal component. -/
def hasDrivePrefix : WideString → Bool
  | drive :: colon :: _ =>
    colon == 0x3A && (0x41 ≤ drive.toNat && drive.toNat ≤ 0x5A || 0x61 ≤ drive.toNat && drive.toNat ≤ 0x7A)
  | _ => false

/-- `Path::new(component).components()` yields exactly this one normal component. -/
def ValidWideComponent (c : WideString) : Prop :=
  c ≠ [] ∧ (0x2F : UInt16) ∉ c ∧ (0x5C : UInt16) ∉ c ∧ c ≠ [0x2E] ∧ c ≠ [0x2E, 0x2E] ∧
    hasDrivePrefix c = false

instance (c : WideString) : Decidable (ValidWideComponent c) :=
  inferInstanceAs (Decidable (_ ∧ _))

structure WideComponent where
  units : WideString
  valid : ValidWideComponent units

theorem wideComponent_ext {a b : WideComponent} (h : a.units = b.units) : a = b := by
  cases a; cases b; simp_all

instance : LinearOrder WideComponent :=
  LinearOrder.lift' WideComponent.units fun _ _ h => wideComponent_ext h

def compareUnit (a b : UInt16) : Ordering := compare a.toNat b.toNat

theorem compares_unit : Compares compareUnit where
  lt_iff _ _ := Nat.compare_eq_lt
  eq_iff _ _ := Nat.compare_eq_eq.trans UInt16.toNat_inj

def compareWideComponents (left right : WideString) : Ordering :=
  List.compareLex compareUnit left right

theorem compares_wideComponent :
    Compares fun a b : WideComponent => compareWideComponents a.units b.units where
  lt_iff a b := compares_unit.compareLex.lt_iff a.units b.units
  eq_iff a b := (compares_unit.compareLex.eq_iff a.units b.units).trans
    ⟨wideComponent_ext, fun h => congrArg WideComponent.units h⟩

structure WideRelativePath where
  components : List WideComponent

def WideComponent.ofUnits? (c : WideString) : Option WideComponent :=
  if h : ValidWideComponent c then some ⟨c, h⟩ else none

namespace WideRelativePath

def fromComponents (components : List WideString) : Except RelativePathError WideRelativePath :=
  match components.mapM WideComponent.ofUnits? with
  | some components => .ok ⟨components⟩
  | none => .error .NotRelative

def cmp (p q : WideRelativePath) : Ordering :=
  List.compareLex (fun a b => compareWideComponents a.units b.units) p.components q.components

def startsWith (p pre : WideRelativePath) : Bool := pre.components.isPrefixOf p.components

end WideRelativePath

/-- `u16::to_be_bytes`. -/
def beUnit (unit : UInt16) : List UInt8 :=
  [UInt8.ofNat (unit.toNat / 256), UInt8.ofNat (unit.toNat % 256)]

/-- `u16::from_be_bytes`. -/
def unitOfBe (high low : UInt8) : UInt16 := UInt16.ofNat (256 * high.toNat + low.toNat)

def appendWideComponentKey (component : WideString) (encoded : List UInt8) :
    Except PathKeyError (List UInt8) :=
  if component.any (· == 0) then .error .NulComponent
  else .ok (encoded ++ (component.flatMap beUnit ++ beUnit 0))

def encodeWidePathKey (path : WideRelativePath) : Except PathKeyError (List UInt8) :=
  path.components.foldlM (fun encoded c => appendWideComponentKey c.units encoded) []

/-- `as_chunks::<2>().0`. -/
def bytePairs : List UInt8 → List (UInt8 × UInt8)
  | high :: low :: rest => (high, low) :: bytePairs rest
  | _ => []

/-- The loop of `decode_path_key`: the components so far and the one that is open. -/
def splitWideComponents : List (UInt8 × UInt8) → List WideString → WideString →
    Except PathKeyError (List WideString)
  | [], components, component => if component ≠ [] then .error .Malformed else .ok components
  | (high, low) :: rest, components, component =>
    if unitOfBe high low = 0 then
      if component = [] then .error .Malformed
      else splitWideComponents rest (components ++ [component]) []
    else splitWideComponents rest components (component ++ [unitOfBe high low])

def decodeWidePathKey (encoded : List UInt8) : Except PathKeyError WideRelativePath :=
  if encoded.length % 2 ≠ 0 then .error .Malformed
  else
    match splitWideComponents (bytePairs encoded) [] [] with
    | .error e => .error e
    | .ok components =>
      match WideRelativePath.fromComponents components with
      | .error _ => .error .Malformed
      | .ok path => .ok path

/-! ### The codec -/

theorem beUnit_unitOfBe (high low : UInt8) : beUnit (unitOfBe high low) = [high, low] := by
  have hhigh := high.toNat_lt
  have hlow := low.toNat_lt
  have hunit : (unitOfBe high low).toNat = 256 * high.toNat + low.toNat := by
    unfold unitOfBe
    rw [UInt16.toNat_ofNat']
    omega
  unfold beUnit
  rw [hunit, show (256 * high.toNat + low.toNat) / 256 = high.toNat by omega,
    show (256 * high.toNat + low.toNat) % 256 = low.toNat by omega, UInt8.ofNat_toNat,
    UInt8.ofNat_toNat]

theorem unitOfBe_beUnit (unit : UInt16) :
    ∃ high low, beUnit unit = [high, low] ∧ unitOfBe high low = unit := by
  refine ⟨_, _, rfl, ?_⟩
  have hunit := unit.toNat_lt
  unfold unitOfBe
  apply UInt16.toNat_inj.mp
  rw [UInt16.toNat_ofNat', UInt8.toNat_ofNat', UInt8.toNat_ofNat']
  omega

theorem unit_code : OrderedCode beUnit fun _ => True := by
  refine OrderedCode.fixedWidth 2 (by omega) (fun _ _ => rfl) fun a b _ _ hab => ?_
  have ha := a.toNat_lt
  have hb := b.toNat_lt
  have hab : a.toNat < b.toNat := hab
  unfold beUnit
  rw [cons_lt_cons]
  have hhigh : ∀ n, n < 65536 → (UInt8.ofNat (n / 256)).toNat = n / 256 := by
    intro n hn
    rw [UInt8.toNat_ofNat']
    omega
  have hlow : ∀ n, (UInt8.ofNat (n % 256)).toNat = n % 256 := by
    intro n
    rw [UInt8.toNat_ofNat']
    omega
  by_cases heq : a.toNat / 256 = b.toNat / 256
  · refine Or.inr ⟨by rw [heq], cons_lt_cons.mpr (Or.inl ?_)⟩
    show (UInt8.ofNat (a.toNat % 256)).toNat < (UInt8.ofNat (b.toNat % 256)).toNat
    rw [hlow, hlow]
    omega
  · refine Or.inl ?_
    show (UInt8.ofNat (a.toNat / 256)).toNat < (UInt8.ofNat (b.toNat / 256)).toNat
    rw [hhigh _ ha, hhigh _ hb]
    omega

def WideComponent.key (c : WideComponent) : List UInt8 := (c.units ++ [0]).flatMap beUnit

def WideComponent.nulFree (c : WideComponent) : Prop := (0 : UInt16) ∉ c.units

theorem wideComponent_code : OrderedCode WideComponent.key WideComponent.nulFree :=
  have hterminated := OrderedCode.terminated (z := (0 : UInt16)) fun b => Nat.zero_le b.toNat
  have hbytes := hterminated.comp unit_code fun _ _ _ _ => trivial
  { prefixFree := fun ha hb hp => wideComponent_ext (hbytes.prefixFree ha hb hp)
    strictMono := fun ha hb hab => hbytes.strictMono ha hb hab
    nonempty := fun ha => hbytes.nonempty ha }

theorem appendWideComponentKey_eq_ok (c : WideComponent) (encoded k : List UInt8) :
    appendWideComponentKey c.units encoded = .ok k ↔ c.nulFree ∧ k = encoded ++ c.key := by
  unfold appendWideComponentKey WideComponent.nulFree WideComponent.key
  rw [List.flatMap_append, List.flatMap_singleton]
  by_cases hnul : (0 : UInt16) ∈ c.units
  · have hany : c.units.any (· == 0) = true := List.any_eq_true.mpr ⟨0, hnul, rfl⟩
    simp [hany, hnul]
  · have hany : c.units.any (· == 0) = false := by
      rw [List.any_eq_false]
      intro u hu hzero
      exact hnul (eq_of_beq hzero ▸ hu)
    simp [hany, hnul, eq_comm]

theorem encodeWidePathKey_eq_ok (p : WideRelativePath) (k : List UInt8) :
    encodeWidePathKey p = .ok k ↔
      (∀ c ∈ p.components, c.nulFree) ∧ k = p.components.flatMap WideComponent.key := by
  have happend : ∀ (cs : List WideComponent) (encoded : List UInt8),
      cs.foldlM (fun encoded c => appendWideComponentKey c.units encoded) encoded = .ok k ↔
        (∀ c ∈ cs, c.nulFree) ∧ k = encoded ++ cs.flatMap WideComponent.key := by
    intro cs
    induction cs with
    | nil => simp [List.foldlM, pure, Except.pure, eq_comm]
    | cons c cs ih =>
      intro encoded
      rw [List.flatMap_cons, ← List.append_assoc]
      constructor
      · intro h
        obtain ⟨m, hm, hrest⟩ := foldlM_cons_ok h
        obtain ⟨hc, rfl⟩ := (appendWideComponentKey_eq_ok c encoded m).mp hm
        obtain ⟨hcs, hk⟩ := (ih _).mp hrest
        exact ⟨List.forall_mem_cons.mpr ⟨hc, hcs⟩, hk⟩
      · rintro ⟨hfree, hk⟩
        obtain ⟨hc, hcs⟩ := List.forall_mem_cons.mp hfree
        rw [List.foldlM_cons, (appendWideComponentKey_eq_ok c encoded _).mpr ⟨hc, rfl⟩]
        exact (ih _).mpr ⟨hcs, hk⟩
  exact happend p.components []

/-- The units of the byte pairs. -/
def unitsOf (pairs : List (UInt8 × UInt8)) : WideString :=
  pairs.map fun pair => unitOfBe pair.1 pair.2

theorem unitsOf_bytePairs_flatMap (units : WideString) :
    unitsOf (bytePairs (units.flatMap beUnit)) = units := by
  induction units with
  | nil => rfl
  | cons unit units ih =>
    obtain ⟨high, low, hbytes, hunit⟩ := unitOfBe_beUnit unit
    rw [List.flatMap_cons, hbytes]
    show unitOfBe high low :: unitsOf (bytePairs (units.flatMap beUnit)) = _
    rw [ih, hunit]

theorem flatMap_unitsOf_bytePairs : ∀ {encoded : List UInt8}, encoded.length % 2 = 0 →
    (unitsOf (bytePairs encoded)).flatMap beUnit = encoded
  | [], _ => rfl
  | [_], h => absurd h (by simp)
  | high :: low :: rest, h => by
    have hrest : rest.length % 2 = 0 := by
      rw [List.length_cons, List.length_cons] at h
      omega
    show (unitOfBe high low :: unitsOf (bytePairs rest)).flatMap beUnit = _
    rw [List.flatMap_cons, beUnit_unitOfBe, flatMap_unitsOf_bytePairs hrest]
    rfl

/-- The loop closes a component at every zero unit and ends with none open. -/
theorem splitWideComponents_eq_ok (pairs : List (UInt8 × UInt8)) (components ws : List WideString)
    (component : WideString) (hopen : (0 : UInt16) ∉ component) :
    splitWideComponents pairs components component = .ok ws ↔
      ∃ vs, ws = components ++ vs ∧ (∀ v ∈ vs, v ≠ [] ∧ (0 : UInt16) ∉ v) ∧
        component ++ unitsOf pairs = vs.flatMap (· ++ [0]) := by
  have hcode := OrderedCode.terminated (z := (0 : UInt16)) fun b => Nat.zero_le b.toNat
  induction pairs generalizing components component with
  | nil =>
    unfold splitWideComponents
    rw [show unitsOf [] = [] from rfl, List.append_nil]
    constructor
    · intro h
      split at h
      · cases h
      · rename_i hnil
        cases h
        exact ⟨[], by simp, by simp, not_not.mp hnil⟩
    · rintro ⟨vs, rfl, -, heq⟩
      cases vs with
      | nil =>
        have hnil : component = [] := heq
        rw [if_neg (not_not.mpr hnil), List.append_nil]
      | cons v vs => exact absurd (show (0 : UInt16) ∈ component by rw [heq]; simp) hopen
  | cons pair pairs ih =>
    obtain ⟨high, low⟩ := pair
    unfold splitWideComponents
    rw [show unitsOf ((high, low) :: pairs) = unitOfBe high low :: unitsOf pairs from rfl]
    by_cases hzero : unitOfBe high low = 0
    · rw [if_pos hzero, hzero]
      by_cases hnil : component = []
      · rw [if_pos hnil]
        refine iff_of_false (by simp) ?_
        rintro ⟨vs, -, hvs, heq⟩
        cases vs with
        | nil => simp at heq
        | cons v vs =>
          -- an empty component is the code of no retained one
          rw [List.flatMap_cons, List.append_cons] at heq
          obtain ⟨hv, -⟩ := hcode.append_inj (a := component) (b := v) hopen
            (hvs v List.mem_cons_self).2 heq
          exact (hvs v List.mem_cons_self).1 (hv ▸ hnil)
      · rw [if_neg hnil]
        refine Iff.trans (ih (components ++ [component]) [] (by simp)) ?_
        constructor
        · rintro ⟨vs, rfl, hvs, heq⟩
          refine ⟨component :: vs, by simp, List.forall_mem_cons.mpr ⟨⟨hnil, hopen⟩, hvs⟩, ?_⟩
          rw [List.flatMap_cons, ← heq]
          simp
        · rintro ⟨vs, rfl, hvs, heq⟩
          cases vs with
          | nil => simp at heq
          | cons v vs =>
            rw [List.flatMap_cons, List.append_cons] at heq
            obtain ⟨rfl, hrest⟩ := hcode.append_inj (a := component) (b := v) hopen
              (hvs v List.mem_cons_self).2 heq
            exact ⟨vs, by simp, fun u hu => hvs u (List.mem_cons_of_mem _ hu), hrest⟩
    · have hstill : (0 : UInt16) ∉ component ++ [unitOfBe high low] := by
        intro hmem
        rcases List.mem_append.mp hmem with hmem | hmem
        · exact hopen hmem
        · exact hzero (List.mem_singleton.mp hmem).symm
      rw [if_neg hzero]
      refine Iff.trans (ih components (component ++ [unitOfBe high low]) hstill) ?_
      rw [List.append_assoc, List.singleton_append]

theorem wide_ofUnits?_eq_some (c : WideString) (d : WideComponent) :
    WideComponent.ofUnits? c = some d ↔ d.units = c := by
  unfold WideComponent.ofUnits?
  split
  · constructor
    · intro h
      rw [← Option.some.inj h]
    · intro h
      rw [Option.some.injEq]
      exact wideComponent_ext h.symm
  · rename_i hinvalid
    refine iff_of_false (by simp) ?_
    rintro rfl
    exact hinvalid d.valid

theorem decodeWidePathKey_eq_ok (k : List UInt8) (p : WideRelativePath) :
    decodeWidePathKey k = .ok p ↔
      (∀ c ∈ p.components, c.nulFree) ∧ k = p.components.flatMap WideComponent.key := by
  have hkey : p.components.flatMap WideComponent.key
      = ((p.components.map WideComponent.units).flatMap (· ++ [0])).flatMap beUnit := by
    rw [List.flatMap_map, List.flatMap_assoc]
    rfl
  have hcheck (ws : List WideString) : (WideRelativePath.fromComponents ws = .ok p) ↔
      ws = p.components.map WideComponent.units := by
    have hmap (cs : List WideComponent) :=
      mapM_eq_some_iff_map wide_ofUnits?_eq_some ws cs
    rw [@eq_comm _ ws, ← hmap]
    unfold WideRelativePath.fromComponents
    cases ws.mapM WideComponent.ofUnits? with
    | none => simp
    | some cs =>
      rw [Except.ok.injEq, Option.some.injEq]
      cases p
      simp
  have hsplit (ws : List WideString) := splitWideComponents_eq_ok (bytePairs k) [] ws [] (by simp)
  have hdecode : decodeWidePathKey k = .ok p ↔ k.length % 2 = 0 ∧
      splitWideComponents (bytePairs k) [] [] = .ok (p.components.map WideComponent.units) := by
    unfold decodeWidePathKey
    by_cases hodd : k.length % 2 = 0
    · rw [if_neg (not_not.mpr hodd), and_iff_right hodd]
      cases splitWideComponents (bytePairs k) [] [] with
      | error e => simp
      | ok ws =>
        rw [Except.ok.injEq, ← hcheck ws]
        dsimp only
        cases WideRelativePath.fromComponents ws <;> simp
    · rw [if_pos hodd]
      simp [hodd]
  rw [hdecode, hsplit, hkey]
  constructor
  · rintro ⟨heven, vs, hvs, hall, heq⟩
    rw [List.nil_append] at hvs heq
    subst hvs
    refine ⟨fun c hc => (hall c.units (List.mem_map_of_mem hc)).2, ?_⟩
    rw [← heq, flatMap_unitsOf_bytePairs heven]
  · rintro ⟨hfree, rfl⟩
    refine ⟨?_, _, rfl, ?_, ?_⟩
    · rw [List.length_flatMap]
      generalize (p.components.map WideComponent.units).flatMap (· ++ [0]) = units
      induction units with
      | nil => rfl
      | cons u units ih =>
        rw [List.map_cons, List.sum_cons, show (beUnit u).length = 2 from rfl]
        omega
    · rw [List.forall_mem_map]
      exact fun c hc => ⟨c.valid.1, hfree c hc⟩
    · rw [unitsOf_bytePairs_flatMap]
      rfl

theorem wide_startsWith_iff (p q : WideRelativePath) :
    q.startsWith p = true ↔ p.components <+: q.components := by
  simp [WideRelativePath.startsWith]

theorem windows_pathKeyLaws :
    PathKeyLaws encodeWidePathKey decodeWidePathKey WideRelativePath.cmp
      WideRelativePath.startsWith :=
  pathKeyLaws_of_code wideComponent_code compares_wideComponent encodeWidePathKey_eq_ok
    decodeWidePathKey_eq_ok wide_startsWith_iff

/-- On both platforms a path without NUL units has a key, and the keys obey the laws. -/
theorem path_key_codec :
    (∀ p, (∃ k, encodePathKey p = .ok k) ↔ ∀ c ∈ p.components, (0 : UInt8) ∉ c.bytes) ∧
    PathKeyLaws encodePathKey decodePathKey RelativePath.cmp RelativePath.startsWith ∧
    (∀ p, (∃ k, encodeWidePathKey p = .ok k) ↔ ∀ c ∈ p.components, (0 : UInt16) ∉ c.units) ∧
    PathKeyLaws encodeWidePathKey decodeWidePathKey WideRelativePath.cmp
      WideRelativePath.startsWith := by
  refine ⟨fun p => ?_, unix_pathKeyLaws, fun p => ?_, windows_pathKeyLaws⟩
  · simp only [encodePathKey_eq_ok, exists_and_left, exists_eq, and_true]
    rfl
  · simp only [encodeWidePathKey_eq_ok, exists_and_left, exists_eq, and_true]
    rfl

end Excise
