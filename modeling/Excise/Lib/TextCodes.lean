import Mathlib.Data.List.Count
import Mathlib.Data.List.Infix
import Mathlib.Tactic.Common

/-!
# Codes for text

Hexadecimal digits of a least width, UTF-8, UTF-16 with the surrogates that have no partner, and
lists of words of which none begins another.
-/

namespace Excise
set_option autoImplicit false

/-! ## Words that end themselves -/

/-- Where a word of the code ends does not depend on what follows. -/
structure SelfDelimiting {α β : Type} (word : α → List β) (dom : α → Prop) : Prop where
  cancel : ∀ {a b s t}, dom a → dom b → word a ++ s = word b ++ t → a = b ∧ s = t
  nonempty : ∀ {a}, dom a → word a ≠ []

theorem SelfDelimiting.flatMap_inj {α β : Type} {word : α → List β} {dom : α → Prop}
    (h : SelfDelimiting word dom) {xs ys : List α} (hx : ∀ x ∈ xs, dom x) (hy : ∀ y ∈ ys, dom y)
    (heq : xs.flatMap word = ys.flatMap word) : xs = ys := by
  induction xs generalizing ys with
  | nil =>
    cases ys with
    | nil => rfl
    | cons y ys =>
      rw [List.flatMap_nil, List.flatMap_cons] at heq
      exact absurd (List.append_eq_nil_iff.mp heq.symm).1 (h.nonempty (hy y List.mem_cons_self))
  | cons x xs ih =>
    cases ys with
    | nil =>
      rw [List.flatMap_nil, List.flatMap_cons] at heq
      exact absurd (List.append_eq_nil_iff.mp heq).1 (h.nonempty (hx x List.mem_cons_self))
    | cons y ys =>
      rw [List.flatMap_cons, List.flatMap_cons] at heq
      obtain ⟨rfl, hrest⟩ := h.cancel (hx x List.mem_cons_self) (hy y List.mem_cons_self) heq
      rw [ih (fun a ha => hx a (List.mem_cons_of_mem x ha))
        (fun a ha => hy a (List.mem_cons_of_mem x ha)) hrest]

/-! ## Hexadecimal digits -/

/-- The digits of `n`, filled up to `width` with zeros. -/
def lowerHex (width n : Nat) : List Char := (Nat.toDigits 16 n).leftpad width '0'

def hexValue (c : Char) : Nat := if c.isDigit then c.toNat - 48 else c.toNat - 87

theorem hexValue_digitChar : ∀ d < 16, hexValue (Nat.digitChar d) = d := by decide

theorem digitChar_ne_backslash : ∀ d < 16, Nat.digitChar d ≠ '\\' := by decide

theorem digitChar_ascii : ∀ d < 16, 33 ≤ (Nat.digitChar d).toNat ∧ (Nat.digitChar d).toNat ≤ 126 := by
  decide

theorem lowerHex_one {n : Nat} (h : n < 16) : lowerHex 1 n = [Nat.digitChar n] := by
  unfold lowerHex
  rw [Nat.toDigits_of_lt_base h]
  rfl

/-- The last digit apart. -/
theorem lowerHex_succ {width : Nat} (hw : 0 < width) (n : Nat) :
    lowerHex (width + 1) n = lowerHex width (n / 16) ++ [Nat.digitChar (n % 16)] := by
  unfold lowerHex List.leftpad
  by_cases hn : n < 16
  · rw [Nat.toDigits_of_lt_base hn, Nat.div_eq_of_lt hn, Nat.mod_eq_of_lt hn, Nat.toDigits_zero]
    have hfill : List.replicate width '0' = List.replicate (width - 1) '0' ++ ['0'] := by
      rw [← List.replicate_succ', Nat.sub_add_cancel hw]
    exact congrArg (· ++ [Nat.digitChar n]) hfill
  · rw [Nat.toDigits_of_base_le (by decide) (Nat.le_of_not_lt hn), List.length_append,
      List.length_singleton, Nat.add_sub_add_right, List.append_assoc]

theorem lowerHex_two {n : Nat} (h : n < 256) :
    lowerHex 2 n = [Nat.digitChar (n / 16), Nat.digitChar (n % 16)] := by
  rw [lowerHex_succ Nat.one_pos, lowerHex_one (by omega)]
  rfl

theorem lowerHex_four {n : Nat} (h : n < 65536) :
    lowerHex 4 n = [Nat.digitChar (n / 4096), Nat.digitChar (n / 256 % 16),
      Nat.digitChar (n / 16 % 16), Nat.digitChar (n % 16)] := by
  rw [lowerHex_succ (by decide), lowerHex_succ (by decide), lowerHex_succ (by decide),
    lowerHex_one (by omega)]
  simp only [List.cons_append, List.nil_append, Nat.div_div_eq_div_mul]

/-! ## UTF-8 -/

/-- The characters of well formed UTF-8. -/
def utf8Chars (bytes : List UInt8) : Option (List Char) :=
  (ByteArray.mk bytes.toArray).utf8Decode?.map Array.toList

theorem utf8Encode_eq (chars : List Char) :
    chars.utf8Encode = ByteArray.mk (chars.flatMap String.utf8EncodeChar).toArray := by
  unfold List.utf8Encode
  exact ByteArray.ext List.data_toByteArray

theorem utf8Chars_eq_some {bytes : List UInt8} {chars : List Char} :
    utf8Chars bytes = some chars ↔ bytes = chars.flatMap String.utf8EncodeChar := by
  unfold utf8Chars
  constructor
  · intro h
    obtain ⟨decoded, hdecoded, rfl⟩ := Option.map_eq_some_iff.mp h
    have hback : decoded.toList.utf8Encode = ByteArray.mk bytes.toArray := by
      have hget := @ByteArray.utf8Encode_get_utf8Decode? (ByteArray.mk bytes.toArray)
        (by rw [hdecoded]; rfl)
      rwa [Option.get_of_eq_some _ hdecoded] at hget
    rw [utf8Encode_eq] at hback
    have hdata := congrArg (fun b => b.data.toList) hback
    exact hdata.symm
  · rintro rfl
    rw [← utf8Encode_eq, List.utf8Decode?_utf8Encode]
    rfl

def isHighByte (b : UInt8) : Bool := decide (128 ≤ b.toNat)

theorem isHighByte_ofNat {n : Nat} (hlow : 128 ≤ n) (hfit : n < 256) :
    isHighByte (UInt8.ofNat n) = true := by
  unfold isHighByte
  rw [UInt8.toNat_ofNat_of_lt' hfit]
  exact decide_eq_true hlow

theorem toNat_charOfNat {n : Nat} (h : n.isValidChar) : (Char.ofNat n).toNat = n := by
  unfold Char.ofNat
  rw [dif_pos h]
  rfl

/-- No byte above 127 stands alone in well formed UTF-8. -/
theorem utf8_high_count (chars : List Char) :
    (chars.flatMap String.utf8EncodeChar).countP isHighByte ≠ 1 := by
  have htwo {a b : UInt8} {rest : List UInt8} (ha : isHighByte a = true)
      (hb : isHighByte b = true) : 2 ≤ (a :: b :: rest).countP isHighByte := by
    rw [List.countP_cons_of_pos ha, List.countP_cons_of_pos hb]
    exact Nat.le_add_left 2 _
  have hchar (c : Char) : (String.utf8EncodeChar c).countP isHighByte = 0 ∨
      2 ≤ (String.utf8EncodeChar c).countP isHighByte := by
    unfold String.utf8EncodeChar
    dsimp only
    split
    · rename_i hascii
      refine Or.inl (List.countP_eq_zero.mpr fun b hb => ?_)
      unfold isHighByte
      rw [List.mem_singleton.mp hb, UInt8.toNat_ofNat_of_lt' (show c.val.toNat < 256 by omega),
        decide_eq_true_iff]
      omega
    · right
      split
      · exact htwo (isHighByte_ofNat (by omega) (by omega)) (isHighByte_ofNat (by omega) (by omega))
      · split
        · exact htwo (isHighByte_ofNat (by omega) (by omega))
            (isHighByte_ofNat (by omega) (by omega))
        · exact htwo (isHighByte_ofNat (by omega) (by omega))
            (isHighByte_ofNat (by omega) (by omega))
  induction chars with
  | nil => exact Nat.zero_ne_one
  | cons c chars ih =>
    rw [List.flatMap_cons, List.countP_append]
    have hc := hchar c
    omega

/-- ASCII is one byte a character. -/
theorem utf8Chars_ascii {bytes : List UInt8} (h : ∀ b ∈ bytes, isHighByte b = false) :
    utf8Chars bytes = some (bytes.map fun b => Char.ofNat b.toNat) := by
  rw [utf8Chars_eq_some, List.flatMap_map]
  induction bytes with
  | nil => rfl
  | cons b bytes ih =>
    have hb := h b List.mem_cons_self
    have hlow : b.toNat < 128 := by
      unfold isHighByte at hb
      rw [decide_eq_false_iff_not] at hb
      omega
    have hchar : (Char.ofNat b.toNat).val.toNat = b.toNat := toNat_charOfNat (Or.inl (by omega))
    have hone : String.utf8EncodeChar (Char.ofNat b.toNat) = [b] := by
      unfold String.utf8EncodeChar
      dsimp only
      rw [hchar, if_pos (by omega), UInt8.ofNat_toNat]
    rw [List.flatMap_cons, hone, ← ih fun a ha => h a (List.mem_cons_of_mem b ha)]
    rfl

/-! ## UTF-16 -/

def isSurrogate (unit : UInt16) : Bool := decide (0xD800 ≤ unit.toNat ∧ unit.toNat ≤ 0xDFFF)

def isTrailingSurrogate (unit : UInt16) : Bool :=
  decide (0xDC00 ≤ unit.toNat ∧ unit.toNat ≤ 0xDFFF)

/-- `char::decode_utf16`: a surrogate without a partner stays as it is. -/
def decodeUtf16 : List UInt16 → List (Char ⊕ UInt16)
  | [] => []
  | unit :: rest =>
    if !isSurrogate unit then .inl (Char.ofNat unit.toNat) :: decodeUtf16 rest
    else if isTrailingSurrogate unit then .inr unit :: decodeUtf16 rest
    else
      match rest with
      | [] => [.inr unit]
      | next :: rest =>
        if isTrailingSurrogate next then
          .inl (Char.ofNat ((unit.toNat - 0xD800) * 1024 + (next.toNat - 0xDC00) + 0x10000)) ::
            decodeUtf16 rest
        else .inr unit :: decodeUtf16 (next :: rest)

/-- The units of a character or of a surrogate alone. -/
def utf16Units : Char ⊕ UInt16 → List UInt16
  | .inl c =>
    if c.toNat < 0x10000 then [UInt16.ofNat c.toNat]
    else
      [UInt16.ofNat (0xD800 + (c.toNat - 0x10000) / 1024),
        UInt16.ofNat (0xDC00 + (c.toNat - 0x10000) % 1024)]
  | .inr unit => [unit]

theorem decodeUtf16_units (units : List UInt16) : (decodeUtf16 units).flatMap utf16Units = units := by
  fun_induction decodeUtf16 units with
  | case1 => rfl
  | case2 unit rest hplain ih =>
    have hlt := unit.toNat_lt
    have hvalid : unit.toNat.isValidChar := by
      unfold isSurrogate at hplain
      rw [Bool.not_eq_true', decide_eq_false_iff_not] at hplain
      unfold Nat.isValidChar
      omega
    have hunits : utf16Units (.inl (Char.ofNat unit.toNat)) = [unit] := by
      unfold utf16Units
      dsimp only
      rw [toNat_charOfNat hvalid, if_pos hlt, UInt16.ofNat_toNat]
    rw [List.flatMap_cons, hunits, ih]
    rfl
  | case3 unit rest hsurrogate htrailing ih =>
    rw [List.flatMap_cons, ih]
    rfl
  | case4 unit hsurrogate hleading => rfl
  | case5 unit hsurrogate hleading next rest htrailing ih =>
    -- a pair
    obtain ⟨hlow, hhigh⟩ : 0xD800 ≤ unit.toNat ∧ unit.toNat < 0xDC00 := by
      unfold isSurrogate at hsurrogate
      unfold isTrailingSurrogate at hleading
      rw [Bool.not_eq_true', Bool.not_eq_false, decide_eq_true_iff] at hsurrogate
      rw [decide_eq_true_iff] at hleading
      omega
    obtain ⟨hlow', hhigh'⟩ := of_decide_eq_true htrailing
    have hvalid : ((unit.toNat - 0xD800) * 1024 + (next.toNat - 0xDC00) + 0x10000).isValidChar := by
      unfold Nat.isValidChar
      omega
    have hunits : utf16Units (.inl (Char.ofNat
        ((unit.toNat - 0xD800) * 1024 + (next.toNat - 0xDC00) + 0x10000))) = [unit, next] := by
      unfold utf16Units
      dsimp only
      rw [toNat_charOfNat hvalid, if_neg (by omega)]
      have hfirst : 0xD800 + ((unit.toNat - 0xD800) * 1024 + (next.toNat - 0xDC00) + 0x10000 -
          0x10000) / 1024 = unit.toNat := by omega
      have hsecond : 0xDC00 + ((unit.toNat - 0xD800) * 1024 + (next.toNat - 0xDC00) + 0x10000 -
          0x10000) % 1024 = next.toNat := by omega
      rw [hfirst, hsecond, UInt16.ofNat_toNat, UInt16.ofNat_toNat]
    rw [List.flatMap_cons, hunits, ih]
    rfl
  | case6 unit hsurrogate hleading next rest htrailing ih =>
    rw [List.flatMap_cons, ih]
    rfl

theorem decodeUtf16_inj {xs ys : List UInt16} (h : decodeUtf16 xs = decodeUtf16 ys) : xs = ys := by
  rw [← decodeUtf16_units xs, h, decodeUtf16_units]

/-- Only surrogates stay. -/
theorem isSurrogate_of_mem_decodeUtf16 {units : List UInt16} {unit : UInt16}
    (h : .inr unit ∈ decodeUtf16 units) : isSurrogate unit = true := by
  fun_induction decodeUtf16 units with
  | case1 => cases h
  | case2 first rest hplain ih =>
    rcases List.mem_cons.mp h with heq | h
    · cases heq
    · exact ih h
  | case3 first rest hsurrogate htrailing ih =>
    rcases List.mem_cons.mp h with heq | h
    · cases heq
      rwa [Bool.not_eq_true', Bool.not_eq_false] at hsurrogate
    · exact ih h
  | case4 first hsurrogate hleading =>
    cases List.mem_singleton.mp h
    rwa [Bool.not_eq_true', Bool.not_eq_false] at hsurrogate
  | case5 first hsurrogate hleading next rest htrailing ih =>
    rcases List.mem_cons.mp h with heq | h
    · cases heq
    · exact ih h
  | case6 first hsurrogate hleading next rest htrailing ih =>
    rcases List.mem_cons.mp h with heq | h
    · cases heq
      rwa [Bool.not_eq_true', Bool.not_eq_false] at hsurrogate
    · exact ih h

end Excise
