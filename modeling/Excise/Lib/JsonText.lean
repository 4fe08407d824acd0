import Mathlib.Algebra.GroupWithZero.Nat
import Mathlib.Data.List.Basic
import Mathlib.Tactic.Common

/-!
# Compact JSON text

The bytes of strings, numbers and objects as a compact printer writes them, and how long they are.
Text is bytes: of a string only the quotation mark, the backslash and the control bytes are
escaped.
-/

namespace Excise
set_option autoImplicit false

/-- The bytes of an ASCII text. -/
def ascii (s : String) : List UInt8 := s.toList.map fun c => UInt8.ofNat c.toNat

def hexDigit (n : Nat) : UInt8 := UInt8.ofNat (if n < 10 then 48 + n else 87 + n)

def jsonEscape (b : UInt8) : List UInt8 :=
  match b.toNat with
  | 8 => [0x5C, 0x62]
  | 9 => [0x5C, 0x74]
  | 10 => [0x5C, 0x6E]
  | 12 => [0x5C, 0x66]
  | 13 => [0x5C, 0x72]
  | 0x22 => [0x5C, 0x22]
  | 0x5C => [0x5C, 0x5C]
  | n =>
    if n < 0x20 then [0x5C, 0x75, 0x30, 0x30, hexDigit (n / 16), hexDigit (n % 16)] else [b]

def jsonString (bytes : List UInt8) : List UInt8 := 0x22 :: (bytes.flatMap jsonEscape ++ [0x22])

def jsonNumber (n : Nat) : List UInt8 := (Nat.toDigits 10 n).map fun c => UInt8.ofNat c.toNat

def jsonBool : Bool → List UInt8
  | true => ascii "true"
  | false => ascii "false"

def jsonOption {α : Type} (f : α → List UInt8) : Option α → List UInt8
  | none => ascii "null"
  | some a => f a

def jsonField (field : String × List UInt8) : List UInt8 :=
  jsonString (ascii field.1) ++ 0x3A :: field.2

def jsonObject (fields : List (String × List UInt8)) : List UInt8 :=
  0x7B :: (List.intercalate [0x2C] (fields.map jsonField) ++ [0x7D])

/-! ## Lengths -/

theorem jsonEscape_length (b : UInt8) : (jsonEscape b).length ≤ 6 := by
  unfold jsonEscape
  split
  · exact Nat.le_add_left 2 4
  · exact Nat.le_add_left 2 4
  · exact Nat.le_add_left 2 4
  · exact Nat.le_add_left 2 4
  · exact Nat.le_add_left 2 4
  · exact Nat.le_add_left 2 4
  · exact Nat.le_add_left 2 4
  · split
    · exact Nat.le_refl 6
    · exact Nat.le_add_left 1 5

theorem jsonString_length (bytes : List UInt8) :
    (jsonString bytes).length ≤ 2 + 6 * bytes.length := by
  have hescaped : (bytes.flatMap jsonEscape).length ≤ 6 * bytes.length := by
    induction bytes with
    | nil => exact Nat.le_refl 0
    | cons b bytes ih =>
      have := jsonEscape_length b
      rw [List.flatMap_cons, List.length_append, List.length_cons]
      omega
  rw [jsonString, List.length_cons, List.length_append, List.length_singleton]
  omega

theorem jsonNumber_length {n k : Nat} (hk : 0 < k) (h : n < 10 ^ k) : (jsonNumber n).length ≤ k := by
  rw [jsonNumber, List.length_map]
  exact (Nat.length_toDigits_le_iff (by omega) hk).mpr h

theorem jsonNumber_pos (n : Nat) : 0 < (jsonNumber n).length := by
  rw [jsonNumber, List.length_map]
  exact Nat.length_toDigits_pos

/-- What a field takes besides its value. -/
def jsonOverhead (keys : List String) : Nat :=
  (keys.map fun key => (jsonString (ascii key)).length + 2).sum

/-- The braces, colons and commas are one byte a key and one more. -/
theorem jsonObject_length {field : String × List UInt8} {fields : List (String × List UInt8)} :
    (jsonObject (field :: fields)).length =
      1 + jsonOverhead ((field :: fields).map Prod.fst) +
        ((field :: fields).map fun f => f.2.length).sum := by
  have hfield (f : String × List UInt8) :
      (jsonField f).length + 1 = (jsonString (ascii f.1)).length + 2 + f.2.length := by
    rw [jsonField, List.length_append, List.length_cons]
    omega
  have hjoined : (List.intercalate [0x2C] ((field :: fields).map jsonField)).length + 1 =
      jsonOverhead ((field :: fields).map Prod.fst) +
        ((field :: fields).map fun f => f.2.length).sum := by
    induction fields generalizing field with
    | nil =>
      have := hfield field
      simp only [List.map_cons, List.map_nil, List.intercalate, List.intersperse,
        List.flatten_cons, List.flatten_nil, List.append_nil, jsonOverhead, List.sum_cons,
        List.sum_nil]
      omega
    | cons next fields ih =>
      have h1 := hfield field
      have h2 := @ih next
      simp only [List.map_cons, List.intercalate, List.intersperse, List.flatten_cons,
        List.length_append, List.length_singleton, jsonOverhead, List.sum_cons] at h2 ⊢
      omega
  rw [jsonObject, List.length_cons, List.length_append, List.length_singleton]
  omega

end Excise
