import Mathlib.Algebra.Group.Nat.Defs
import Mathlib.Algebra.GroupWithZero.Nat
import Mathlib.Tactic.Common

/-!
# Saturating counters

`satAdd w a b` is `a.saturating_add(b)` of an unsigned `w`-bit integer.
-/

namespace Excise
set_option autoImplicit false

def satMax (w : Nat) : Nat := 2 ^ w - 1

def satAdd (w a b : Nat) : Nat := min (a + b) (satMax w)

theorem satAdd_le (w a b : Nat) : satAdd w a b ≤ satMax w := Nat.min_le_right _ _

theorem satAdd_eq_of_lt {w a b : Nat} (h : satAdd w a b < satMax w) : satAdd w a b = a + b := by
  unfold satAdd at *
  omega

theorem satAdd_of_le {w a b : Nat} (h : a + b ≤ satMax w) : satAdd w a b = a + b :=
  Nat.min_eq_left h

theorem satAdd_zero {w a : Nat} (h : a ≤ satMax w) : satAdd w a 0 = a := satAdd_of_le h

theorem satAdd_mono {w a b c d : Nat} (hab : a ≤ b) (hcd : c ≤ d) : satAdd w a c ≤ satAdd w b d := by
  unfold satAdd
  omega

theorem satAdd_satAdd (w a b k : Nat) :
    satAdd w (satAdd w a b) k = satAdd w a (b + k) := by
  unfold satAdd
  omega

theorem satAdd_min (w a b : Nat) : satAdd w (min a (satMax w)) b = min (a + b) (satMax w) := by
  unfold satAdd
  omega

/-- A saturating sum is the sum, cut at the maximum once. -/
theorem foldl_satAdd {α : Type} {w : Nat} (f : α → Nat) (l : List α) {n : Nat} (h : n ≤ satMax w) :
    l.foldl (fun sum a => satAdd w sum (f a)) n = min (n + (l.map f).sum) (satMax w) := by
  induction l generalizing n with
  | nil => exact (Nat.min_eq_left h).symm
  | cons a l ih =>
    rw [List.foldl_cons, ih (satAdd_le w n (f a)), List.map_cons, List.sum_cons]
    unfold satAdd
    omega

end Excise
