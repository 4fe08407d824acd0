import Mathlib.Data.List.TakeWhile
import Mathlib.Tactic.Common

/-!
# Binary search

`partition_point` of a slice: the number of elements before the first that fails the predicate,
found by halving. On a list whose elements that meet the predicate come first it is the length of
that front.
-/

namespace Excise
set_option autoImplicit false

universe u
variable {α : Type u}

/-- Halves the `size` candidates that start at `base`. -/
def bisect (low : Nat → Bool) (base size : Nat) : Nat :=
  if size ≤ 1 then base
  else
    let half := size / 2
    if low (base + half) then bisect low (base + half) (size - half) else bisect low base (size - half)
termination_by size

def partitionPoint (p : α → Bool) (l : List α) : Nat :=
  match l with
  | [] => 0
  | x :: _ =>
    let low := fun i => p (l[i]?.getD x)
    let base := bisect low 0 l.length
    base + if low base then 1 else 0

/-- Between `base` and the end the boundary stays among the candidates. -/
theorem bisect_spec {low : Nat → Bool} {n base size : Nat} (hlow : ∀ i, i < base + size →
    low i = decide (i < n)) (hbase : base = 0 ∨ base < n) (hsize : 0 < size) (hn : n ≤ base + size) :
    bisect low base size < base + size ∧ bisect low base size ≤ n ∧ n ≤ bisect low base size + 1 ∧
      (bisect low base size = 0 ∨ bisect low base size < n) := by
  induction size using Nat.strong_induction_on generalizing base with
  | _ size ih =>
    unfold bisect
    by_cases hone : size ≤ 1
    · rw [if_pos hone]
      omega
    · rw [if_neg hone]
      dsimp only
      have hmid := hlow (base + size / 2) (by omega)
      by_cases hfront : base + size / 2 < n
      · rw [decide_eq_true hfront] at hmid
        rw [if_pos hmid]
        have hrest := @ih (size - size / 2) (by omega) (base + size / 2)
          (fun i hi => hlow i (by omega)) (Or.inr hfront) (by omega) (by omega)
        omega
      · rw [decide_eq_false hfront] at hmid
        rw [hmid, if_neg Bool.false_ne_true]
        have hrest := ih (size - size / 2) (by omega) (fun i hi => hlow i (by omega)) hbase
          (by omega) (by omega)
        omega

theorem partitionPoint_eq {p : α → Bool} {l : List α} {n : Nat} (hn : n ≤ l.length)
    (h : ∀ i (hi : i < l.length), p l[i] = decide (i < n)) : partitionPoint p l = n := by
  cases l with
  | nil => exact (Nat.le_zero.mp hn).symm
  | cons x xs =>
    have hlow : ∀ i, i < (x :: xs).length → p ((x :: xs)[i]?.getD x) = decide (i < n) := by
      intro i hi
      rw [List.getElem?_eq_getElem hi]
      exact h i hi
    unfold partitionPoint
    dsimp only
    obtain ⟨hlt, hle, hge, -⟩ := @bisect_spec (fun i => p ((x :: xs)[i]?.getD x)) n 0
      (x :: xs).length (fun i hi => hlow i (by omega)) (Or.inl rfl)
      (Nat.succ_pos _) (by omega)
    have hlast := hlow _ (Nat.lt_of_lt_of_eq hlt (Nat.zero_add _))
    split
    · rename_i hfront
      rw [hlast, decide_eq_true_eq] at hfront
      omega
    · rename_i hfront
      rw [hlast, decide_eq_true_eq] at hfront
      omega

/-- When what meets `p` comes first, it is what is counted. -/
theorem partitionPoint_append {p : α → Bool} {front back : List α} (hfront : ∀ a ∈ front, p a = true)
    (hback : ∀ a ∈ back, p a = false) : partitionPoint p (front ++ back) = front.length := by
  refine partitionPoint_eq (by rw [List.length_append]; omega) ?_
  intro i hi
  by_cases hlt : i < front.length
  · rw [List.getElem_append_left hlt, hfront _ (List.getElem_mem hlt), decide_eq_true hlt]
  · rw [List.getElem_append_right (not_lt.mp hlt), hback _ (List.getElem_mem _),
      decide_eq_false hlt]

/-- Whatever precedes an element that meets `p` meets it too: then the front is what `takeWhile`
takes. -/
theorem takeWhile_append_dropWhile_of_pairwise {p : α → Bool} {l : List α}
    (h : l.Pairwise fun a b => p b = true → p a = true) :
    (∀ a ∈ l.takeWhile p, p a = true) ∧ ∀ a ∈ l.dropWhile p, p a = false := by
  refine ⟨fun a ha => List.mem_takeWhile_imp ha, ?_⟩
  induction l with
  | nil => simp
  | cons x l ih =>
    obtain ⟨hx, hl⟩ := List.pairwise_cons.mp h
    cases hp : p x with
    | true =>
      rw [List.dropWhile_cons_of_pos hp]
      exact ih hl
    | false =>
      rw [List.dropWhile_cons_of_neg (by rw [hp]; exact Bool.false_ne_true)]
      intro a ha
      rcases List.mem_cons.mp ha with rfl | ha
      · exact hp
      · rw [Bool.eq_false_iff]
        intro hpa
        rw [hx a ha hpa] at hp
        cases hp

end Excise
