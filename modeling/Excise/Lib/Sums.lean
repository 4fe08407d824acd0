import Mathlib.Algebra.BigOperators.Group.List.Lemmas
import Mathlib.Algebra.GroupWithZero.Nat
import Mathlib.Tactic.Common

/-!
# Sums over the part of a list that meets a condition

`sumWhere p w l` adds the weights of the elements with `p`. The partition rule turns a sum over
cells of sums into one sum, when every counted element lies in exactly one cell.
-/

namespace Excise
set_option autoImplicit false

variable {α β : Type}

def sumWhere (p : α → Bool) (w : α → Nat) (l : List α) : Nat :=
  (l.map fun a => if p a then w a else 0).sum

variable {p q : α → Bool} {w : α → Nat} {a : α} {l l' : List α}

@[simp] theorem sumWhere_nil : sumWhere p w [] = 0 := rfl

@[simp] theorem sumWhere_cons :
    sumWhere p w (a :: l) = (if p a then w a else 0) + sumWhere p w l := rfl

@[simp] theorem sumWhere_append : sumWhere p w (l ++ l') = sumWhere p w l + sumWhere p w l' := by
  simp [sumWhere]

theorem sumWhere_perm (h : l.Perm l') : sumWhere p w l = sumWhere p w l' := (h.map _).sum_eq

theorem sumWhere_congr (h : ∀ a ∈ l, p a = q a) : sumWhere p w l = sumWhere q w l := by
  unfold sumWhere
  congr 1
  apply List.map_congr_left
  intro a ha
  rw [h a ha]

theorem sumWhere_eq_zero (h : ∀ a ∈ l, p a = true → w a = 0) : sumWhere p w l = 0 := by
  apply List.sum_eq_zero
  intro n hn
  obtain ⟨a, ha, rfl⟩ := List.mem_map.mp hn
  split
  · exact h a ha ‹_›
  · rfl

theorem sumWhere_le (h : ∀ a ∈ l, p a = true → q a = true) : sumWhere p w l ≤ sumWhere q w l := by
  induction l with
  | nil => exact Nat.le_refl _
  | cons a l ih =>
    have hrest := ih fun b hb => h b (List.mem_cons_of_mem _ hb)
    have hhead := h a List.mem_cons_self
    simp only [sumWhere_cons]
    cases hp : p a
    · simp only [Bool.false_eq_true, if_false]
      omega
    · simp only [hhead hp, if_true]
      omega

theorem sumWhere_true (w : α → Nat) (l : List α) : sumWhere (fun _ => true) w l = (l.map w).sum := by
  simp [sumWhere]

theorem sumWhere_le_sum (p : α → Bool) (w : α → Nat) (l : List α) :
    sumWhere p w l ≤ (l.map w).sum := by
  rw [← sumWhere_true]
  exact sumWhere_le fun _ _ _ => rfl

/-- A condition split in two that exclude each other. -/
theorem sumWhere_split {r : α → Bool} (h : ∀ a ∈ l, r a = (p a || q a))
    (hd : ∀ a ∈ l, p a = true → q a = false) :
    sumWhere r w l = sumWhere p w l + sumWhere q w l := by
  induction l with
  | nil => rfl
  | cons a l ih =>
    have hrest := ih (fun b hb => h b (List.mem_cons_of_mem _ hb))
      fun b hb => hd b (List.mem_cons_of_mem _ hb)
    have hhead := h a List.mem_cons_self
    have hdis := hd a List.mem_cons_self
    simp only [sumWhere_cons, hhead, hrest]
    cases hp : p a
    · simp only [Bool.false_or, Bool.false_eq_true, if_false]
      omega
    · simp only [hdis hp, Bool.true_or, if_true, Bool.false_eq_true, if_false]
      omega

/-- The partition rule. -/
theorem sum_sumWhere {cells : List β} {q : β → α → Bool}
    (h : ∀ a ∈ l, w a ≠ 0 → cells.countP (fun b => q b a) = if p a then 1 else 0) :
    (cells.map fun b => sumWhere (q b) w l).sum = sumWhere p w l := by
  have hcell (a : α) (cells : List β) :
      (cells.map fun b => if q b a then w a else 0).sum = cells.countP (fun b => q b a) * w a := by
    induction cells with
    | nil => simp
    | cons b cells ih =>
      rw [List.map_cons, List.sum_cons, ih, List.countP_cons, Nat.add_mul]
      cases q b a <;> simp [Nat.add_comm]
  induction l with
  | nil => simp
  | cons a l ih =>
    have hrest := ih fun b hb => h b (List.mem_cons_of_mem _ hb)
    have hhead := h a List.mem_cons_self
    simp only [sumWhere_cons]
    rw [List.sum_map_add, hrest, hcell]
    congr 1
    by_cases hw : w a = 0
    · simp [hw]
    · rw [hhead hw]
      cases p a <;> simp

/-- Elements that correspond to different ones elsewhere weigh no more than those do together. -/
theorem sum_le_of_subperm {γ : Type} {k : α → γ} {k' : β → γ} {f : α → Nat} {g : β → Nat}
    {l : List α} {l' : List β} (h : (l.map k).Subperm (l'.map k'))
    (hle : ∀ a ∈ l, ∀ b ∈ l', k a = k' b → f a ≤ g b) : (l.map f).sum ≤ (l'.map g).sum := by
  induction l generalizing l' with
  | nil => exact Nat.zero_le _
  | cons a l ih =>
    obtain ⟨b, hb, hk⟩ := List.mem_map.mp (h.subset (List.mem_cons_self (a := k a)))
    obtain ⟨s, t, rfl⟩ := List.append_of_mem hb
    have hperm : (s ++ b :: t).Perm (b :: (s ++ t)) := List.perm_middle
    have hrest : (l.map k).Subperm ((s ++ t).map k') := by
      have hcons := h.trans (hperm.map k').subperm
      rw [List.map_cons, List.map_cons, hk] at hcons
      exact (List.subperm_cons _).mp hcons
    have hsum := ih hrest fun a' ha' b' hb' => hle a' (List.mem_cons_of_mem _ ha') b'
      (hperm.symm.subset (List.mem_cons_of_mem _ hb'))
    rw [(hperm.map g).sum_eq, List.map_cons, List.map_cons, List.sum_cons, List.sum_cons]
    exact Nat.add_le_add (hle a List.mem_cons_self b hb hk.symm) hsum

end Excise
