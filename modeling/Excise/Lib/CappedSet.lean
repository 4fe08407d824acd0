import Mathlib.Data.Finset.Sort
import Mathlib.Data.Finset.Card
import Mathlib.Tactic.Common

/-!
# Sets tracked up to a cap

A set that takes one element at a time and is given up, for good, when it has more than `cap` of
them. Which elements came decides the result, not how often or in which order; so a set may be
collected apart and handed over whole, if it is collected until it has more than `cap` elements.
-/

namespace Excise
set_option autoImplicit false

variable {α : Type} [DecidableEq α]

structure CappedSet (α : Type) where
  items : Finset α
  overflowed : Bool

namespace CappedSet

variable {cap limit : Nat} {t : CappedSet α} {s s' : Finset α}

def record (cap : Nat) (t : CappedSet α) (a : α) : CappedSet α :=
  if t.overflowed then t
  else if cap < (insert a t.items).card then ⟨∅, true⟩
  else ⟨insert a t.items, false⟩

/-- All elements of `s` at once. -/
def recordSet (cap : Nat) (s : Finset α) (t : CappedSet α) : CappedSet α :=
  if t.overflowed = true ∨ s = ∅ then t
  else if cap < (t.items ∪ s).card then ⟨∅, true⟩
  else ⟨t.items ∪ s, false⟩

/-- Collecting apart, without an end. -/
def collect (limit : Nat) (a : α) (s : Finset α) : Finset α :=
  if s.card ≤ limit then insert a s else s

theorem recordSet_empty (cap : Nat) (t : CappedSet α) : t.recordSet cap ∅ = t :=
  if_pos (Or.inr rfl)

theorem recordSet_overflowed (h : t.overflowed = true) : t.recordSet cap s = t := if_pos (Or.inl h)

theorem recordSet_of_card (ht : t.overflowed = false) (hs : cap < s.card) :
    t.recordSet cap s = ⟨∅, true⟩ := by
  have hne : s ≠ ∅ := by
    rintro rfl
    exact absurd hs (Nat.not_lt_zero cap)
  have hcard : cap < (t.items ∪ s).card :=
    lt_of_lt_of_le hs (Finset.card_le_card Finset.subset_union_right)
  unfold recordSet
  rw [if_neg (by rw [ht]; simpa using hne), if_pos hcard]

/-- One element more. -/
theorem record_recordSet (cap : Nat) (t : CappedSet α) (s : Finset α) (a : α) :
    (t.recordSet cap s).record cap a = t.recordSet cap (insert a s) := by
  by_cases ht : t.overflowed = true
  · rw [recordSet_overflowed ht, recordSet_overflowed ht]
    exact if_pos ht
  · have hinsert : ¬(t.overflowed = true ∨ insert a s = ∅) := by simp [ht]
    have hunion : t.items ∪ insert a s = insert a (t.items ∪ s) := Finset.union_insert a t.items s
    have hright : t.recordSet cap (insert a s) =
        if cap < (insert a (t.items ∪ s)).card then ⟨∅, true⟩
        else ⟨insert a (t.items ∪ s), false⟩ := by
      unfold recordSet
      rw [if_neg hinsert, hunion]
    rw [hright]
    by_cases hs : s = ∅
    · rw [hs, recordSet_empty, Finset.union_empty]
      exact if_neg ht
    · by_cases hcard : cap < (t.items ∪ s).card
      · -- given up before this element
        have hafter : cap < (insert a (t.items ∪ s)).card :=
          lt_of_lt_of_le hcard (Finset.card_le_card (Finset.subset_insert a _))
        have hleft : t.recordSet cap s = ⟨∅, true⟩ := by
          unfold recordSet
          rw [if_neg (by simp [ht, hs]), if_pos hcard]
        rw [hleft, if_pos hafter]
        rfl
      · have hleft : t.recordSet cap s = ⟨t.items ∪ s, false⟩ := by
          unfold recordSet
          rw [if_neg (by simp [ht, hs]), if_neg hcard]
        rw [hleft]
        rfl

theorem foldl_record (cap : Nat) (t : CappedSet α) (l : List α) (s : Finset α) :
    l.foldl (record cap) (t.recordSet cap s) = t.recordSet cap (s ∪ l.toFinset) := by
  induction l generalizing s with
  | nil => rw [List.foldl_nil, List.toFinset_nil, Finset.union_empty]
  | cons a l ih =>
    rw [List.foldl_cons, record_recordSet, ih, List.toFinset_cons, Finset.union_insert,
      Finset.insert_union]

/-- What is left out when the collection is full makes no difference. -/
theorem recordSet_collect (h : cap ≤ limit) (t : CappedSet α) (s : Finset α) (a : α) :
    t.recordSet cap (collect limit a s) = (t.recordSet cap s).record cap a := by
  unfold collect
  split
  · exact (record_recordSet cap t s a).symm
  · rename_i hfull
    have hmany : cap < s.card := by omega
    by_cases ht : t.overflowed = true
    · rw [recordSet_overflowed ht]
      exact (if_pos ht).symm
    · rw [recordSet_of_card (Bool.eq_false_iff.mpr ht) hmany]
      rfl

end CappedSet

end Excise
