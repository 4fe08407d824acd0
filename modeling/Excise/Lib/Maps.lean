import Mathlib.Tactic.Linarith

/-!
# Ordered maps and sets over a linear order

The lookup rules of `Std.TreeMap` and `Std.TreeSet` with key equality in place of
`compare`, and the two facts about erasing a list of keys that a sweep over a map needs:
what is left, and how many entries went.
-/

namespace Excise.Maps
set_option autoImplicit false

universe u v
variable {κ : Type u} {β : Type v} [LinearOrder κ]

theorem getElem?_insert (m : Std.TreeMap κ β) (k a : κ) (x : β) :
    (m.insert k x)[a]? = if k = a then some x else m[a]? := by
  simp [Std.TreeMap.getElem?_insert]

theorem getElem?_erase (m : Std.TreeMap κ β) (k a : κ) :
    (m.erase k)[a]? = if k = a then none else m[a]? := by
  simp [Std.TreeMap.getElem?_erase]

theorem mem_set_insert (s : Std.TreeSet κ) (k a : κ) : a ∈ s.insert k ↔ a = k ∨ a ∈ s := by
  rw [Std.TreeSet.mem_insert, compare_eq_iff_eq, eq_comm]

theorem mem_set_erase (s : Std.TreeSet κ) (k a : κ) : a ∈ s.erase k ↔ a ∈ s ∧ a ≠ k := by
  rw [Std.TreeSet.mem_erase, Ne, compare_eq_iff_eq, and_comm, eq_comm]

theorem mem_iff (m : Std.TreeMap κ β) (a : κ) : a ∈ m ↔ ∃ x, m[a]? = some x := by
  rw [Std.TreeMap.mem_iff_isSome_getElem?, Option.isSome_iff_exists]

theorem not_mem_iff (m : Std.TreeMap κ β) (a : κ) : a ∉ m ↔ m[a]? = none := by
  rw [Std.TreeMap.mem_iff_isSome_getElem?]
  simp

theorem size_erase_of_mem {m : Std.TreeMap κ β} {k : κ} (h : k ∈ m) :
    (m.erase k).size + 1 = m.size := by
  have hpos : m.size ≠ 0 := by
    intro h0
    have he : m.isEmpty = true := by simp [Std.TreeMap.isEmpty_eq_size_eq_zero, h0]
    exact Std.TreeMap.isEmpty_iff_forall_not_mem.mp he k h
  rw [Std.TreeMap.size_erase, if_pos (Std.TreeMap.mem_iff_contains.mp h)]
  omega

theorem size_insert_of_not_mem {m : Std.TreeMap κ β} {k : κ} {x : β} (h : k ∉ m) :
    (m.insert k x).size = m.size + 1 := by
  rw [Std.TreeMap.size_insert, if_neg]
  exact fun hc => h (Std.TreeMap.mem_iff_contains.mpr hc)

theorem size_insert_of_mem {m : Std.TreeMap κ β} {k : κ} {x : β} (h : k ∈ m) :
    (m.insert k x).size = m.size := by
  rw [Std.TreeMap.size_insert, if_pos (Std.TreeMap.mem_iff_contains.mp h)]

theorem mem_set_toList (s : Std.TreeSet κ) (a : κ) : a ∈ s.toList ↔ a ∈ s :=
  Std.TreeSet.mem_toList

/-- Erasing every key of a list, in order. -/
def eraseAll (m : Std.TreeMap κ β) (ks : List κ) : Std.TreeMap κ β := ks.foldl (·.erase ·) m

theorem getElem?_eraseAll (m : Std.TreeMap κ β) (ks : List κ) (a : κ) :
    (eraseAll m ks)[a]? = if a ∈ ks then none else m[a]? := by
  induction ks generalizing m with
  | nil => simp [eraseAll]
  | cons k ks ih =>
    have h := ih (m.erase k)
    simp only [eraseAll, List.foldl_cons] at h ⊢
    rw [h, getElem?_erase]
    by_cases hk : k = a
    · simp [hk]
    · simp [hk, Ne.symm hk]

theorem size_eraseAll {m : Std.TreeMap κ β} {ks : List κ} (hnodup : ks.Nodup)
    (hmem : ∀ k ∈ ks, k ∈ m) : (eraseAll m ks).size + ks.length = m.size := by
  induction ks generalizing m with
  | nil => simp [eraseAll]
  | cons k ks ih =>
    obtain ⟨hk, hnodup⟩ := List.nodup_cons.mp hnodup
    have hrest : ∀ a ∈ ks, a ∈ m.erase k := by
      intro a ha
      have hne : k ≠ a := fun h => hk (h ▸ ha)
      rw [mem_iff, getElem?_erase, if_neg hne, ← mem_iff]
      exact hmem a (List.mem_cons_of_mem k ha)
    have hsize := ih hnodup hrest
    have herase := size_erase_of_mem (hmem k List.mem_cons_self)
    simp only [eraseAll, List.foldl_cons, List.length_cons] at hsize ⊢
    omega

theorem nodup_keys (m : Std.TreeMap κ β) : (m.toList.map Prod.fst).Nodup := by
  rw [List.Nodup, List.pairwise_map]
  refine m.ordered_keys_toList.imp ?_
  intro a b hab heq
  rw [heq, compare_lt_iff_lt] at hab
  exact lt_irrefl _ hab

theorem mem_toList (m : Std.TreeMap κ β) (k : κ) (x : β) : (k, x) ∈ m.toList ↔ m[k]? = some x :=
  Std.TreeMap.mem_toList_iff_getElem?_eq_some

end Excise.Maps
