import Mathlib.Data.List.Lex
import Mathlib.Order.Lattice
import Mathlib.Tactic.Common

/-!
# Taking the smallest head of several sorted lists

`popMin key ls` removes the head with the smallest key, the earliest one when several heads share
it. Its lemmas are the step of every k-way merge: nothing is lost, nothing is invented, and what
is taken is a lower bound of what stays.
-/

namespace Excise
set_option autoImplicit false

variable {ρ κ : Type} [LinearOrder κ]

/-- Strictly increasing keys. -/
def SortedBy (key : ρ → κ) (l : List ρ) : Prop := l.Pairwise fun a b => key a < key b

instance (key : ρ → κ) (l : List ρ) : Decidable (SortedBy key l) :=
  inferInstanceAs (Decidable (l.Pairwise _))

def popMin (key : ρ → κ) : List (List ρ) → Option (ρ × List (List ρ))
  | [] => none
  | [] :: rest => (popMin key rest).map fun r => (r.1, [] :: r.2)
  | (a :: as) :: rest =>
    match popMin key rest with
    | none => some (a, as :: rest)
    | some r => if key r.1 < key a then some (r.1, (a :: as) :: r.2) else some (a, as :: rest)

variable {key : ρ → κ}

namespace SortedBy

theorem nil : SortedBy key [] := List.Pairwise.nil

theorem tail {a : ρ} {l : List ρ} (h : SortedBy key (a :: l)) : SortedBy key l :=
  List.Pairwise.of_cons h

theorem head_le {a x : ρ} {l : List ρ} (h : SortedBy key (a :: l)) (hx : x ∈ a :: l) :
    key a ≤ key x := by
  rcases List.mem_cons.mp hx with rfl | hx
  · exact le_refl _
  · exact le_of_lt (List.rel_of_pairwise_cons h hx)

theorem nodup_keys {l : List ρ} (h : SortedBy key l) : (l.map key).Nodup := by
  rw [List.nodup_iff_pairwise_ne, List.pairwise_map]
  exact h.imp fun hab => ne_of_lt hab

/-- A sorted list is determined by its elements. -/
theorem eq_of_perm {l l' : List ρ} (h : SortedBy key l) (h' : SortedBy key l')
    (hp : l.Perm l') : l = l' := by
  refine List.Perm.eq_of_pairwise (fun a b _ _ hab hba => ?_) h h' hp
  exact absurd hab (lt_asymm hba)

/-- Sorting by the order of the keys, when no key occurs twice. -/
theorem mergeSort {le : ρ → ρ → Bool} (hle : ∀ a b, le a b = true ↔ key a ≤ key b) {l : List ρ}
    (hnodup : (l.map key).Nodup) : SortedBy key (l.mergeSort le) := by
  have hsorted : (l.mergeSort le).Pairwise fun a b => le a b = true := by
    apply List.pairwise_mergeSort
    · intro a b c hab hbc
      rw [hle] at *
      exact le_trans hab hbc
    · intro a b
      rw [Bool.or_eq_true, hle, hle]
      exact le_total (key a) (key b)
  have hdistinct : (l.mergeSort le).Pairwise fun a b => key a ≠ key b := by
    have hperm := ((List.mergeSort_perm l le).map key).nodup_iff.mpr hnodup
    rwa [List.nodup_iff_pairwise_ne, List.pairwise_map] at hperm
  exact (hsorted.and hdistinct).imp fun hab => lt_of_le_of_ne ((hle _ _).mp hab.1) hab.2

end SortedBy

section Cons

variable {a : ρ} {as : List ρ} {rest : List (List ρ)} {r : ρ × List (List ρ)}

/-- A smaller head comes later. -/
theorem popMin_cons_of_lt (h : popMin key rest = some r) (hlt : key r.1 < key a) :
    popMin key ((a :: as) :: rest) = some (r.1, (a :: as) :: r.2) := by
  rw [popMin, h]
  dsimp only
  rw [if_pos hlt]

theorem popMin_cons_of_not_lt (h : popMin key rest = some r) (hle : ¬key r.1 < key a) :
    popMin key ((a :: as) :: rest) = some (a, as :: rest) := by
  rw [popMin, h]
  dsimp only
  rw [if_neg hle]

end Cons

theorem popMin_eq_none {ls : List (List ρ)} (h : popMin key ls = none) : ls.flatten = [] := by
  induction ls with
  | nil => rfl
  | cons l rest ih =>
    cases l with
    | nil =>
      rw [popMin, Option.map_eq_none_iff] at h
      rw [List.flatten_cons, List.nil_append]
      exact ih h
    | cons a as =>
      exfalso
      rw [popMin] at h
      split at h
      · cases h
      · split at h <;> cases h

theorem popMin_perm {ls ls' : List (List ρ)} {r : ρ} (h : popMin key ls = some (r, ls')) :
    (r :: ls'.flatten).Perm ls.flatten := by
  induction ls generalizing r ls' with
  | nil => cases h
  | cons l rest ih =>
    cases l with
    | nil =>
      rw [popMin, Option.map_eq_some_iff] at h
      obtain ⟨⟨b, rest'⟩, hb, he⟩ := h
      cases he
      simpa using ih hb
    | cons a as =>
      rw [popMin] at h
      split at h
      · cases h
        exact List.Perm.refl _
      · rename_i s hs
        split at h
        · cases h
          -- the head comes from a later list: it moves over the whole first list
          have hp := @ih s.2 s.1 hs
          refine List.Perm.trans ?_ (List.Perm.append_left (a :: as) hp)
          simpa using (@List.perm_middle _ s.1 (a :: as) s.2.flatten).symm
        · cases h
          exact List.Perm.refl _

theorem popMin_sorted {ls ls' : List (List ρ)} {r : ρ} (h : popMin key ls = some (r, ls'))
    (hs : ∀ l ∈ ls, SortedBy key l) : ∀ l ∈ ls', SortedBy key l := by
  induction ls generalizing r ls' with
  | nil => cases h
  | cons l rest ih =>
    have hrest : ∀ l ∈ rest, SortedBy key l := fun l hl => hs l (List.mem_cons_of_mem _ hl)
    have hl : SortedBy key l := hs l List.mem_cons_self
    intro m hm
    cases l with
    | nil =>
      rw [popMin, Option.map_eq_some_iff] at h
      obtain ⟨⟨b, rest'⟩, hb, he⟩ := h
      cases he
      rcases List.mem_cons.mp hm with rfl | hm
      · exact hl
      · exact ih hb hrest m hm
    | cons a as =>
      rw [popMin] at h
      split at h
      · cases h
        rcases List.mem_cons.mp hm with rfl | hm
        · exact hl.tail
        · exact hrest m hm
      · rename_i s hsome
        split at h
        · cases h
          rcases List.mem_cons.mp hm with rfl | hm
          · exact hl
          · exact @ih s.2 s.1 hsome hrest m hm
        · cases h
          rcases List.mem_cons.mp hm with rfl | hm
          · exact hl.tail
          · exact hrest m hm

theorem popMin_le {ls ls' : List (List ρ)} {r : ρ} (h : popMin key ls = some (r, ls'))
    (hs : ∀ l ∈ ls, SortedBy key l) : ∀ x ∈ ls.flatten, key r ≤ key x := by
  induction ls generalizing r ls' with
  | nil => cases h
  | cons l rest ih =>
    have hrest : ∀ l ∈ rest, SortedBy key l := fun l hl => hs l (List.mem_cons_of_mem _ hl)
    have hl : SortedBy key l := hs l List.mem_cons_self
    intro x hx
    rw [List.flatten_cons, List.mem_append] at hx
    cases l with
    | nil =>
      rw [popMin, Option.map_eq_some_iff] at h
      obtain ⟨⟨b, rest'⟩, hb, he⟩ := h
      cases he
      rcases hx with hx | hx
      · cases hx
      · exact ih hb hrest x hx
    | cons a as =>
      rw [popMin] at h
      split at h
      · rename_i hnone
        cases h
        rcases hx with hx | hx
        · exact hl.head_le hx
        · rw [popMin_eq_none hnone] at hx
          cases hx
      · rename_i s hsome
        have hmin := @ih s.2 s.1 hsome hrest
        split at h
        · rename_i hlt
          cases h
          rcases hx with hx | hx
          · exact le_trans (le_of_lt hlt) (hl.head_le hx)
          · exact hmin x hx
        · rename_i hge
          cases h
          rcases hx with hx | hx
          · exact hl.head_le hx
          · exact le_trans (not_lt.mp hge) (hmin x hx)

theorem popMin_length {ls ls' : List (List ρ)} {r : ρ} (h : popMin key ls = some (r, ls')) :
    ls'.flatten.length < ls.flatten.length := by
  have hp := (popMin_perm h).length_eq
  rw [List.length_cons] at hp
  omega

end Excise
