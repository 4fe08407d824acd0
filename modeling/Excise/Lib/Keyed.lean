import Mathlib.Algebra.GroupWithZero.Nat
import Mathlib.Data.List.Nodup
import Mathlib.Tactic.Common

/-!
# Lists whose elements carry distinct keys

A sequence that is searched for the first match, changed in place there, or loses that
element. With distinct keys the change and the removal are described by membership alone.
-/

namespace Excise.Keyed
set_option autoImplicit false

universe u v w
variable {α : Type u} {κ : Type v} {key : α → κ} {p : α → Bool} {f : α → α} {l : List α} {a b : α}

/-- Replaces the first element that satisfies `p` by its image. -/
def updateFirst (p : α → Bool) (f : α → α) : List α → List α
  | [] => []
  | x :: xs => if p x then f x :: xs else x :: updateFirst p f xs

/-- Two updates of the same element are one. -/
theorem updateFirst_updateFirst {g : α → α} (h : ∀ x, p (f x) = p x) :
    updateFirst p g (updateFirst p f l) = updateFirst p (fun x => g (f x)) l := by
  induction l with
  | nil => rfl
  | cons x xs ih =>
    cases hx : p x with
    | true => simp [updateFirst, hx, h]
    | false => simp [updateFirst, hx, ih]

/-- A column the update leaves alone. -/
theorem map_updateFirst_of_mem {β : Type w} {g : α → β}
    (h : ∀ x ∈ l, p x = true → g (f x) = g x) : (updateFirst p f l).map g = l.map g := by
  induction l with
  | nil => rfl
  | cons x xs ih =>
    unfold updateFirst
    split
    · rw [List.map_cons, List.map_cons, h x List.mem_cons_self ‹_›]
    · rw [List.map_cons, List.map_cons, ih fun y hy => h y (List.mem_cons_of_mem x hy)]

theorem map_updateFirst {β : Type w} {g : α → β} (h : ∀ x, g (f x) = g x) :
    (updateFirst p f l).map g = l.map g := map_updateFirst_of_mem fun x _ _ => h x

/-- What the update changes of a total. -/
theorem sum_updateFirst {w : α → Nat} (hfind : l.find? p = some a) :
    ((updateFirst p f l).map w).sum + w a = (l.map w).sum + w (f a) := by
  induction l with
  | nil => simp at hfind
  | cons x xs ih =>
    rw [List.find?_cons] at hfind
    split at hfind
    · rename_i hx
      obtain rfl := Option.some.inj hfind
      simp only [updateFirst, hx, if_true, List.map_cons, List.sum_cons]
      omega
    · rename_i hx
      have hrest := ih hfind
      simp only [updateFirst, hx, Bool.false_eq_true, if_false, List.map_cons, List.sum_cons]
      omega

theorem sum_eraseP {w : α → Nat} (hfind : l.find? p = some a) :
    ((l.eraseP p).map w).sum + w a = (l.map w).sum := by
  induction l with
  | nil => simp at hfind
  | cons x xs ih =>
    rw [List.find?_cons] at hfind
    split at hfind
    · rename_i hx
      obtain rfl := Option.some.inj hfind
      rw [List.eraseP_cons_of_pos hx, List.map_cons, List.sum_cons, Nat.add_comm]
    · rename_i hx
      have hrest := ih hfind
      rw [List.eraseP_cons_of_neg (by simp [hx]), List.map_cons, List.map_cons, List.sum_cons,
        List.sum_cons]
      omega

theorem key_ne_of_nodup {x : α} {xs : List α} (hnodup : ((x :: xs).map key).Nodup) (hb : b ∈ xs) :
    key b ≠ key x := by
  intro heq
  rw [List.map_cons, List.nodup_cons] at hnodup
  exact hnodup.1 (heq ▸ List.mem_map_of_mem hb)

theorem mem_updateFirst (hnodup : (l.map key).Nodup) (hfind : l.find? p = some a) :
    b ∈ updateFirst p f l ↔ b = f a ∨ (b ∈ l ∧ key b ≠ key a) := by
  induction l with
  | nil => simp at hfind
  | cons x xs ih =>
    rw [List.find?_cons] at hfind
    split at hfind
    · rename_i hx
      obtain rfl := Option.some.inj hfind
      simp only [updateFirst, hx, if_true, List.mem_cons]
      constructor
      · rintro (rfl | hb)
        · exact Or.inl rfl
        · exact Or.inr ⟨Or.inr hb, key_ne_of_nodup hnodup hb⟩
      · rintro (rfl | ⟨rfl | hb, hne⟩)
        · exact Or.inl rfl
        · exact absurd rfl hne
        · exact Or.inr hb
    · rename_i hx
      have hrest := ih (List.nodup_cons.mp hnodup).2 hfind
      have hne := key_ne_of_nodup hnodup (List.mem_of_find?_eq_some hfind)
      simp only [updateFirst, hx, Bool.false_eq_true, if_false, List.mem_cons, hrest]
      constructor
      · rintro (rfl | rfl | ⟨hb, hbne⟩)
        · exact Or.inr ⟨Or.inl rfl, hne.symm⟩
        · exact Or.inl rfl
        · exact Or.inr ⟨Or.inr hb, hbne⟩
      · rintro (rfl | ⟨rfl | hb, hbne⟩)
        · exact Or.inr (Or.inl rfl)
        · exact Or.inl rfl
        · exact Or.inr (Or.inr ⟨hb, hbne⟩)

theorem mem_eraseP (hnodup : (l.map key).Nodup) (hfind : l.find? p = some a) :
    b ∈ l.eraseP p ↔ b ∈ l ∧ key b ≠ key a := by
  induction l with
  | nil => simp at hfind
  | cons x xs ih =>
    rw [List.find?_cons] at hfind
    split at hfind
    · rename_i hx
      obtain rfl := Option.some.inj hfind
      rw [List.eraseP_cons_of_pos hx, List.mem_cons]
      constructor
      · exact fun hb => ⟨Or.inr hb, key_ne_of_nodup hnodup hb⟩
      · rintro ⟨rfl | hb, hne⟩
        · exact absurd rfl hne
        · exact hb
    · rename_i hx
      have hrest := ih (List.nodup_cons.mp hnodup).2 hfind
      have hne := key_ne_of_nodup hnodup (List.mem_of_find?_eq_some hfind)
      rw [List.eraseP_cons_of_neg (by simp [hx]), List.mem_cons, hrest, List.mem_cons]
      constructor
      · rintro (rfl | ⟨hb, hbne⟩)
        · exact ⟨Or.inl rfl, hne.symm⟩
        · exact ⟨Or.inr hb, hbne⟩
      · rintro ⟨rfl | hb, hbne⟩
        · exact Or.inl rfl
        · exact Or.inr ⟨hb, hbne⟩

theorem nodup_eraseP (hnodup : (l.map key).Nodup) : ((l.eraseP p).map key).Nodup :=
  hnodup.sublist (List.eraseP_sublist.map key)

theorem eq_of_key_eq (hnodup : (l.map key).Nodup) (ha : a ∈ l) (hb : b ∈ l)
    (h : key a = key b) : a = b :=
  List.inj_on_of_nodup_map hnodup ha hb h

theorem find?_key [DecidableEq κ] (hnodup : (l.map key).Nodup) (ha : a ∈ l) :
    l.find? (fun x => key x = key a) = some a := by
  cases hfind : l.find? (fun x => key x = key a) with
  | none =>
    rw [List.find?_eq_none] at hfind
    exact absurd (hfind a ha) (by simp)
  | some b =>
    have hb := List.find?_some hfind
    rw [decide_eq_true_eq] at hb
    rw [eq_of_key_eq hnodup (List.mem_of_find?_eq_some hfind) ha hb]

/-- Elements with a property that only one key has are at most one. -/
theorem length_filter_le_one (hnodup : (l.map key).Nodup)
    (h : ∀ a ∈ l, ∀ b ∈ l, p a = true → p b = true → key a = key b) : (l.filter p).length ≤ 1 := by
  have hsub : ((l.filter p).map key).Nodup := hnodup.sublist (List.filter_sublist.map key)
  rcases hl : l.filter p with _ | ⟨x, _ | ⟨y, zs⟩⟩
  · simp
  · simp
  · rw [hl] at hsub
    have hx : x ∈ l.filter p := by simp [hl]
    have hy : y ∈ l.filter p := by simp [hl]
    rw [List.mem_filter] at hx hy
    exact absurd (h y hy.1 x hx.1 hy.2 hx.2) (key_ne_of_nodup hsub List.mem_cons_self)

/-- With distinct keys a key selects exactly one element. -/
theorem filter_key_eq_singleton [DecidableEq κ] (hnodup : (l.map key).Nodup) (ha : a ∈ l) :
    l.filter (fun x => key x = key a) = [a] := by
  induction l with
  | nil => simp at ha
  | cons x xs ih =>
    rcases List.mem_cons.mp ha with rfl | ha
    · have hrest : xs.filter (fun x => key x = key a) = [] := by
        rw [List.filter_eq_nil_iff]
        intro b hb
        simpa using key_ne_of_nodup hnodup hb
      simp [hrest]
    · have hne := key_ne_of_nodup hnodup ha
      rw [List.filter_cons_of_neg (by simpa using hne.symm)]
      exact ih (List.nodup_cons.mp hnodup).2 ha

end Excise.Keyed
