import Mathlib.Data.List.Basic
import Mathlib.Tactic.Common

/-!
# Folds that may fail

Invariants of `foldlM` in `Except`: what holds at the start and survives every accepted element
holds at the end, with the elements consumed so far at hand.
-/

namespace Excise
set_option autoImplicit false

variable {α β ε σ : Type}

theorem bind_eq_ok {x : Except ε α} {f : α → Except ε β} {b : β} (h : x.bind f = .ok b) :
    ∃ a, x = .ok a ∧ f a = .ok b := by
  cases x with
  | error e => cases h
  | ok a => exact ⟨a, rfl, h⟩

theorem map_eq_ok {x : Except ε α} {f : α → β} {b : β} (h : x.map f = .ok b) :
    ∃ a, x = .ok a ∧ f a = b := by
  cases x with
  | error e => cases h
  | ok a =>
    cases h
    exact ⟨a, rfl, rfl⟩

theorem foldlM_cons_ok {f : σ → α → Except ε σ} {a : α} {l : List α} {s s' : σ}
    (h : (a :: l).foldlM f s = .ok s') : ∃ m, f s a = .ok m ∧ l.foldlM f m = .ok s' := by
  rw [List.foldlM_cons] at h
  exact bind_eq_ok h

/-- The fold rule. -/
theorem foldlM_ok {f : σ → α → Except ε σ} {P : List α → σ → Prop} {l : List α} {s s' : σ}
    (h : l.foldlM f s = .ok s') (init : P [] s)
    (step : ∀ done s a s', P done s → f s a = .ok s' → P (done ++ [a]) s') : P l s' := by
  have go : ∀ (l done : List α) (s : σ), P done s → l.foldlM f s = .ok s' → P (done ++ l) s' := by
    intro l
    induction l with
    | nil =>
      intro done s hs hl
      cases hl
      rw [List.append_nil]
      exact hs
    | cons a l ih =>
      intro done s hs hl
      obtain ⟨m, hm, hrest⟩ := foldlM_cons_ok hl
      have hnext := ih (done ++ [a]) m (step done s a m hs hm) hrest
      rwa [List.append_assoc, List.singleton_append] at hnext
  exact go l [] s init h

/-- A fold that is never refused. -/
theorem foldlM_total {f : σ → α → Except ε σ} {P : List α → σ → Prop} {l : List α} {s : σ}
    (init : P [] s) (step : ∀ done a rest s, l = done ++ a :: rest → P done s →
      ∃ s', f s a = .ok s' ∧ P (done ++ [a]) s') : ∃ s', l.foldlM f s = .ok s' := by
  have go : ∀ (rest done : List α) (s : σ), l = done ++ rest → P done s →
      ∃ s', rest.foldlM f s = .ok s' := by
    intro rest
    induction rest with
    | nil => exact fun _ s _ _ => ⟨s, rfl⟩
    | cons a rest ih =>
      intro done s hl hs
      obtain ⟨m, hm, hP⟩ := step done a rest s hl hs
      obtain ⟨s', hs'⟩ := ih (done ++ [a]) m
        (by rw [List.append_assoc, List.singleton_append]; exact hl) hP
      refine ⟨s', ?_⟩
      rw [List.foldlM_cons, hm]
      exact hs'
  exact go l [] s rfl init

/-- Decoding element by element. -/
theorem mapM_eq_ok {f : α → Except ε β} {l : List α} {l' : List β} (h : l.mapM f = .ok l') :
    List.Forall₂ (fun a b => f a = .ok b) l l' := by
  induction l generalizing l' with
  | nil =>
    cases h
    exact .nil
  | cons a l ih =>
    rw [List.mapM_cons] at h
    obtain ⟨b, hb, h⟩ := bind_eq_ok h
    obtain ⟨bs, hbs, h⟩ := bind_eq_ok h
    cases h
    exact .cons hb (ih hbs)

theorem bind_eq_error {x : Except ε α} {f : α → Except ε β} {e : ε} (h : x.bind f = .error e) :
    x = .error e ∨ ∃ a, x = .ok a ∧ f a = .error e := by
  cases x with
  | error e' =>
    cases h
    exact Or.inl rfl
  | ok a => exact Or.inr ⟨a, rfl, h⟩

theorem mapM_eq_error {f : α → Except ε β} {l : List α} {e : ε} (h : l.mapM f = .error e) :
    ∃ a ∈ l, f a = .error e := by
  induction l with
  | nil => cases h
  | cons a l ih =>
    rw [List.mapM_cons] at h
    rcases bind_eq_error h with ha | ⟨b, -, h⟩
    · exact ⟨a, List.mem_cons_self, ha⟩
    · rcases bind_eq_error h with hl | ⟨bs, -, h⟩
      · obtain ⟨c, hc, he⟩ := ih hl
        exact ⟨c, List.mem_cons_of_mem _ hc, he⟩
      · cases h

/-- Checking every element, when the check only adds its own evidence. -/
theorem mapM_eq_some_iff_map {f : α → Option β} {g : β → α} (h : ∀ a b, f a = some b ↔ g b = a)
    (l : List α) (l' : List β) : l.mapM f = some l' ↔ l'.map g = l := by
  induction l generalizing l' with
  | nil => simp [eq_comm (a := ([] : List β))]
  | cons a l ih =>
    rw [List.mapM_cons, Option.bind_eq_bind, Option.bind_eq_some_iff]
    constructor
    · rintro ⟨b, hb, hrest⟩
      obtain ⟨tail, htail, heq⟩ := Option.bind_eq_some_iff.mp hrest
      cases heq
      rw [List.map_cons, (h a b).mp hb, (ih tail).mp htail]
    · intro hmap
      obtain ⟨b, tail, rfl, hb, htail⟩ := List.map_eq_cons_iff.mp hmap
      exact ⟨b, (h a b).mpr hb, Option.bind_eq_some_iff.mpr ⟨tail, (ih tail).mpr htail, rfl⟩⟩

theorem forall₂_set {R : α → β → Prop} {l : List α} {l' : List β} (h : List.Forall₂ R l l') {i : Nat}
    {a : α} {b : β} (hab : R a b) : List.Forall₂ R (l.set i a) (l'.set i b) := by
  induction h generalizing i with
  | nil => exact List.Forall₂.nil
  | cons hhead htail ih =>
    cases i with
    | zero => exact List.Forall₂.cons hab htail
    | succ i => exact List.Forall₂.cons hhead ih

/-- Every call succeeds, with the relation between its argument and its result. -/
theorem mapM_forall₂ {f : α → Except ε β} {R : α → β → Prop} {l : List α}
    (h : ∀ a ∈ l, ∃ b, f a = .ok b ∧ R a b) : ∃ l', l.mapM f = .ok l' ∧ List.Forall₂ R l l' := by
  induction l with
  | nil => exact ⟨[], rfl, List.Forall₂.nil⟩
  | cons a l ih =>
    obtain ⟨ha, hl⟩ := List.forall_mem_cons.mp h
    obtain ⟨b, hb, hab⟩ := ha
    obtain ⟨l', hl', hrel⟩ := ih hl
    refine ⟨b :: l', ?_, List.Forall₂.cons hab hrel⟩
    rw [List.mapM_cons, hb, hl']
    rfl

theorem forall₂_mem {R : α → β → Prop} {l : List α} {l' : List β} (h : List.Forall₂ R l l') {a : α}
    (ha : a ∈ l) : ∃ b ∈ l', R a b := by
  induction h with
  | nil => cases ha
  | cons hhead _ ih =>
    rcases List.mem_cons.mp ha with rfl | ha
    · exact ⟨_, List.mem_cons_self, hhead⟩
    · obtain ⟨b, hb, hab⟩ := ih ha
      exact ⟨b, List.mem_cons_of_mem _ hb, hab⟩

end Excise
