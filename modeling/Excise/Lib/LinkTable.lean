import Mathlib.Data.List.Dedup
import Mathlib.Logic.Function.Basic
import Mathlib.Tactic.Common

/-!
# Names and the objects they hold

An object that was made once is not made again. It is named while some name holds it; a list of
places has every name in use, so that links can be counted.
-/

namespace Excise
set_option autoImplicit false

universe u v

structure LinkTable (κ : Type u) (ω : Type v) where
  names : κ → Option ω
  places : List κ
  used : List ω
  covers : ∀ p, names p ≠ none → p ∈ places
  known : ∀ p x, names p = some x → x ∈ used

namespace LinkTable
variable {κ : Type u} {ω : Type v} (t : LinkTable κ ω)

def Named (x : ω) : Prop := ∃ p, t.names p = some x

/-- What a name holds. -/
def object (p : κ) : Option { x : ω // x ∈ t.used } :=
  match h : t.names p with
  | none => none
  | some x => some ⟨x, t.known p x h⟩

variable {t} in
theorem object_eq_some {p : κ} {o : { x : ω // x ∈ t.used }} (h : t.object p = some o) :
    t.names p = some o.1 := by
  unfold object at h
  split at h
  · cases h
  · rename_i x hx
    obtain rfl := Option.some.inj h
    exact hx

variable [DecidableEq κ]

def put (p : κ) (x : ω) (hx : x ∈ t.used) : LinkTable κ ω where
  names := Function.update t.names p (some x)
  places := p :: t.places
  used := t.used
  covers q hq := by
    by_cases hqp : q = p
    · exact hqp ▸ List.mem_cons_self
    · rw [Function.update_of_ne hqp] at hq
      exact List.mem_cons_of_mem _ (t.covers q hq)
  known q y hy := by
    by_cases hqp : q = p
    · rw [hqp, Function.update_self] at hy
      exact Option.some.inj hy ▸ hx
    · rw [Function.update_of_ne hqp] at hy
      exact t.known q y hy

def clear (p : κ) : LinkTable κ ω where
  names := Function.update t.names p none
  places := t.places
  used := t.used
  covers q hq := by
    by_cases hqp : q = p
    · rw [hqp, Function.update_self] at hq
      exact absurd rfl hq
    · rw [Function.update_of_ne hqp] at hq
      exact t.covers q hq
  known q y hy := by
    by_cases hqp : q = p
    · rw [hqp, Function.update_self] at hy
      cases hy
    · rw [Function.update_of_ne hqp] at hy
      exact t.known q y hy

/-- One object more, which no name holds. -/
def grow (x : ω) : LinkTable κ ω where
  names := t.names
  places := t.places
  used := x :: t.used
  covers := t.covers
  known p y h := List.mem_cons_of_mem _ (t.known p y h)

/-- A new object under a name. -/
def create (p : κ) (x : ω) : LinkTable κ ω := (t.grow x).put p x List.mem_cons_self

def link (p q : κ) : LinkTable κ ω :=
  match t.object p with
  | none => t
  | some x => t.put q x.1 x.2

/-- The objects of two names, the other way round. -/
def exchange (p q : κ) : Option (LinkTable κ ω) :=
  match t.object p, t.object q with
  | some x, some y => some ((t.put p y.1 y.2).put q x.1 x.2)
  | _, _ => none

/-- A rename that replaces nothing. -/
def rename (p q : κ) : Option (LinkTable κ ω) :=
  match t.object p, t.names q with
  | some x, none => some ((t.clear p).put q x.1 x.2)
  | _, _ => none

/-- The names that hold an object. -/
def links [DecidableEq ω] (x : ω) : Nat := (t.places.dedup.filter fun p => decide (t.names p = some x)).length

variable {t} {t' : LinkTable κ ω} {p q : κ} {x y : ω}

theorem links_eq_zero [DecidableEq ω] : t.links x = 0 ↔ ¬t.Named x := by
  unfold links
  rw [List.length_eq_zero_iff, List.filter_eq_nil_iff]
  constructor
  · rintro hnone ⟨p, hp⟩
    have hplace : p ∈ t.places := t.covers p (by rw [hp]; exact Option.some_ne_none x)
    exact hnone p (List.mem_dedup.mpr hplace) (decide_eq_true hp)
  · intro hunnamed p _ hp
    exact hunnamed ⟨p, of_decide_eq_true hp⟩

/-! ## Which objects keep a name -/

@[simp] theorem names_put (hx : x ∈ t.used) :
    (t.put p x hx).names = Function.update t.names p (some x) := rfl

@[simp] theorem names_clear : (t.clear p).names = Function.update t.names p none := rfl

theorem Named.of_put {hx : x ∈ t.used} (h : (t.put p x hx).Named y) : y = x ∨ t.Named y := by
  obtain ⟨q, hq⟩ := h
  rw [names_put] at hq
  by_cases hqp : q = p
  · rw [hqp, Function.update_self] at hq
    exact Or.inl (Option.some.inj hq).symm
  · rw [Function.update_of_ne hqp] at hq
    exact Or.inr ⟨q, hq⟩

theorem Named.of_clear (h : (t.clear p).Named y) : t.Named y := by
  obtain ⟨q, hq⟩ := h
  rw [names_clear] at hq
  by_cases hqp : q = p
  · rw [hqp, Function.update_self] at hq
    cases hq
  · rw [Function.update_of_ne hqp] at hq
    exact ⟨q, hq⟩

theorem Named.clear (h : t.Named y) : (t.clear p).Named y ∨ t.names p = some y := by
  obtain ⟨q, hq⟩ := h
  by_cases hqp : q = p
  · exact Or.inr (hqp ▸ hq)
  · refine Or.inl ⟨q, ?_⟩
    rw [names_clear, Function.update_of_ne hqp]
    exact hq

theorem Named.put {hx : x ∈ t.used} (h : t.Named y) :
    (t.put p x hx).Named y ∨ t.names p = some y := by
  obtain ⟨q, hq⟩ := h
  by_cases hqp : q = p
  · exact Or.inr (hqp ▸ hq)
  · refine Or.inl ⟨q, ?_⟩
    rw [names_put, Function.update_of_ne hqp]
    exact hq

theorem Named.of_link (h : (t.link p q).Named y) : t.Named y := by
  unfold link at h
  split at h
  · exact h
  · rename_i x hx
    rcases h.of_put with rfl | hnamed
    · exact ⟨p, object_eq_some hx⟩
    · exact hnamed

theorem Named.of_create (h : (t.create p x).Named y) : y = x ∨ t.Named y := h.of_put

/-- A new object under a free name takes no name away. -/
theorem Named.create (h : t.Named y) (hfree : t.names p = none) : (t.create p x).Named y := by
  have hgrown : (t.grow x).Named y := h
  have hkept : (t.create p x).Named y ∨ (t.grow x).names p = some y := hgrown.put
  rcases hkept with hkept | hheld
  · exact hkept
  · cases hfree.symm.trans hheld

theorem names_exchange (h : t.exchange p q = some t') :
    ∃ x y, t.names p = some x ∧ t.names q = some y ∧ t'.used = t.used ∧
      t'.names = Function.update (Function.update t.names p (some y)) q (some x) := by
  unfold exchange at h
  split at h
  · rename_i x y hx hy
    refine ⟨x.1, y.1, object_eq_some hx, object_eq_some hy, ?_, ?_⟩
    · rw [← Option.some.inj h]
      rfl
    · rw [← Option.some.inj h]
      rfl
  · cases h

theorem names_rename (h : t.rename p q = some t') :
    ∃ x, t.names p = some x ∧ t.names q = none ∧ t'.used = t.used ∧
      t'.names = Function.update (Function.update t.names p none) q (some x) := by
  unfold rename at h
  split at h
  · rename_i x hx hq
    refine ⟨x.1, object_eq_some hx, hq, ?_, ?_⟩
    · rw [← Option.some.inj h]
      rfl
    · rw [← Option.some.inj h]
      rfl
  · cases h

theorem named_exchange (h : t.exchange p q = some t') : t'.Named y ↔ t.Named y := by
  obtain ⟨x, z, hx, hz, -, hnames⟩ := names_exchange h
  constructor
  · rintro ⟨r, hr⟩
    rw [hnames] at hr
    by_cases hrq : r = q
    · rw [hrq, Function.update_self] at hr
      exact ⟨p, hx.trans hr⟩
    · rw [Function.update_of_ne hrq] at hr
      by_cases hrp : r = p
      · rw [hrp, Function.update_self] at hr
        exact ⟨q, hz.trans hr⟩
      · rw [Function.update_of_ne hrp] at hr
        exact ⟨r, hr⟩
  · rintro ⟨r, hr⟩
    by_cases hrp : r = p
    · subst hrp
      refine ⟨q, ?_⟩
      rw [hnames, Function.update_self, ← hx, hr]
    · by_cases hrq : r = q
      · subst hrq
        refine ⟨p, ?_⟩
        rw [hnames, Function.update_of_ne (Ne.symm hrp), Function.update_self, ← hz, hr]
      · refine ⟨r, ?_⟩
        rw [hnames, Function.update_of_ne hrq, Function.update_of_ne hrp, hr]

theorem named_rename (h : t.rename p q = some t') : t'.Named y ↔ t.Named y := by
  obtain ⟨x, hx, hq, -, hnames⟩ := names_rename h
  constructor
  · rintro ⟨r, hr⟩
    rw [hnames] at hr
    by_cases hrq : r = q
    · rw [hrq, Function.update_self] at hr
      exact ⟨p, hx.trans hr⟩
    · rw [Function.update_of_ne hrq] at hr
      by_cases hrp : r = p
      · rw [hrp, Function.update_self] at hr
        cases hr
      · rw [Function.update_of_ne hrp] at hr
        exact ⟨r, hr⟩
  · rintro ⟨r, hr⟩
    by_cases hrp : r = p
    · subst hrp
      refine ⟨q, ?_⟩
      rw [hnames, Function.update_self, ← hx, hr]
    · have hrq : r ≠ q := by
        rintro rfl
        cases hq.symm.trans hr
      refine ⟨r, ?_⟩
      rw [hnames, Function.update_of_ne hrq, Function.update_of_ne hrp, hr]

end LinkTable

end Excise
