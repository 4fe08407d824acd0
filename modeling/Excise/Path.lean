import Mathlib.Data.List.Infix
import Mathlib.Data.List.Lex
import Mathlib.Order.Lattice
import Mathlib.Tactic.Common

/-!
# Root-relative paths

`RelativePath` is a list of native components, ordered component by component as
`impl Ord for RelativePath` does (Unix: a component is a byte string). A component
carries the check of `from_components`, so a prefix of a path is a path.
-/

namespace Excise
set_option autoImplicit false

/-- An `OsString` on Unix: arbitrary bytes. -/
abbrev OsString := List UInt8

/-- A native path as the sequence of its components. -/
abbrev NativePath := List OsString

/-- `Path::new(component).components()` yields exactly this one normal component. -/
def ValidComponent (c : OsString) : Prop :=
  c ≠ [] ∧ (0x2F : UInt8) ∉ c ∧ c ≠ [0x2E] ∧ c ≠ [0x2E, 0x2E]

instance (c : OsString) : Decidable (ValidComponent c) :=
  inferInstanceAs (Decidable (_ ∧ _))

theorem valid_a : ValidComponent [0x61] := by decide

theorem valid_b : ValidComponent [0x62] := by decide

theorem valid_c : ValidComponent [0x63] := by decide

theorem valid_d : ValidComponent [0x64] := by decide

structure Component where
  bytes : OsString
  valid : ValidComponent bytes

theorem component_ext {a b : Component} (h : a.bytes = b.bytes) : a = b := by
  cases a; cases b; simp_all

instance byteOrder : LinearOrder UInt8 := LinearOrder.lift' UInt8.toNat fun _ _ h => UInt8.toNat.inj h

instance : LinearOrder Component := LinearOrder.lift' Component.bytes fun _ _ h => component_ext h

structure RelativePath where
  components : List Component

theorem RelativePath.ext_components {p q : RelativePath} (h : p.components = q.components) :
    p = q := by
  cases p; cases q; simp_all

instance : LinearOrder RelativePath :=
  LinearOrder.lift' RelativePath.components fun _ _ h => RelativePath.ext_components h

section Lists

variable {α : Type} [LinearOrder α]

theorem cons_lt_cons {x y : α} {xs ys : List α} : x :: xs < y :: ys ↔ x < y ∨ x = y ∧ xs < ys :=
  List.cons_lex_cons_iff

theorem le_of_extended {a b : List α} (h : a <+: b) : a ≤ b := by
  apply not_lt.mp
  induction a generalizing b with
  | nil => exact List.not_lex_nil
  | cons x xs ih =>
    obtain ⟨t, rfl⟩ := h
    rw [List.cons_append, cons_lt_cons]
    rintro (hlt | ⟨-, hlt⟩)
    · exact lt_irrefl _ hlt
    · exact ih (List.prefix_append xs t) hlt

/-- What extends `a` comes before whatever follows `a` without extending it. -/
theorem lt_of_not_extended {a b c : List α} (hab : a < b) (hn : ¬a <+: b)
    (hc : a <+: c) : c < b := by
  induction a generalizing b c with
  | nil => exact absurd List.nil_prefix hn
  | cons x xs ih =>
    obtain ⟨t, rfl⟩ := hc
    cases b with
    | nil => exact absurd hab List.not_lex_nil
    | cons y ys =>
      rw [List.cons_append, cons_lt_cons]
      rcases cons_lt_cons.mp hab with hlt | ⟨rfl, hlt⟩
      · exact Or.inl hlt
      · refine Or.inr ⟨rfl, ih hlt (fun hp => hn ?_) (List.prefix_append xs t)⟩
        exact List.cons_prefix_cons.mpr ⟨rfl, hp⟩

end Lists

namespace RelativePath

def root : RelativePath := ⟨[]⟩

def isRoot (p : RelativePath) : Bool := p.components.isEmpty

def depth (p : RelativePath) : Nat := p.components.length

def startsWith (p pre : RelativePath) : Bool := pre.components.isPrefixOf p.components

def isDirectChildOf (p parent : RelativePath) : Bool :=
  p.depth == parent.depth + 1 && p.startsWith parent

/-- `relative_parent`: the root has none. -/
def relativeParent (p : RelativePath) : Option RelativePath :=
  if p.isRoot then none else some ⟨p.components.dropLast⟩

@[simp] theorem isRoot_iff (p : RelativePath) : p.isRoot = true ↔ p = root := by
  cases p with
  | mk cs => simp [isRoot, root]

@[simp] theorem startsWith_iff (p pre : RelativePath) :
    p.startsWith pre = true ↔ pre.components <+: p.components := by
  simp [startsWith]

theorem startsWith_refl (p : RelativePath) : p.startsWith p = true := by simp

theorem startsWith_trans {p q r : RelativePath} (hpq : p.startsWith q = true)
    (hqr : q.startsWith r = true) : p.startsWith r = true := by
  rw [startsWith_iff] at *
  exact hqr.trans hpq

theorem startsWith_antisymm {p q : RelativePath} (hpq : p.startsWith q = true)
    (hqp : q.startsWith p = true) : p = q := by
  rw [startsWith_iff] at *
  exact ext_components (hqp.eq_of_length_le hpq.length_le)

theorem le_of_startsWith {p q : RelativePath} (h : p.startsWith q = true) : q ≤ p := by
  rw [startsWith_iff] at h
  exact le_of_extended h

/-- A subtree is an interval of the path order. -/
theorem lt_of_startsWith_of_not {d p q : RelativePath} (h : d < p) (hn : p.startsWith d = false)
    (hq : q.startsWith d = true) : q < p := by
  rw [startsWith_iff] at hq
  rw [← Bool.not_eq_true, startsWith_iff] at hn
  exact lt_of_not_extended h hn hq

theorem isDirectChildOf_iff {p parent : RelativePath} :
    p.isDirectChildOf parent = true ↔ ∃ c, p.components = parent.components ++ [c] := by
  unfold isDirectChildOf depth
  rw [Bool.and_eq_true, beq_iff_eq, startsWith_iff]
  constructor
  · rintro ⟨hlength, tail, htail⟩
    rw [← htail, List.length_append] at hlength
    obtain ⟨c, rfl⟩ := List.length_eq_one_iff.mp (show tail.length = 1 by omega)
    exact ⟨c, htail.symm⟩
  · rintro ⟨c, hc⟩
    rw [hc]
    exact ⟨by simp, List.prefix_append _ _⟩

theorem relativeParent_eq_some {p parent : RelativePath} :
    p.relativeParent = some parent ↔ p.isDirectChildOf parent = true := by
  rw [isDirectChildOf_iff]
  unfold relativeParent isRoot
  rcases List.eq_nil_or_concat p.components with hnil | ⟨front, c, hc⟩
  · simp [hnil]
  · rw [List.concat_eq_append] at hc
    have hnonempty : (front ++ [c]).isEmpty = false := by simp
    rw [hc, hnonempty, if_neg Bool.false_ne_true, List.dropLast_concat, Option.some.injEq]
    constructor
    · rintro rfl
      exact ⟨c, rfl⟩
    · rintro ⟨d, hd⟩
      exact ext_components (List.append_inj_left' hd rfl)

theorem startsWith_root (p : RelativePath) : p.startsWith root = true := by simp [root]

end RelativePath

end Excise
