import Mathlib.Data.List.Induction
import Mathlib.Tactic.Common

/-!
# Machines that answer calls

A machine takes calls one after the other and answers each. A run is a finite list of
calls; its trace pairs every call with its answer. Invariants may speak of the trace so
far, so that "at most once over the whole run" is an invariant like any other.
-/

namespace Excise
set_option autoImplicit false

universe u v w

structure Machine (σ : Type u) (α : Type v) (ω : Type w) where
  step : σ → α → σ × ω

namespace Machine
variable {σ : Type u} {α : Type v} {ω : Type w} (M : Machine σ α ω)

def run (s : σ) : List α → σ
  | [] => s
  | a :: as => run (M.step s a).1 as

def trace (s : σ) : List α → List (α × ω)
  | [] => []
  | a :: as => (a, (M.step s a).2) :: trace (M.step s a).1 as

@[simp] theorem run_nil (s : σ) : M.run s [] = s := rfl

@[simp] theorem run_cons (s : σ) (a : α) (as : List α) :
    M.run s (a :: as) = M.run (M.step s a).1 as := rfl

@[simp] theorem trace_nil (s : σ) : M.trace s [] = [] := rfl

@[simp] theorem trace_cons (s : σ) (a : α) (as : List α) :
    M.trace s (a :: as) = (a, (M.step s a).2) :: M.trace (M.step s a).1 as := rfl

theorem run_append (s : σ) (as bs : List α) : M.run s (as ++ bs) = M.run (M.run s as) bs := by
  induction as generalizing s with
  | nil => rfl
  | cons a as ih => exact ih _

theorem trace_append (s : σ) (as bs : List α) :
    M.trace s (as ++ bs) = M.trace s as ++ M.trace (M.run s as) bs := by
  induction as generalizing s with
  | nil => rfl
  | cons a as ih => simp [ih]

/-- A point of a trace is a point of the run: what was called and answered before it, and the
state in which the call was answered. -/
theorem trace_split {s : σ} {calls : List α} {before after : List (α × ω)} {a : α} {o : ω}
    (h : M.trace s calls = before ++ (a, o) :: after) :
    ∃ pre post, calls = pre ++ a :: post ∧ before = M.trace s pre ∧
      o = (M.step (M.run s pre) a).2 := by
  induction calls generalizing s before with
  | nil => simp at h
  | cons b bs ih =>
    cases before with
    | nil =>
      simp only [trace_cons, List.nil_append, List.cons.injEq, Prod.mk.injEq] at h
      obtain ⟨⟨rfl, rfl⟩, -⟩ := h
      exact ⟨[], bs, rfl, rfl, rfl⟩
    | cons e es =>
      simp only [trace_cons, List.cons_append, List.cons.injEq] at h
      obtain ⟨rfl, h⟩ := h
      obtain ⟨pre, post, rfl, rfl, ho⟩ := ih h
      exact ⟨b :: pre, post, rfl, rfl, ho⟩

/-- The invariant rule: what holds of the empty trace and survives every call with its
answer holds after every run. -/
theorem run_induction {P : List (α × ω) → σ → Prop} {s : σ} (init : P [] s)
    (step : ∀ h s a, P h s → P (h ++ [(a, (M.step s a).2)]) (M.step s a).1)
    (calls : List α) : P (M.trace s calls) (M.run s calls) := by
  have go : ∀ (calls : List α) (h : List (α × ω)) (s : σ), P h s →
      P (h ++ M.trace s calls) (M.run s calls) := by
    intro calls
    induction calls with
    | nil => intro h s hP; simpa using hP
    | cons a as ih =>
      intro h s hP
      have hnext := ih _ _ (step h s a hP)
      simpa [List.append_assoc] using hnext
  simpa using go calls [] s init

/-- A property of states alone that every call keeps. -/
theorem run_invariant {I : σ → Prop} {s : σ} (init : I s)
    (step : ∀ s a, I s → I (M.step s a).1) (calls : List α) : I (M.run s calls) :=
  M.run_induction (P := fun _ s => I s) init (fun _ s a hI => step s a hI) calls

/-- Every call of the run is made in a state that meets `C`. -/
def Along (C : σ → α → Prop) : σ → List α → Prop
  | _, [] => True
  | s, a :: as => C s a ∧ Along C (M.step s a).1 as

instance decidableAlong {C : σ → α → Prop} [∀ s a, Decidable (C s a)] :
    (s : σ) → (calls : List α) → Decidable (M.Along C s calls)
  | _, [] => isTrue trivial
  | s, a :: as =>
    @instDecidableAnd _ _ (inferInstanceAs (Decidable (C s a))) (decidableAlong (M.step s a).1 as)

theorem along_append {C : σ → α → Prop} {s : σ} {as bs : List α} :
    M.Along C s (as ++ bs) ↔ M.Along C s as ∧ M.Along C (M.run s as) bs := by
  induction as generalizing s with
  | nil => exact ⟨fun h => ⟨trivial, h⟩, And.right⟩
  | cons a as ih => exact (and_congr_right fun _ => ih).trans and_assoc.symm

/-- The invariant rule for runs whose calls all meet `C`. -/
theorem run_induction_along {C : σ → α → Prop} {P : List (α × ω) → σ → Prop} {s : σ}
    (init : P [] s) (step : ∀ h s a, P h s → C s a → P (h ++ [(a, (M.step s a).2)]) (M.step s a).1)
    {calls : List α} (hcalls : M.Along C s calls) : P (M.trace s calls) (M.run s calls) := by
  have go : ∀ (calls : List α) (h : List (α × ω)) (s : σ), P h s → M.Along C s calls →
      P (h ++ M.trace s calls) (M.run s calls) := by
    intro calls
    induction calls with
    | nil =>
      intro h s hP _
      simpa using hP
    | cons a as ih =>
      intro h s hP hcalls
      have hnext := ih _ _ (step h s a hP hcalls.1) hcalls.2
      simpa [List.append_assoc] using hnext
  simpa using go calls [] s init hcalls

/-- What holds of every call that is made in a state that meets `I`. -/
theorem along_of_invariant {C D : σ → α → Prop} {I : σ → Prop}
    (step : ∀ s a, I s → C s a → I (M.step s a).1 ∧ D s a) {s : σ} {calls : List α} (init : I s)
    (h : M.Along C s calls) : M.Along D s calls := by
  induction calls generalizing s with
  | nil => exact trivial
  | cons a as ih =>
    obtain ⟨hI, hD⟩ := step s a init h.1
    exact ⟨hD, ih hI h.2⟩

/-- A condition on the calls alone. -/
theorem along_of_forall {A : α → Prop} {calls : List α} (h : ∀ a ∈ calls, A a) (s : σ) :
    M.Along (fun _ a => A a) s calls := by
  induction calls generalizing s with
  | nil => exact trivial
  | cons a as ih =>
    refine ⟨h a List.mem_cons_self, ih ?_ _⟩
    intro b hb
    exact h b (List.mem_cons_of_mem a hb)

/-- A property that each call keeps if and only if it meets `C` holds all through a run if and only
if every call of the run meets `C`. -/
theorem safe_iff_along {C : σ → α → Prop} {I S : σ → Prop} (keep : ∀ s a, I s → I (M.step s a).1)
    (exact : ∀ s a, I s → S s → (S (M.step s a).1 ↔ C s a)) {s : σ} (hI : I s) (hS : S s)
    (calls : List α) : (∀ seen, seen <+: calls → S (M.run s seen)) ↔ M.Along C s calls := by
  induction calls generalizing s with
  | nil =>
    refine iff_of_true (fun seen hseen => ?_) trivial
    rw [List.prefix_nil.mp hseen]
    exact hS
  | cons a as ih =>
    constructor
    · intro hall
      have hnext : S (M.step s a).1 := hall [a] ⟨as, rfl⟩
      refine ⟨(exact s a hI hS).mp hnext, (ih (keep s a hI) hnext).mp fun seen hseen => ?_⟩
      exact hall (a :: seen) (List.cons_prefix_cons.mpr ⟨rfl, hseen⟩)
    · rintro ⟨hcall, hrest⟩ seen hseen
      cases seen with
      | nil => exact hS
      | cons b seen =>
        obtain ⟨rfl, hmore⟩ := List.cons_prefix_cons.mp hseen
        exact (ih (keep s b hI) ((exact s b hI hS).mpr hcall)).mpr hrest seen hmore

/-- What every call that meets `C` keeps and relates, a whole run of such calls does. -/
theorem run_along {C : σ → α → Prop} {I : σ → Prop} {R : σ → σ → Prop} (refl : ∀ s, R s s)
    (trans : ∀ s s' s'', R s s' → R s' s'' → R s s'')
    (step : ∀ s a, I s → C s a → I (M.step s a).1 ∧ R s (M.step s a).1) {s : σ} {calls : List α}
    (init : I s) (h : M.Along C s calls) : I (M.run s calls) ∧ R s (M.run s calls) := by
  induction calls generalizing s with
  | nil => exact ⟨init, refl s⟩
  | cons a as ih =>
    obtain ⟨hI, hR⟩ := step s a init h.1
    obtain ⟨hI', hR'⟩ := ih hI h.2
    exact ⟨hI', trans _ _ _ hR hR'⟩

/-! ## Notes of a run -/

/-- What is noted of the calls of a run, one after the other. -/
def gather {β : Type*} (note : σ → α → List β) (s : σ) : List α → List β
  | [] => []
  | a :: as => note s a ++ gather note (M.step s a).1 as

@[simp] theorem gather_cons {β : Type*} (note : σ → α → List β) (s : σ) (a : α) (as : List α) :
    M.gather note s (a :: as) = note s a ++ M.gather note (M.step s a).1 as := rfl

theorem gather_append {β : Type*} (note : σ → α → List β) (s : σ) (as bs : List α) :
    M.gather note s (as ++ bs) = M.gather note s as ++ M.gather note (M.run s as) bs := by
  induction as generalizing s with
  | nil => rfl
  | cons a as ih => rw [List.cons_append, gather_cons, gather_cons, ih, List.append_assoc, run_cons]

theorem gather_singleton {β : Type*} (note : σ → α → List β) (s : σ) (a : α) :
    M.gather note s [a] = note s a := List.append_nil _

/-- The invariant rule that speaks of the calls made so far, and so of all that was noted of them. -/
theorem calls_induction_along {C : σ → α → Prop} {P : List α → Prop} {s : σ} (init : P [])
    (step : ∀ calls a, M.Along C s calls → P calls → C (M.run s calls) a → P (calls ++ [a]))
    {calls : List α} (hcalls : M.Along C s calls) : P calls := by
  induction calls using List.reverseRecOn with
  | nil => exact init
  | append_singleton calls a ih =>
    obtain ⟨hbefore, hcall, -⟩ := M.along_append.mp hcalls
    exact step calls a hbefore (ih hbefore) hcall

end Machine

/-! ## Requests and responses -/

/-- After every `ask` of the record stands one that meets `A`, or the answer is still `due`. -/
def Answered {ν : Type u} (ask : ν) (A : ν → Prop) (due : Prop) (record : List ν) : Prop :=
  ∀ before after, record = before ++ ask :: after → (∃ x ∈ after, A x) ∨ due

theorem Answered.of_not_mem {ν : Type u} {ask : ν} {A : ν → Prop} {due : Prop} {record : List ν}
    (h : ask ∉ record) : Answered ask A due record := by
  rintro before after rfl
  exact absurd (List.mem_append_right before List.mem_cons_self) h

theorem Answered.of_due {ν : Type u} {ask : ν} {A : ν → Prop} {due : Prop} {record : List ν}
    (h : due) : Answered ask A due record := fun _ _ _ => Or.inr h

theorem Answered.append {ν : Type u} {ask : ν} {A : ν → Prop} {due due' : Prop}
    {record more : List ν} (h : Answered ask A due record)
    (keep : due → (∃ x ∈ more, A x) ∨ due') (new : Answered ask A due' more) :
    Answered ask A due' (record ++ more) := by
  intro before after heq
  rcases List.append_eq_append_iff.mp heq with ⟨t, rfl, hmore⟩ | ⟨t, rfl, hafter⟩
  · exact new t after hmore
  · cases t with
    | nil =>
      simp only [List.nil_append] at hafter
      exact new [] after hafter.symm
    | cons x t =>
      obtain ⟨rfl, rfl⟩ := List.cons.inj hafter
      rcases h before t rfl with ⟨x, hx, hA⟩ | hdue
      · exact Or.inl ⟨x, List.mem_append_left more hx, hA⟩
      · rcases keep hdue with ⟨x, hx, hA⟩ | hdue'
        · exact Or.inl ⟨x, List.mem_append_right t hx, hA⟩
        · exact Or.inr hdue'

end Excise
