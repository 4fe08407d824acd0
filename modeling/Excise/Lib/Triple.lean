import Mathlib.Tactic.Common

/-!
# Triples for fallible state changes

A program of `EStateM ε σ` returns a value or throws, and keeps the state it reached in both
cases. `Triple P c Q E`: from a state in `P`, `c` returns in `Q` or throws in `E`.
-/

namespace Excise
set_option autoImplicit false

variable {ε σ α β : Type}

def Triple (P : σ → Prop) (c : EStateM ε σ α) (Q : α → σ → Prop) (E : ε → σ → Prop) : Prop :=
  ∀ s, P s →
    match c s with
    | .ok a s' => Q a s'
    | .error e s' => E e s'

/-- Goes on only when the check passes. -/
def checkThat (check : Bool) (e : ε) : EStateM ε σ Unit := fun s =>
  if check then .ok () s else .error e s

def liftExcept (x : Except ε α) : EStateM ε σ α := fun s =>
  match x with
  | .ok a => .ok a s
  | .error e => .error e s

namespace Triple

variable {P P' : σ → Prop} {Q Q' : α → σ → Prop} {E E' : ε → σ → Prop} {c : EStateM ε σ α}

theorem ok {s s' : σ} {a : α} (h : Triple P c Q E) (hs : P s) (hc : c s = .ok a s') :
    Q a s' := by
  have := h s hs
  rw [hc] at this
  exact this

theorem error {s s' : σ} {e : ε} (h : Triple P c Q E) (hs : P s) (hc : c s = .error e s') :
    E e s' := by
  have := h s hs
  rw [hc] at this
  exact this

theorem of_result
    (h : ∀ s, P s → (∀ a s', c s = .ok a s' → Q a s') ∧ ∀ e s', c s = .error e s' → E e s') :
    Triple P c Q E := by
  intro s hs
  obtain ⟨hok, herr⟩ := h s hs
  cases hc : c s with
  | ok a s' => exact hok a s' hc
  | error e s' => exact herr e s' hc

theorem weaken (h : Triple P c Q E) (hP : ∀ s, P' s → P s) (hQ : ∀ a s, Q a s → Q' a s)
    (hE : ∀ e s, E e s → E' e s) : Triple P' c Q' E' := by
  apply of_result
  intro s hs
  exact ⟨fun a s' hc => hQ a s' (h.ok (hP s hs) hc), fun e s' hc => hE e s' (h.error (hP s hs) hc)⟩

/-- What the precondition says apart from the state. -/
theorem of_fact {p : Prop} (hp : ∀ s, P s → p) (h : p → Triple P c Q E) : Triple P c Q E :=
  fun s hs => h (hp s hs) s hs

theorem bind {R : β → σ → Prop} {f : α → EStateM ε σ β} (h : Triple P c Q E)
    (hf : ∀ a, Triple (Q a) (f a) R E) : Triple P (c >>= f) R E := by
  intro s hs
  have hx := h s hs
  show match EStateM.bind c f s with
    | .ok a s' => R a s'
    | .error e s' => E e s'
  unfold EStateM.bind
  cases hc : c s with
  | ok a s' =>
    rw [hc] at hx
    exact hf a s' hx
  | error e s' =>
    rw [hc] at hx
    exact hx

theorem pure {a : α} (h : ∀ s, P s → Q a s) : Triple P (Pure.pure a : EStateM ε σ α) Q E :=
  fun s hs => h s hs

/-- What holds of the state a program starts in. -/
theorem of_state (h : ∀ s₀, P s₀ → Triple (fun s => s = s₀) c Q E) : Triple P c Q E :=
  fun s hs => h s hs s rfl

theorem check_then {check : Bool} {e : ε} (hcheck : check = true) (h : Triple P c Q E) :
    Triple P (do checkThat check e; c) Q E := by
  subst hcheck
  exact h

theorem check {check : Bool} {e : ε} (hE : ∀ s, P s → check = false → E e s)
    (h : check = true → Triple P c Q E) : Triple P (do checkThat check e; c) Q E := by
  cases check with
  | true => exact h rfl
  | false => exact fun s hs => hE s hs rfl

theorem except {x : Except ε β} {f : β → EStateM ε σ α}
    (hE : ∀ e s, P s → x = .error e → E e s) (h : ∀ b, x = .ok b → Triple P (f b) Q E) :
    Triple P (liftExcept x >>= f) Q E := by
  cases x with
  | ok b => exact h b rfl
  | error e => exact fun s hs => hE e s hs rfl

theorem except_then {x : Except ε β} {b : β} {f : β → EStateM ε σ α} (hx : x = .ok b)
    (h : Triple P (f b) Q E) : Triple P (liftExcept x >>= f) Q E := by
  subst hx
  exact h

theorem get_then {f : σ → EStateM ε σ α} (h : ∀ s₁, P s₁ → Triple (fun s => s = s₁) (f s₁) Q E) :
    Triple P (get >>= f) Q E := fun s hs => h s hs s rfl

end Triple

end Excise
