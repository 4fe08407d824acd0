import Excise.Lib.Interaction
import Mathlib.Logic.Function.Basic
import Mathlib.Logic.Relation

/-!
# Processes that share a state

Any number of processes, each running its own program over one shared state; a turn is one call
of one process, or its death. `Secure` is the rely-guarantee judgement of one program: under
everything the others may do, each of its calls keeps what it guarantees to them. Processes that
are secure one by one are secure together.
-/

namespace Excise
set_option autoImplicit false

/-- What a call of a process does to the shared state, and what its death does. -/
structure Shared (S : Signature) (σ ε : Type) where
  perform : Nat → (c : S.Call) → ε → σ → σ × S.Answer c
  crash : Nat → σ → σ

inductive Turn (ε : Type) where
  | call (pid : Nat) (e : ε)
  | crash (pid : Nat)

/-- What processes owe one another, and the turns the assertion is about. -/
structure Contract (S : Signature) (σ ε : Type) where
  rely : Nat → σ → σ → Prop
  admits : Nat → (c : S.Call) → ε → σ → Prop
  mayCrash : Nat → σ → Prop

/-- What a turn of `pid` must leave to everybody else. -/
def Contract.Guarantees {S : Signature} {σ ε : Type} (C : Contract S σ ε) (pid : Nat)
    (s s' : σ) : Prop := ∀ other, other ≠ pid → C.rely other s s'

/-- A turn of the kind the contract is about. -/
def Contract.Admitted {S : Signature} {σ ε : Type} (C : Contract S σ ε)
    (s : σ × (Nat → Program S Unit)) : Turn ε → Prop
  | .call pid e => ∀ c next, s.2 pid = .call c next → C.admits pid c e s.1
  | .crash pid => C.mayCrash pid s.1

def Turn.pid {ε : Type} : Turn ε → Nat
  | .call pid _ | .crash pid => pid

namespace Shared
variable {S : Signature} {σ ε α β : Type} (W : Shared S σ ε) (C : Contract S σ ε)

def step (s : σ × (Nat → Program S Unit)) : Turn ε → σ × (Nat → Program S Unit)
  | .call pid e =>
    match s.2 pid with
    | .done _ => s
    | .call c next =>
      ((W.perform pid c e s.1).1, Function.update s.2 pid (next (W.perform pid c e s.1).2))
  | .crash pid => (W.crash pid s.1, Function.update s.2 pid (.done ()))

def machine : Machine (σ × (Nat → Program S Unit)) (Turn ε) Unit where
  step s t := (W.step s t, ())

def Secure (pid : Nat) (Q : α → σ → Prop) : Program S α → σ → Prop
  | .done a, s => ∀ s', Relation.ReflTransGen (C.rely pid) s s' → Q a s'
  | .call c next, s => ∀ s', Relation.ReflTransGen (C.rely pid) s s' → ∀ e, C.admits pid c e s' →
      C.Guarantees pid s' (W.perform pid c e s').1 ∧
        Secure pid Q (next (W.perform pid c e s').2) (W.perform pid c e s').1

/-- An assertion of `pid` that nobody else breaks. -/
def Stable (pid : Nat) (P : σ → Prop) : Prop := ∀ s s', C.rely pid s s' → P s → P s'

variable {W C} {pid : Nat} {Q Q' : α → σ → Prop} {p : Program S α} {s s' : σ} {P : σ → Prop}

theorem Stable.star (hP : Stable C pid P) (hs : P s)
    (h : Relation.ReflTransGen (C.rely pid) s s') : P s' := by
  induction h with
  | refl => exact hs
  | tail _ hstep ih => exact hP _ _ hstep ih

theorem Secure.of_rely (h : W.Secure C pid Q p s) (hs : C.rely pid s s') :
    W.Secure C pid Q p s' := by
  cases p with
  | done a => exact fun t ht => h t (ht.head hs)
  | call c next => exact fun t ht => h t (ht.head hs)

theorem Secure.mono (h : W.Secure C pid Q p s) (hQ : ∀ a s, Q a s → Q' a s) :
    W.Secure C pid Q' p s := by
  induction p generalizing s with
  | done a => exact fun t ht => hQ a t (h t ht)
  | call c next ih =>
    intro t ht e he
    obtain ⟨hguarantee, hnext⟩ := h t ht e he
    exact ⟨hguarantee, ih _ hnext⟩

theorem secure_bind {Q : β → σ → Prop} {f : α → Program S β}
    (h : W.Secure C pid (fun a s => W.Secure C pid Q (f a) s) p s) :
    W.Secure C pid Q (p >>= f) s := by
  induction p generalizing s with
  | done a => exact h s .refl
  | call c next ih =>
    intro t ht e he
    obtain ⟨hguarantee, hnext⟩ := h t ht e he
    exact ⟨hguarantee, ih _ hnext⟩

theorem secure_pure {a : α} (hs : P s) (hP : Stable C pid P) (hQ : ∀ s, P s → Q a s) :
    W.Secure C pid Q (pure a) s := fun _ ht => hQ _ (hP.star hs ht)

/-- A call under a stable assertion. -/
theorem secure_call {c : S.Call} {next : S.Answer c → Program S α} (hs : P s)
    (hP : Stable C pid P)
    (hstep : ∀ s e, P s → C.admits pid c e s →
      C.Guarantees pid s (W.perform pid c e s).1 ∧
        W.Secure C pid Q (next (W.perform pid c e s).2) (W.perform pid c e s).1) :
    W.Secure C pid Q (.call c next) s := fun t ht e he => hstep t e (hP.star hs ht) he

/-! ## All processes together -/

/-- Every process is secure as it stands. -/
def AllSecure (W : Shared S σ ε) (C : Contract S σ ε) (s : σ × (Nat → Program S Unit)) : Prop :=
  ∀ pid, W.Secure C pid (fun _ _ => True) (s.2 pid) s.1

/-- What every step of the others leaves true holds after every admitted turn. -/
theorem secure_turn {J : σ → Prop} {s : σ × (Nat → Program S Unit)} (h : W.AllSecure C s)
    (hs : J s.1) (hJ : ∀ pid s s', C.rely pid s s' → J s')
    (hcrash : ∀ pid s, J s → C.mayCrash pid s → C.Guarantees pid s (W.crash pid s)) {t : Turn ε}
    (ht : C.Admitted s t) :
    (W.AllSecure C (W.step s t) ∧ J (W.step s t).1) ∧
      (W.step s t = s ∨ C.Guarantees t.pid s.1 (W.step s t).1) := by
  have hafter : ∀ {pid : Nat} {s' : σ}, C.Guarantees pid s.1 s' → J s' :=
    fun {pid} {_} hguarantee => hJ (pid + 1) _ _ (hguarantee (pid + 1) (Nat.succ_ne_self _))
  have hothers : ∀ {pid : Nat} {s' : σ} {q : Program S Unit}, C.Guarantees pid s.1 s' →
      W.Secure C pid (fun _ _ => True) q s' →
      W.AllSecure C (s', Function.update s.2 pid q) := by
    intro pid s' q hguarantee hq other
    by_cases hother : other = pid
    · subst hother
      simp only [Function.update_self]
      exact hq
    · simp only [Function.update_of_ne hother]
      exact (h other).of_rely (hguarantee other hother)
  cases t with
  | call pid e =>
    cases hprogram : s.2 pid with
    | done a =>
      have hstep : W.step s (.call pid e) = s := by simp [step, hprogram]
      rw [hstep]
      exact ⟨⟨h, hs⟩, Or.inl rfl⟩
    | call c next =>
      have hstep : W.step s (.call pid e) = ((W.perform pid c e s.1).1,
          Function.update s.2 pid (next (W.perform pid c e s.1).2)) := by
        simp [step, hprogram]
      have hpid := h pid
      rw [hprogram] at hpid
      obtain ⟨hguarantee, hnext⟩ := hpid s.1 .refl e (ht c next hprogram)
      rw [hstep]
      exact ⟨⟨hothers hguarantee hnext, hafter hguarantee⟩, Or.inr hguarantee⟩
  | crash pid =>
    have hguarantee := hcrash pid s.1 hs ht
    exact ⟨⟨hothers hguarantee (fun _ _ => trivial), hafter hguarantee⟩, Or.inr hguarantee⟩

/-- Along every run of admitted turns all processes stay secure, and each turn leaves to everybody
else what it owes. -/
theorem secure_run {J : σ → Prop} {s : σ × (Nat → Program S Unit)} (h : W.AllSecure C s)
    (hs : J s.1) (hJ : ∀ pid s s', C.rely pid s s' → J s')
    (hcrash : ∀ pid s, J s → C.mayCrash pid s → C.Guarantees pid s (W.crash pid s))
    {D : σ × (Nat → Program S Unit) → Turn ε → Prop}
    (hsame : ∀ s t, J s.1 → W.step s t = s → D s t)
    (hstep : ∀ s t, J s.1 → C.Guarantees t.pid s.1 (W.step s t).1 → D s t)
    {turns : List (Turn ε)} (hturns : W.machine.Along C.Admitted s turns) :
    W.machine.Along D s turns ∧ J (W.machine.run s turns).1 := by
  refine ⟨W.machine.along_of_invariant (I := fun s => W.AllSecure C s ∧ J s.1) ?_ ⟨h, hs⟩ hturns, ?_⟩
  · rintro s t ⟨hsecure, hs⟩ ht
    obtain ⟨hnext, heq | hguarantee⟩ := secure_turn hsecure hs hJ hcrash ht
    · exact ⟨hnext, hsame s t hs heq⟩
    · exact ⟨hnext, hstep s t hs hguarantee⟩
  · refine (W.machine.run_induction_along (P := fun _ s => W.AllSecure C s ∧ J s.1)
      ⟨h, hs⟩ ?_ hturns).2
    rintro _ s t ⟨hsecure, hs⟩ ht
    exact (secure_turn hsecure hs hJ hcrash ht).1

end Shared

end Excise
