import Excise.Lib.Machine

/-!
# Programs among others

A program makes calls and goes on with their answers; between any two steps others may act. An
assertion about a program holds of every such run: `Program.wp` says what must be true before it
for the invariant to hold all the way and for the postcondition to hold at its end.
-/

namespace Excise
set_option autoImplicit false

/-- The calls a program may make, and what each is answered with. -/
structure Signature where
  Call : Type
  Answer : Call → Type

inductive Program (S : Signature) (α : Type) : Type where
  | done (a : α)
  | call (c : S.Call) (next : S.Answer c → Program S α)

/-- Where a program runs. A step on its current call answers the call or leaves it unanswered;
`others` is a step of somebody else. -/
structure World (S : Signature) (σ ε δ : Type) where
  perform : (c : S.Call) → ε → σ → σ × Option (S.Answer c)
  others : δ → σ → σ

namespace Program
variable {S : Signature} {α β : Type}

def bind (p : Program S α) (f : α → Program S β) : Program S β :=
  match p with
  | .done a => f a
  | .call c next => .call c fun answer => (next answer).bind f

instance : Monad (Program S) where
  pure := .done
  bind := Program.bind

def ask (c : S.Call) : Program S (S.Answer c) := .call c .done

/-- Every call the program can come to is one of these. -/
def Uses (ok : S.Call → Prop) : Program S α → Prop
  | .done _ => True
  | .call c next => ok c ∧ ∀ answer, (next answer).Uses ok

theorem Uses.bind {ok : S.Call → Prop} {p : Program S α} (hp : p.Uses ok) {f : α → Program S β}
    (hf : ∀ a, (f a).Uses ok) : (p >>= f).Uses ok := by
  induction p with
  | done a => exact hf a
  | call c next ih => exact ⟨hp.1, fun answer => ih answer (hp.2 answer)⟩

theorem uses_ask {ok : S.Call → Prop} {c : S.Call} (h : ok c) : (ask c : Program S _).Uses ok :=
  ⟨h, fun _ => trivial⟩

end Program

namespace World
variable {S : Signature} {σ ε δ α β : Type} (W : World S σ ε δ)

/-- One step of a running program, or of somebody else. -/
def step (s : σ × Program S α) : ε ⊕ δ → σ × Program S α
  | .inr d => (W.others d s.1, s.2)
  | .inl e =>
    match s.2 with
    | .done _ => s
    | .call c next =>
      ((W.perform c e s.1).1, ((W.perform c e s.1).2.map next).getD s.2)

def machine (α : Type) : Machine (σ × Program S α) (ε ⊕ δ) Unit where
  step s a := (W.step s a, ())

/-- What may pass while the call `c` is not answered (`none`: while nothing is called). -/
inductive Passes (c : Option S.Call) : σ → σ → Prop
  | refl (s : σ) : Passes c s s
  | others {s s' : σ} (d : δ) (h : Passes c s s') : Passes c s (W.others d s')
  | own {s s' : σ} {c' : S.Call} (e : ε) (hc : c = some c') (h : Passes c s s')
      (hn : (W.perform c' e s').2 = none) : Passes c s (W.perform c' e s').1

/-- The weakest precondition for `I` to hold throughout and `Q` at the end. -/
def wp (I : σ → Prop) (Q : α → σ → Prop) : Program S α → σ → Prop
  | .done a, s => ∀ s', W.Passes none s s' → I s' ∧ Q a s'
  | .call c next, s => ∀ s', W.Passes (some c) s s' → I s' ∧
      ∀ e answer, (W.perform c e s').2 = some answer → wp I Q (next answer) (W.perform c e s').1

variable {W} {I : σ → Prop} {Q Q' : α → σ → Prop} {p : Program S α} {s : σ}

theorem Passes.trans {c : Option S.Call} {s s' s'' : σ} (h : W.Passes c s s')
    (h' : W.Passes c s' s'') : W.Passes c s s'' := by
  induction h' with
  | refl => exact h
  | others d _ ih => exact ih.others d
  | own e hc _ hn ih => exact ih.own e hc hn

theorem wp.invariant (h : W.wp I Q p s) : I s := by
  cases p with
  | done a => exact (h s (.refl s)).1
  | call c next => exact (h s (.refl s)).1

theorem wp.of_others (h : W.wp I Q p s) (d : δ) : W.wp I Q p (W.others d s) := by
  cases p with
  | done a => exact fun s' hs => h s' (((Passes.refl s).others d).trans hs)
  | call c next => exact fun s' hs => h s' (((Passes.refl s).others d).trans hs)

theorem wp.step (h : W.wp I Q p s) (a : ε ⊕ δ) :
    W.wp I Q (W.step (s, p) a).2 (W.step (s, p) a).1 := by
  cases a with
  | inr d => exact h.of_others d
  | inl e =>
    cases p with
    | done a => exact h
    | call c next =>
      have hhere := h s (.refl s)
      cases hp : (W.perform c e s).2 with
      | none =>
        have hnone : W.step (s, .call c next) (.inl e) = ((W.perform c e s).1, .call c next) := by
          simp [World.step, hp]
        rw [hnone]
        exact fun s' hs => h s' (((Passes.refl s).own e rfl hp).trans hs)
      | some answer =>
        have hsome : W.step (s, .call c next) (.inl e) = ((W.perform c e s).1, next answer) := by
          simp [World.step, hp]
        rw [hsome]
        exact hhere.2 e answer hp

/-- Along every run what is left of the program keeps its precondition. -/
theorem wp.run (h : W.wp I Q p s) (calls : List (ε ⊕ δ)) :
    W.wp I Q ((W.machine α).run (s, p) calls).2 ((W.machine α).run (s, p) calls).1 :=
  (W.machine α).run_invariant (I := fun s => W.wp I Q s.2 s.1) h (fun _ a hs => hs.step a) calls

/-- A finished program stays finished. -/
theorem run_done (s : σ) (a : α) (calls : List (ε ⊕ δ)) :
    ((W.machine α).run (s, .done a) calls).2 = .done a := by
  refine (W.machine α).run_invariant (I := fun s => s.2 = .done a) rfl ?_ calls
  rintro ⟨s, p⟩ (e | d) hs
  · obtain rfl : p = .done a := hs
    rfl
  · exact hs

/-- It ends with one result, however long it is run. -/
theorem done_unique {s : σ × Program S α} {choices : Nat → ε ⊕ δ} {n m : Nat} {a b : α}
    (ha : ((W.machine α).run s ((List.range n).map choices)).2 = .done a)
    (hb : ((W.machine α).run s ((List.range m).map choices)).2 = .done b) : a = b := by
  have hlater {n : Nat} {a : α} (ha : ((W.machine α).run s ((List.range n).map choices)).2 = .done a)
      (k : Nat) : ((W.machine α).run s ((List.range (n + k)).map choices)).2 = .done a := by
    rw [List.range_add, List.map_append, Machine.run_append]
    cases hrun : (W.machine α).run s ((List.range n).map choices) with
    | mk s' p =>
      rw [hrun] at ha
      obtain rfl : p = .done a := ha
      exact run_done s' a _
  have hsame := (hlater ha m).symm.trans (Nat.add_comm m n ▸ hlater hb n)
  exact Program.done.inj hsame

/-- A program whose calls are all answered ends, whatever the answers. -/
theorem wp.finishes (h : W.wp I Q p s) (hanswers : ∀ c e s, ((W.perform c e s).2).isSome = true)
    (choices : Nat → ε) :
    ∃ n a s', (W.machine α).run (s, p) ((List.range n).map fun i => .inl (choices i)) =
      (s', .done a) ∧ Q a s' := by
  induction p generalizing s choices with
  | done a => exact ⟨0, a, s, rfl, (h s (.refl s)).2⟩
  | call c next ih =>
    obtain ⟨answer, hanswer⟩ := Option.isSome_iff_exists.mp (hanswers c (choices 0) s)
    obtain ⟨n, a, s', hrun, hQ⟩ := ih answer ((h s (.refl s)).2 (choices 0) answer hanswer)
      fun i => choices (i + 1)
    refine ⟨n + 1, a, s', ?_, hQ⟩
    have hstep : ((W.machine α).step (s, .call c next) (.inl (choices 0))).1 =
        ((W.perform c (choices 0) s).1, next answer) := by
      simp [World.machine, World.step, hanswer]
    rw [List.range_succ_eq_map, List.map_cons, Machine.run_cons, hstep, List.map_map]
    exact hrun

theorem wp.mono (h : W.wp I Q p s) (hQ : ∀ a s, Q a s → Q' a s) : W.wp I Q' p s := by
  induction p generalizing s with
  | done a =>
    intro s' hs
    exact ⟨(h s' hs).1, hQ a s' (h s' hs).2⟩
  | call c next ih =>
    intro s' hs
    exact ⟨(h s' hs).1, fun e answer he => ih answer ((h s' hs).2 e answer he)⟩

/-- A program made of two parts: the second starts from what the first leaves. -/
theorem wp_bind {Q : β → σ → Prop} {f : α → Program S β}
    (h : W.wp I (fun a s => W.wp I Q (f a) s) p s) : W.wp I Q (p >>= f) s := by
  induction p generalizing s with
  | done a => exact (h s (.refl s)).2
  | call c next ih =>
    intro s' hs
    exact ⟨(h s' hs).1, fun e answer he => ih answer ((h s' hs).2 e answer he)⟩

theorem wp.with_invariant (h : W.wp I Q p s) : W.wp I (fun a s => I s ∧ Q a s) p s := by
  induction p generalizing s with
  | done a =>
    intro s' hs
    exact ⟨(h s' hs).1, h s' hs⟩
  | call c next ih =>
    intro s' hs
    exact ⟨(h s' hs).1, fun e answer he => ih answer ((h s' hs).2 e answer he)⟩

/-- One part after the other, by what the first part ends with. -/
theorem wp_seq {Q' : β → σ → Prop} {f : α → Program S β} (h : W.wp I Q p s)
    (hnext : ∀ a s, I s → Q a s → W.wp I Q' (f a) s) : W.wp I Q' (p >>= f) s :=
  wp_bind (h.with_invariant.mono fun a s' hs => hnext a s' hs.1 hs.2)

/-- An assertion that nobody else breaks. -/
def Stable (W : World S σ ε δ) (P : σ → Prop) : Prop := ∀ s d, P s → P (W.others d s)

theorem wp_done {a : α} {P : σ → Prop} (hs : P s) (hP : W.Stable P) (hI : ∀ s, P s → I s)
    (hQ : ∀ s, P s → Q a s) : W.wp I Q (pure a) s := by
  intro s' hpass
  have hP' : P s' := by
    induction hpass with
    | refl => exact hs
    | others d _ ih => exact hP _ d ih
    | own e hc _ _ _ => cases hc
  exact ⟨hI s' hP', hQ s' hP'⟩

/-- A call under a stable assertion: it survives the waiting, and each answer leads on. -/
theorem wp_call {c : S.Call} {next : S.Answer c → Program S α} {P : σ → Prop} (hs : P s)
    (hP : W.Stable P) (hI : ∀ s, P s → I s)
    (hbusy : ∀ s e, P s → (W.perform c e s).2 = none → P (W.perform c e s).1)
    (hnext : ∀ s e answer, P s → (W.perform c e s).2 = some answer →
      W.wp I Q (next answer) (W.perform c e s).1) : W.wp I Q (.call c next) s := by
  intro s' hpass
  have hP' : P s' := by
    induction hpass with
    | refl => exact hs
    | others d _ ih => exact hP _ d ih
    | own e hc _ hn ih =>
      cases hc
      exact hbusy _ e ih hn
  exact ⟨hI s' hP', fun e answer he => hnext s' e answer hP' he⟩

/-- Where nobody else acts, a program that is done stays where it is. -/
theorem wp_return_alone [IsEmpty δ] {a : α} (h : Q a s) :
    W.wp (fun _ => True) Q (pure a) s := by
  refine wp_done (P := fun s' => s' = s) rfl (fun _ d _ => isEmptyElim d) (fun _ _ => trivial) ?_
  rintro _ rfl
  exact h

/-- Where nobody else acts and an unanswered call changes nothing, only the answers count. -/
theorem wp_call_alone [IsEmpty δ] {c : S.Call} {next : S.Answer c → Program S α}
    (hidle : ∀ e, (W.perform c e s).2 = none → (W.perform c e s).1 = s)
    (hnext : ∀ e answer, (W.perform c e s).2 = some answer →
      W.wp (fun _ => True) Q (next answer) (W.perform c e s).1) :
    W.wp (fun _ => True) Q (.call c next) s := by
  refine wp_call (P := fun s' => s' = s) rfl (fun _ d _ => isEmptyElim d) (fun _ _ => trivial) ?_ ?_
  · rintro _ e rfl hnone
    exact hidle e hnone
  · rintro _ e answer rfl hanswer
    exact hnext e answer hanswer

/-- A program all of whose calls keep a stable assertion keeps it. -/
theorem wp_uses {ok : S.Call → Prop} {P : σ → Prop} (hs : P s) (hP : W.Stable P)
    (hI : ∀ s, P s → I s) (hok : ∀ c, ok c → ∀ s e, P s → P (W.perform c e s).1)
    (hp : p.Uses ok) : W.wp I (fun _ s => P s) p s := by
  induction p generalizing s with
  | done a => exact wp_done hs hP hI fun _ h => h
  | call c next ih =>
    refine wp_call hs hP hI (fun s e h _ => hok c hp.1 s e h) ?_
    intro s e answer h _
    exact ih answer (hok c hp.1 s e h) (hp.2 answer)

end World

end Excise
