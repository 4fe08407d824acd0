import Mathlib.Algebra.Group.Nat.Defs
import Mathlib.Data.Nat.Notation
import Mathlib.Tactic.Common

/-!
# Reading and writing bytes

Fixed-width little-endian integers, readers that consume a prefix of their input, and what it
means that a reader accepts exactly the words a writer makes.
-/

namespace Excise
set_option autoImplicit false

/-! ## Little-endian integers -/

/-- `to_le_bytes` of an integer of `width` bytes. -/
def leBytes : Nat → Nat → List UInt8
  | 0, _ => []
  | width + 1, v => UInt8.ofNat v :: leBytes width (v / 256)

/-- `from_le_bytes`. -/
def leNat : List UInt8 → Nat
  | [] => 0
  | byte :: rest => byte.toNat + 256 * leNat rest

@[simp] theorem leBytes_length (width v : Nat) : (leBytes width v).length = width := by
  induction width generalizing v with
  | zero => rfl
  | succ width ih => simp [leBytes, ih]

theorem leNat_leBytes {width v : Nat} (h : v < 256 ^ width) : leNat (leBytes width v) = v := by
  induction width generalizing v with
  | zero =>
    rw [Nat.pow_zero] at h
    simp only [leBytes, leNat]
    omega
  | succ width ih =>
    have hrest : v / 256 < 256 ^ width := by
      rw [Nat.pow_succ] at h
      exact Nat.div_lt_of_lt_mul (by omega)
    rw [leBytes, leNat, ih hrest, UInt8.toNat_ofNat']
    omega

theorem leNat_lt (bytes : List UInt8) : leNat bytes < 256 ^ bytes.length := by
  induction bytes with
  | nil => simp [leNat]
  | cons byte rest ih =>
    have hbyte := byte.toNat_lt
    rw [leNat, List.length_cons, Nat.pow_succ]
    omega

theorem leBytes_leNat (bytes : List UInt8) : leBytes bytes.length (leNat bytes) = bytes := by
  induction bytes with
  | nil => rfl
  | cons byte rest ih =>
    have hbyte := byte.toNat_lt
    rw [List.length_cons, leBytes, leNat]
    have hhead : UInt8.ofNat (byte.toNat + 256 * leNat rest) = byte := by
      apply UInt8.toNat_inj.mp
      rw [UInt8.toNat_ofNat']
      omega
    have htail : (byte.toNat + 256 * leNat rest) / 256 = leNat rest := by omega
    rw [hhead, htail, ih]

theorem leBytes_inj {width v w : Nat} (hv : v < 256 ^ width) (hw : w < 256 ^ width)
    (h : leBytes width v = leBytes width w) : v = w := by
  rw [← leNat_leBytes hv, h, leNat_leBytes hw]

/-! ## Big-endian integers -/

/-- `to_be_bytes` of an integer of `width` bytes. -/
def beBytes (width v : Nat) : List UInt8 := (leBytes width v).reverse

/-- `from_be_bytes`. -/
def beNat (bytes : List UInt8) : Nat := leNat bytes.reverse

@[simp] theorem beBytes_length (width v : Nat) : (beBytes width v).length = width := by
  simp [beBytes]

theorem beNat_beBytes {width v : Nat} (h : v < 256 ^ width) : beNat (beBytes width v) = v := by
  rw [beNat, beBytes, List.reverse_reverse, leNat_leBytes h]

theorem beNat_lt (bytes : List UInt8) : beNat bytes < 256 ^ bytes.length := by
  have h := leNat_lt bytes.reverse
  rwa [List.length_reverse] at h

theorem beBytes_beNat (bytes : List UInt8) : beBytes bytes.length (beNat bytes) = bytes := by
  rw [beBytes, beNat, ← List.length_reverse, leBytes_leNat, List.reverse_reverse]

theorem beBytes_inj {width v w : Nat} (hv : v < 256 ^ width) (hw : w < 256 ^ width)
    (h : beBytes width v = beBytes width w) : v = w := by
  rw [← beNat_beBytes hv, h, beNat_beBytes hw]

/-! ## Readers -/

variable {ε α β : Type}

/-- A reader takes what it needs from the front of its input or fails. -/
def ByteReader (ε α : Type) := List UInt8 → Except ε (α × List UInt8)

namespace ByteReader

def pure (a : α) : ByteReader ε α := fun input => .ok (a, input)

def bind (p : ByteReader ε α) (f : α → ByteReader ε β) : ByteReader ε β := fun input =>
  match p input with
  | .error e => .error e
  | .ok (a, rest) => f a rest

instance : Monad (ByteReader ε) where
  pure := pure
  bind := bind

/-- The read values and the rest, or the failure. -/
def run (p : ByteReader ε α) (input : List UInt8) : Except ε (α × List UInt8) := p input

def fail (e : ε) : ByteReader ε α := fun _ => .error e

/-- The next `n` bytes. -/
def take (e : ε) (n : Nat) : ByteReader ε (List UInt8) := fun input =>
  if input.length < n then .error e else .ok (input.take n, input.drop n)

def byte (e : ε) : ByteReader ε UInt8
  | [] => .error e
  | b :: rest => .ok (b, rest)

/-- The next integer of `width` bytes. -/
def le (e : ε) (width : Nat) : ByteReader ε Nat := (take e width).bind fun bytes => pure (leNat bytes)

/-- Goes on only when the check passes. -/
def require (e : ε) (check : Bool) : ByteReader ε Unit := if check then pure () else fail e

/-- The value of a check that may fail. -/
def ofOption (e : ε) : Option α → ByteReader ε α
  | some a => pure a
  | none => fail e

/-- The value of a fallible step that reads nothing. -/
def ofExcept {ε' : Type} (f : ε' → ε) : Except ε' α → ByteReader ε α
  | .ok a => pure a
  | .error e => fail (f e)

/-- Reads only when the value is announced. -/
def optional (present : Bool) (p : ByteReader ε α) : ByteReader ε (Option α) :=
  if present then p.bind fun a => pure (some a) else pure none

/-- Nothing is left. -/
def finish (e : ε) : ByteReader ε Unit := fun input =>
  if input.isEmpty then .ok ((), input) else .error e

/-- All that is left. -/
def remainder : ByteReader ε (List UInt8) := fun input => .ok (input, [])

/-- Errors of a reader as those of its caller. -/
def mapError {ε' : Type} (f : ε → ε') (p : ByteReader ε α) : ByteReader ε' α := fun input =>
  (p input).mapError f

theorem bind_ok {p : ByteReader ε α} {f : α → ByteReader ε β} {input rest : List UInt8} {b : β} :
    (p >>= f).run input = .ok (b, rest) ↔
      ∃ a mid, p.run input = .ok (a, mid) ∧ (f a).run mid = .ok (b, rest) := by
  show bind p f input = _ ↔ _
  unfold bind run
  cases p input with
  | error e => simp
  | ok x =>
    constructor
    · intro h
      exact ⟨x.1, x.2, rfl, h⟩
    · rintro ⟨a, mid, heq, h⟩
      cases heq
      exact h

theorem pure_ok {a b : α} {input rest : List UInt8} :
    (Pure.pure a : ByteReader ε α).run input = .ok (b, rest) ↔ b = a ∧ rest = input := by
  show Except.ok (a, input) = _ ↔ _
  simp [eq_comm]

theorem take_ok {e : ε} {n : Nat} {input rest bytes : List UInt8} :
    (take e n).run input = .ok (bytes, rest) ↔ bytes.length = n ∧ input = bytes ++ rest := by
  show (if input.length < n then _ else _) = _ ↔ _
  constructor
  · intro h
    split at h
    · cases h
    · rename_i hlength
      cases h
      exact ⟨by rw [List.length_take]; omega, (List.take_append_drop n input).symm⟩
  · rintro ⟨hlength, rfl⟩
    rw [if_neg (by rw [List.length_append]; omega), List.take_left' hlength,
      List.drop_left' hlength]

theorem byte_ok {e : ε} {input rest : List UInt8} {b : UInt8} :
    (byte e).run input = .ok (b, rest) ↔ input = b :: rest := by
  cases input with
  | nil => simp [byte, run]
  | cons x xs => simp [byte, run]

theorem le_ok {e : ε} {width v : Nat} {input rest : List UInt8} :
    (le e width).run input = .ok (v, rest) ↔ v < 256 ^ width ∧ input = leBytes width v ++ rest := by
  show ((take e width) >>= fun bytes => Pure.pure (leNat bytes)).run input = _ ↔ _
  rw [bind_ok]
  constructor
  · rintro ⟨bytes, mid, htake, hpure⟩
    obtain ⟨hlength, rfl⟩ := take_ok.mp htake
    obtain ⟨rfl, rfl⟩ := pure_ok.mp hpure
    refine ⟨hlength ▸ leNat_lt bytes, ?_⟩
    rw [← hlength, leBytes_leNat]
  · rintro ⟨hv, rfl⟩
    exact ⟨_, _, take_ok.mpr ⟨leBytes_length width v, rfl⟩, pure_ok.mpr ⟨(leNat_leBytes hv).symm, rfl⟩⟩

theorem require_ok {e : ε} {check : Bool} {input rest : List UInt8} {u : Unit} :
    (require e check).run input = .ok (u, rest) ↔ check = true ∧ rest = input := by
  cases check with
  | false => simp [require, fail, run]
  | true =>
    show Except.ok ((), input) = _ ↔ _
    simp [eq_comm]

theorem ofOption_ok {e : ε} {o : Option α} {a : α} {input rest : List UInt8} :
    (ofOption e o).run input = .ok (a, rest) ↔ o = some a ∧ rest = input := by
  cases o with
  | none => simp [ofOption, fail, run]
  | some b =>
    show Except.ok (b, input) = _ ↔ _
    simp [eq_comm]

theorem ofExcept_ok {ε' : Type} {f : ε' → ε} {x : Except ε' α} {a : α}
    {input rest : List UInt8} :
    (ofExcept f x).run input = .ok (a, rest) ↔ x = .ok a ∧ rest = input := by
  cases x with
  | error e => simp [ofExcept, fail, run]
  | ok b =>
    show Except.ok (b, input) = _ ↔ _
    simp [eq_comm]

theorem finish_ok {e : ε} {input rest : List UInt8} {u : Unit} :
    (finish e).run input = .ok (u, rest) ↔ input = [] ∧ rest = [] := by
  cases input with
  | nil => simp [finish, run, eq_comm]
  | cons x xs => simp [finish, run]

theorem remainder_ok {input rest bytes : List UInt8} :
    (remainder : ByteReader ε (List UInt8)).run input = .ok (bytes, rest) ↔
      input = bytes ∧ rest = [] := by
  simp [remainder, run, eq_comm]

theorem mapError_ok {ε' : Type} {f : ε → ε'} {p : ByteReader ε α} {input rest : List UInt8}
    {a : α} : (p.mapError f).run input = .ok (a, rest) ↔ p.run input = .ok (a, rest) := by
  show Except.mapError f (p input) = _ ↔ p input = _
  cases p input with
  | error e => simp [Except.mapError]
  | ok x => simp [Except.mapError]

/-- Runs a reader on a whole record. -/
def decode (p : ByteReader ε α) (input : List UInt8) : Except ε α := (p.run input).map Prod.fst

theorem decode_eq_ok {p : ByteReader ε α} {input : List UInt8} {a : α} :
    p.decode input = .ok a ↔ ∃ rest, p.run input = .ok (a, rest) := by
  unfold decode
  cases p.run input with
  | error e => simp [Except.map]
  | ok x =>
    obtain ⟨b, rest⟩ := x
    simp [Except.map]

/-- The reader accepts exactly the words of the values in `dom`, and reads nothing more. -/
def Reads (p : ByteReader ε α) (dom : α → Prop) (write : α → List UInt8) : Prop :=
  ∀ input a rest, p.run input = .ok (a, rest) ↔ dom a ∧ input = write a ++ rest

theorem optional_ok {present : Bool} {p : ByteReader ε α} {dom : α → Prop}
    {write : α → List UInt8} (hp : Reads p dom write) {o : Option α} {input rest : List UInt8} :
    (optional present p).run input = .ok (o, rest) ↔
      (o.isSome = present ∧ (∀ a ∈ o, dom a)) ∧ input = o.elim [] write ++ rest := by
  cases present with
  | false =>
    show Except.ok (none, input) = _ ↔ _
    cases o <;> simp [eq_comm]
  | true =>
    show (p >>= fun a => Pure.pure (some a)).run input = _ ↔ _
    rw [bind_ok]
    constructor
    · rintro ⟨a, mid, hread, hpure⟩
      obtain ⟨rfl, rfl⟩ := pure_ok.mp hpure
      obtain ⟨ha, rfl⟩ := (hp input a _).mp hread
      exact ⟨⟨rfl, by simpa using ha⟩, rfl⟩
    · rintro ⟨⟨hsome, hdom⟩, rfl⟩
      cases o with
      | none => simp at hsome
      | some a => exact ⟨a, rest, (hp _ a rest).mpr ⟨hdom a rfl, rfl⟩, pure_ok.mpr ⟨rfl, rfl⟩⟩

theorem reads_le (e : ε) (width : Nat) :
    Reads (le e width) (fun v => v < 256 ^ width) (leBytes width) := fun _ _ _ => le_ok

end ByteReader

end Excise
