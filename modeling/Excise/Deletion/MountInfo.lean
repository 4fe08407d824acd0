import Excise.Lib.Bytes
import Excise.Lib.Folds

/-!
# Mount points of the Linux mount table

`decode_linux_mountinfo_path`: the kernel writes a space, a tab, a newline and a backslash of a
mount point as a backslash and three octal digits. The digits are joined in `u8` arithmetic, which
panics out of range in a build with overflow checks and wraps in one without.
-/

namespace Excise
set_option autoImplicit false

inductive MountPathError where
  | truncatedEscape
  | invalidEscape
  | nulEscape
  /-- The panic of a build with overflow checks. -/
  | arithmeticOverflow
  deriving DecidableEq, Repr

/-- The texts of the `InvalidData` errors. -/
def MountPathError.message : MountPathError → Option String
  | .truncatedEscape => some "truncated Linux mountinfo escape"
  | .invalidEscape => some "invalid Linux mountinfo escape"
  | .nulEscape => some "Linux mountinfo path contains a NUL escape"
  | .arithmeticOverflow => none

/-- The result of an operation on `u8`. -/
def u8Result (overflowChecks : Bool) (exact : Int) : Except MountPathError UInt8 :=
  if 0 ≤ exact ∧ exact < 256 then .ok (UInt8.ofNat exact.toNat)
  else if overflowChecks then .error .arithmeticOverflow
  else .ok (UInt8.ofNat (exact.emod 256).toNat)

def u8Sub (overflowChecks : Bool) (a b : UInt8) : Except MountPathError UInt8 :=
  u8Result overflowChecks (a.toNat - b.toNat)

def u8Mul (overflowChecks : Bool) (a b : UInt8) : Except MountPathError UInt8 :=
  u8Result overflowChecks (a.toNat * b.toNat)

def u8Add (overflowChecks : Bool) (a b : UInt8) : Except MountPathError UInt8 :=
  u8Result overflowChecks (a.toNat + b.toNat)

def backslash : UInt8 := 92

def isOctalDigit (byte : UInt8) : Bool := decide (48 ≤ byte.toNat ∧ byte.toNat ≤ 55)

section

variable (overflowChecks : Bool)

/-- The byte that three digits name. -/
def escapeValue (d₀ d₁ d₂ : UInt8) : Except MountPathError UInt8 := do
  let high ← u8Mul overflowChecks (← u8Sub overflowChecks d₀ 48) 64
  let middle ← u8Mul overflowChecks (← u8Sub overflowChecks d₁ 48) 8
  let both ← u8Add overflowChecks high middle
  u8Add overflowChecks both (← u8Sub overflowChecks d₂ 48)

/-- The loop of `decode_linux_mountinfo_path` from an index on. -/
def decodeMountinfoFrom (decoded : List UInt8) : List UInt8 → Except MountPathError (List UInt8)
  | [] => .ok decoded
  | byte :: rest =>
    if byte ≠ backslash then decodeMountinfoFrom (decoded ++ [byte]) rest
    else
      match rest with
      | d₀ :: d₁ :: d₂ :: rest =>
        if !(isOctalDigit d₀ && isOctalDigit d₁ && isOctalDigit d₂) then .error .invalidEscape
        else
          match escapeValue overflowChecks d₀ d₁ d₂ with
          | .error error => .error error
          | .ok value =>
            if value = 0 then .error .nulEscape
            else decodeMountinfoFrom (decoded ++ [value]) rest
      | _ => .error .truncatedEscape

def decodeLinuxMountinfoPath (encoded : List UInt8) : Except MountPathError (List UInt8) :=
  decodeMountinfoFrom overflowChecks [] encoded

end

/-! ## The digits -/

theorem u8Result_eq_ok {overflowChecks : Bool} {n : Nat} (h : n < 256) :
    u8Result overflowChecks n = .ok (UInt8.ofNat n) := by
  unfold u8Result
  rw [if_pos ⟨Int.natCast_nonneg n, by omega⟩, Int.toNat_natCast]

theorem u8Result_eq_error {n : Nat} (h : 256 ≤ n) :
    u8Result true n = .error .arithmeticOverflow := by
  unfold u8Result
  rw [if_neg fun hrange => by omega, if_pos rfl]

theorem toNat_digit {d : UInt8} (h : isOctalDigit d = true) :
    (UInt8.ofNat (d.toNat - 48)).toNat = d.toNat - 48 := by
  obtain ⟨hlow, hhigh⟩ := of_decide_eq_true h
  exact UInt8.toNat_ofNat_of_lt' (show d.toNat - 48 < 256 by omega)

theorem u8Sub_digit {overflowChecks : Bool} {d : UInt8} (h : isOctalDigit d = true) :
    u8Sub overflowChecks d 48 = .ok (UInt8.ofNat (d.toNat - 48)) := by
  obtain ⟨hlow, hhigh⟩ := of_decide_eq_true h
  have hexact : ((d.toNat : Int) - (48 : UInt8).toNat) = ((d.toNat - 48 : Nat) : Int) := by
    rw [show (48 : UInt8).toNat = 48 from rfl]
    omega
  unfold u8Sub
  rw [hexact]
  exact u8Result_eq_ok (by omega)

section

variable {overflowChecks : Bool} {d₀ d₁ d₂ : UInt8}

/-- Three octal digits make a byte when the first is at most three. -/
theorem escapeValue_eq_ok (h₀ : isOctalDigit d₀ = true) (h₁ : isOctalDigit d₁ = true)
    (h₂ : isOctalDigit d₂ = true) (hbound : d₀.toNat ≤ 51) :
    escapeValue overflowChecks d₀ d₁ d₂ =
      .ok (UInt8.ofNat ((d₀.toNat - 48) * 64 + (d₁.toNat - 48) * 8 + (d₂.toNat - 48))) := by
  obtain ⟨hlow₁, hhigh₁⟩ := of_decide_eq_true h₁
  obtain ⟨hlow₂, hhigh₂⟩ := of_decide_eq_true h₂
  have hhigh : u8Mul overflowChecks (UInt8.ofNat (d₀.toNat - 48)) 64 =
      .ok (UInt8.ofNat ((d₀.toNat - 48) * 64)) := by
    unfold u8Mul
    rw [toNat_digit h₀]
    exact u8Result_eq_ok (n := (d₀.toNat - 48) * 64) (by omega)
  have hmiddle : u8Mul overflowChecks (UInt8.ofNat (d₁.toNat - 48)) 8 =
      .ok (UInt8.ofNat ((d₁.toNat - 48) * 8)) := by
    unfold u8Mul
    rw [toNat_digit h₁]
    exact u8Result_eq_ok (n := (d₁.toNat - 48) * 8) (by omega)
  have hboth : u8Add overflowChecks (UInt8.ofNat ((d₀.toNat - 48) * 64))
      (UInt8.ofNat ((d₁.toNat - 48) * 8)) =
      .ok (UInt8.ofNat ((d₀.toNat - 48) * 64 + (d₁.toNat - 48) * 8)) := by
    unfold u8Add
    rw [UInt8.toNat_ofNat_of_lt' (show (d₀.toNat - 48) * 64 < 256 by omega),
      UInt8.toNat_ofNat_of_lt' (show (d₁.toNat - 48) * 8 < 256 by omega)]
    exact u8Result_eq_ok (n := (d₀.toNat - 48) * 64 + (d₁.toNat - 48) * 8) (by omega)
  have hall : u8Add overflowChecks (UInt8.ofNat ((d₀.toNat - 48) * 64 + (d₁.toNat - 48) * 8))
      (UInt8.ofNat (d₂.toNat - 48)) =
      .ok (UInt8.ofNat ((d₀.toNat - 48) * 64 + (d₁.toNat - 48) * 8 + (d₂.toNat - 48))) := by
    unfold u8Add
    rw [UInt8.toNat_ofNat_of_lt'
        (show (d₀.toNat - 48) * 64 + (d₁.toNat - 48) * 8 < 256 by omega), toNat_digit h₂]
    exact u8Result_eq_ok
      (n := (d₀.toNat - 48) * 64 + (d₁.toNat - 48) * 8 + (d₂.toNat - 48)) (by omega)
  simp only [escapeValue, u8Sub_digit h₀, u8Sub_digit h₁, u8Sub_digit h₂, hhigh, hmiddle, hboth,
    hall, bind, Except.bind]

theorem escapeValue_eq_error (h₀ : isOctalDigit d₀ = true) (hbound : 51 < d₀.toNat) :
    escapeValue true d₀ d₁ d₂ = .error .arithmeticOverflow := by
  have hhigh : u8Mul true (UInt8.ofNat (d₀.toNat - 48)) 64 = .error .arithmeticOverflow := by
    unfold u8Mul
    rw [toNat_digit h₀]
    exact u8Result_eq_error (n := (d₀.toNat - 48) * 64) (by omega)
  simp only [escapeValue, u8Sub_digit h₀, hhigh, bind, Except.bind]

end

/-! ## The scan -/

/-- What the scan passes over: plain bytes, and escapes of a byte other than NUL. -/
inductive Scanned : List UInt8 → Prop where
  | nil : Scanned []
  | plain {byte : UInt8} {rest : List UInt8} :
    byte ≠ backslash → Scanned rest → Scanned (byte :: rest)
  | escape {d₀ d₁ d₂ : UInt8} {rest : List UInt8} :
    isOctalDigit d₀ = true → isOctalDigit d₁ = true → isOctalDigit d₂ = true →
    d₀.toNat ≤ 51 → (d₀, d₁, d₂) ≠ (48, 48, 48) →
    Scanned rest → Scanned (backslash :: d₀ :: d₁ :: d₂ :: rest)

/-- No escape that the scan comes to names more than `\377`. -/
def EscapesInRange (encoded : List UInt8) : Prop :=
  ∀ front d₀ d₁ d₂ rest, encoded = front ++ backslash :: d₀ :: d₁ :: d₂ :: rest → Scanned front →
    isOctalDigit d₀ = true → isOctalDigit d₁ = true → isOctalDigit d₂ = true → d₀.toNat ≤ 51

section

variable {overflowChecks : Bool} {decoded rest : List UInt8} {byte d₀ d₁ d₂ : UInt8}

theorem decodeMountinfoFrom_plain (h : byte ≠ backslash) :
    decodeMountinfoFrom overflowChecks decoded (byte :: rest) =
      decodeMountinfoFrom overflowChecks (decoded ++ [byte]) rest := by
  conv_lhs => unfold decodeMountinfoFrom
  rw [if_pos h]

theorem decodeMountinfoFrom_escape :
    decodeMountinfoFrom overflowChecks decoded (backslash :: d₀ :: d₁ :: d₂ :: rest) =
      if !(isOctalDigit d₀ && isOctalDigit d₁ && isOctalDigit d₂) then .error .invalidEscape
      else
        match escapeValue overflowChecks d₀ d₁ d₂ with
        | .error error => .error error
        | .ok value =>
          if value = 0 then .error .nulEscape
          else decodeMountinfoFrom overflowChecks (decoded ++ [value]) rest := by
  conv_lhs => unfold decodeMountinfoFrom
  rw [if_neg (not_not.mpr rfl)]

theorem escape_value_ne_zero (h₀ : isOctalDigit d₀ = true) (h₁ : isOctalDigit d₁ = true)
    (h₂ : isOctalDigit d₂ = true) (hbound : d₀.toNat ≤ 51) :
    UInt8.ofNat ((d₀.toNat - 48) * 64 + (d₁.toNat - 48) * 8 + (d₂.toNat - 48)) = 0 ↔
      (d₀, d₁, d₂) = (48, 48, 48) := by
  obtain ⟨hlow₀, -⟩ := of_decide_eq_true h₀
  obtain ⟨hlow₁, hhigh₁⟩ := of_decide_eq_true h₁
  obtain ⟨hlow₂, hhigh₂⟩ := of_decide_eq_true h₂
  have hvalue : (UInt8.ofNat
      ((d₀.toNat - 48) * 64 + (d₁.toNat - 48) * 8 + (d₂.toNat - 48))).toNat =
      (d₀.toNat - 48) * 64 + (d₁.toNat - 48) * 8 + (d₂.toNat - 48) :=
    UInt8.toNat_ofNat_of_lt' (show _ < 256 by omega)
  have hdigit (d : UInt8) : d = 48 ↔ d.toNat = 48 := UInt8.toNat_inj.symm
  rw [← UInt8.toNat_inj, hvalue, Prod.mk.injEq, Prod.mk.injEq, hdigit, hdigit, hdigit]
  show _ = 0 ↔ _
  omega

theorem decodeMountinfoFrom_byte (h₀ : isOctalDigit d₀ = true) (h₁ : isOctalDigit d₁ = true)
    (h₂ : isOctalDigit d₂ = true) (hbound : d₀.toNat ≤ 51) (hnul : (d₀, d₁, d₂) ≠ (48, 48, 48)) :
    decodeMountinfoFrom overflowChecks decoded (backslash :: d₀ :: d₁ :: d₂ :: rest) =
      decodeMountinfoFrom overflowChecks (decoded ++
        [UInt8.ofNat ((d₀.toNat - 48) * 64 + (d₁.toNat - 48) * 8 + (d₂.toNat - 48))]) rest := by
  have hdigits : (!(isOctalDigit d₀ && isOctalDigit d₁ && isOctalDigit d₂)) = false := by
    rw [h₀, h₁, h₂]
    rfl
  have hvalue := mt (escape_value_ne_zero h₀ h₁ h₂ hbound).mp hnul
  rw [decodeMountinfoFrom_escape, hdigits, if_neg Bool.false_ne_true,
    escapeValue_eq_ok h₀ h₁ h₂ hbound]
  dsimp only
  rw [if_neg hvalue]

/-- What the scan passes over, it has decoded. -/
theorem Scanned.decodes {front : List UInt8} (h : Scanned front) (decoded : List UInt8) :
    ∃ decoded', decodeMountinfoFrom overflowChecks decoded (front ++ rest) =
      decodeMountinfoFrom overflowChecks decoded' rest := by
  induction h generalizing decoded with
  | nil => exact ⟨decoded, rfl⟩
  | @plain byte front hbyte _ ih =>
    obtain ⟨decoded', hrest⟩ := ih (decoded ++ [byte])
    exact ⟨decoded', by rw [List.cons_append, decodeMountinfoFrom_plain hbyte, hrest]⟩
  | @escape d₀ d₁ d₂ front h₀ h₁ h₂ hbound hnul _ ih =>
    obtain ⟨decoded', hrest⟩ := ih (decoded ++
      [UInt8.ofNat ((d₀.toNat - 48) * 64 + (d₁.toNat - 48) * 8 + (d₂.toNat - 48))])
    refine ⟨decoded', ?_⟩
    rw [List.cons_append, List.cons_append, List.cons_append, List.cons_append,
      decodeMountinfoFrom_byte h₀ h₁ h₂ hbound hnul, hrest]

theorem octal_of_not (h : ¬(!(isOctalDigit d₀ && isOctalDigit d₁ && isOctalDigit d₂)) = true) :
    (isOctalDigit d₀ = true ∧ isOctalDigit d₁ = true) ∧ isOctalDigit d₂ = true := by
  rwa [Bool.not_eq_true', Bool.not_eq_false, Bool.and_eq_true, Bool.and_eq_true] at h

/-- An escape out of range is reached when the arithmetic leaves `u8`. -/
theorem decodeMountinfoFrom_overflow {encoded : List UInt8}
    (h : decodeMountinfoFrom true decoded encoded = .error .arithmeticOverflow) :
    ∃ front d₀ d₁ d₂ rest, encoded = front ++ backslash :: d₀ :: d₁ :: d₂ :: rest ∧
      Scanned front ∧ isOctalDigit d₀ = true ∧ isOctalDigit d₁ = true ∧ isOctalDigit d₂ = true ∧
      51 < d₀.toNat := by
  fun_induction decodeMountinfoFrom true decoded encoded with
  | case1 decoded => cases h
  | case2 decoded byte rest hbyte ih =>
    -- a plain byte
    obtain ⟨front, d₀, d₁, d₂, tail, rfl, hfront, hrest⟩ := ih h
    exact ⟨byte :: front, d₀, d₁, d₂, tail, rfl, .plain hbyte hfront, hrest⟩
  | case3 => cases h
  | case4 decoded byte hbyte d₀ d₁ d₂ rest hdigits error hvalue =>
    -- digits that do not fit
    obtain ⟨⟨h₀, h₁⟩, h₂⟩ := octal_of_not hdigits
    refine ⟨[], d₀, d₁, d₂, rest, by rw [not_not.mp hbyte]; rfl, .nil, h₀, h₁, h₂, ?_⟩
    by_contra hbound
    rw [escapeValue_eq_ok h₀ h₁ h₂ (by omega)] at hvalue
    cases hvalue
  | case5 => cases h
  | case6 decoded byte hbyte d₀ d₁ d₂ rest hdigits value hvalue hnul ih =>
    -- an escape of a byte
    obtain ⟨⟨h₀, h₁⟩, h₂⟩ := octal_of_not hdigits
    obtain ⟨front, e₀, e₁, e₂, tail, rfl, hfront, hrest⟩ := ih h
    have hbound : d₀.toNat ≤ 51 := by
      by_contra hbound
      rw [escapeValue_eq_error h₀ (by omega)] at hvalue
      cases hvalue
    rw [escapeValue_eq_ok h₀ h₁ h₂ hbound] at hvalue
    cases hvalue
    refine ⟨backslash :: d₀ :: d₁ :: d₂ :: front, e₀, e₁, e₂, tail, ?_,
      .escape h₀ h₁ h₂ hbound (mt (escape_value_ne_zero h₀ h₁ h₂ hbound).mpr hnul) hfront, hrest⟩
    rw [not_not.mp hbyte]
    rfl
  | case7 => cases h

end

/-! ## Both directions -/

/-- How the kernel writes a mount point: a space, a tab, a newline and a backslash in octal. -/
def kernelEscape (byte : UInt8) : List UInt8 :=
  if byte = 32 ∨ byte = 9 ∨ byte = 10 ∨ byte = backslash then
    [backslash, 48 + byte / 64, 48 + byte / 8 % 8, 48 + byte % 8]
  else [byte]

def kernelEscapePath (path : List UInt8) : List UInt8 := path.flatMap kernelEscape

theorem decodeMountinfoFrom_kernelEscape (overflowChecks : Bool) (decoded path : List UInt8) :
    decodeMountinfoFrom overflowChecks decoded (kernelEscapePath path) = .ok (decoded ++ path) := by
  induction path generalizing decoded with
  | nil =>
    rw [List.append_nil]
    rfl
  | cons byte path ih =>
    have hstep : decodeMountinfoFrom overflowChecks decoded
        (kernelEscape byte ++ kernelEscapePath path) =
        decodeMountinfoFrom overflowChecks (decoded ++ [byte]) (kernelEscapePath path) := by
      unfold kernelEscape
      by_cases hescaped : byte = 32 ∨ byte = 9 ∨ byte = 10 ∨ byte = backslash
      · rw [if_pos hescaped]
        rcases hescaped with rfl | rfl | rfl | rfl
        · exact @decodeMountinfoFrom_byte _ decoded _ 48 52 48 rfl rfl rfl (by decide) (by decide)
        · exact @decodeMountinfoFrom_byte _ decoded _ 48 49 49 rfl rfl rfl (by decide) (by decide)
        · exact @decodeMountinfoFrom_byte _ decoded _ 48 49 50 rfl rfl rfl (by decide) (by decide)
        · exact @decodeMountinfoFrom_byte _ decoded _ 49 51 52 rfl rfl rfl (by decide) (by decide)
      · rw [if_neg hescaped]
        exact decodeMountinfoFrom_plain fun heq => hescaped (Or.inr (Or.inr (Or.inr heq)))
    rw [kernelEscapePath, List.flatMap_cons]
    exact hstep.trans ((ih (decoded ++ [byte])).trans (by rw [List.append_assoc]; rfl))

/-- What the kernel escaped is decoded, and the arithmetic stays in `u8` exactly when no escape that
the scan comes to names more than `\377`. -/
theorem mountinfo_path_decodes (path encoded : List UInt8) :
    (∀ overflowChecks, decodeLinuxMountinfoPath overflowChecks (kernelEscapePath path) = .ok path) ∧
      (decodeLinuxMountinfoPath true encoded ≠ .error .arithmeticOverflow ↔
        EscapesInRange encoded) := by
  refine ⟨fun overflowChecks => decodeMountinfoFrom_kernelEscape overflowChecks [] path, ?_⟩
  constructor
  · rintro hnone front d₀ d₁ d₂ rest rfl hfront h₀ h₁ h₂
    by_contra hbound
    refine hnone ?_
    have hdigits : (!(isOctalDigit d₀ && isOctalDigit d₁ && isOctalDigit d₂)) = false := by
      rw [h₀, h₁, h₂]
      rfl
    have hreached : ∃ decoded, decodeMountinfoFrom true []
        (front ++ backslash :: d₀ :: d₁ :: d₂ :: rest) =
        decodeMountinfoFrom true decoded (backslash :: d₀ :: d₁ :: d₂ :: rest) := hfront.decodes []
    obtain ⟨decoded, hdecoded⟩ := hreached
    unfold decodeLinuxMountinfoPath
    rw [hdecoded, decodeMountinfoFrom_escape, hdigits, if_neg Bool.false_ne_true,
      escapeValue_eq_error h₀ (by omega)]
  · intro hrange hoverflow
    obtain ⟨front, d₀, d₁, d₂, rest, heq, hfront, h₀, h₁, h₂, hbound⟩ :=
      decodeMountinfoFrom_overflow hoverflow
    exact absurd (hrange front d₀ d₁ d₂ rest heq hfront h₀ h₁ h₂) (by omega)

/-- `\400` is 256. -/
theorem mountinfo_escape_overflows :
    decodeLinuxMountinfoPath true [backslash, 52, 48, 48] = .error .arithmeticOverflow ∧
      decodeLinuxMountinfoPath false [backslash, 52, 48, 49] = .ok [1] := by
  decide +kernel

end Excise
