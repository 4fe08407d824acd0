import Excise.Lib.Folds
import Excise.Lib.TextCodes

/-!
# Native names on screen

`safe_display_os` of `native_path.rs` for Unix and for Windows. A name that is well formed text has
its backslashes and its unsafe characters escaped. Of one that is not, Unix shows the bytes, and
shows a backslash among them as it is.
-/

namespace Excise
set_option autoImplicit false

structure SafeDisplayPath where
  text : List Char
  deceptive : Bool
  deriving DecidableEq

/-- `char::is_control`. -/
def isControl (c : Char) : Bool := decide (c.toNat < 0x20 ∨ 0x7F ≤ c.toNat ∧ c.toNat ≤ 0x9F)

def isBidiControl (c : Char) : Bool :=
  decide (c.toNat = 0x061C ∨ c.toNat = 0x200E ∨ c.toNat = 0x200F ∨
    (0x202A ≤ c.toNat ∧ c.toNat ≤ 0x202E) ∨ (0x2066 ≤ c.toNat ∧ c.toNat ≤ 0x206F))

/-- What is never shown as it is. -/
def isUnsafe (c : Char) : Bool := isControl c || isBidiControl c

def unicodeEscape (n : Nat) : List Char := '\\' :: 'u' :: '{' :: (lowerHex 4 n ++ ['}'])

/-- How a character is shown, and whether it is deceptive. -/
def escapeChar (c : Char) : List Char × Bool :=
  if c = '\\' then (['\\', '\\'], false)
  else if c = '\n' then (['\\', 'n'], true)
  else if c = '\r' then (['\\', 'r'], true)
  else if c = '\t' then (['\\', 't'], true)
  else if c = '\x1b' then (['\\', 'x', '1', 'b'], true)
  else if isUnsafe c then (unicodeEscape c.toNat, true)
  else ([c], false)

def shownChar (c : Char) : List Char := (escapeChar c).1

def escapeValidText (value : List Char) : SafeDisplayPath where
  text := value.flatMap shownChar
  deceptive := value.any fun c => (escapeChar c).2

/-- `is_ascii_graphic` or a space. -/
def isPlainByte (byte : UInt8) : Bool := decide (0x20 ≤ byte.toNat ∧ byte.toNat ≤ 0x7E)

def charOf (byte : UInt8) : Char := Char.ofNat byte.toNat

def byteEscape (byte : UInt8) : List Char := '\\' :: 'x' :: lowerHex 2 byte.toNat

def shownByte (byte : UInt8) : List Char :=
  if isPlainByte byte then [charOf byte] else byteEscape byte

/-- `safe_display_os` on Unix. -/
def safeDisplayBytes (value : List UInt8) : SafeDisplayPath :=
  match utf8Chars value with
  | some chars => escapeValidText chars
  | none => ⟨value.flatMap shownByte, true⟩

/-- A character, or a surrogate alone. -/
def shownItem : Char ⊕ UInt16 → List Char
  | .inl c => shownChar c
  | .inr unit => unicodeEscape unit.toNat

def wideChars (value : List UInt16) : Option (List Char) :=
  (decodeUtf16 value).mapM fun item =>
    match item with
    | .inl c => some c
    | .inr _ => none

/-- `safe_display_os` on Windows. -/
def safeDisplayWide (value : List UInt16) : SafeDisplayPath :=
  match wideChars value with
  | some chars => escapeValidText chars
  | none => ⟨(decodeUtf16 value).flatMap shownItem, true⟩

/-! ## Characters -/

/-- Printable ASCII. -/
def isPrintable (c : Char) : Bool := decide (0x20 ≤ c.toNat ∧ c.toNat ≤ 0x7E)

theorem isPrintable_digitChar {d : Nat} (h : d < 16) : isPrintable (Nat.digitChar d) = true := by
  obtain ⟨hlow, hhigh⟩ := digitChar_ascii d h
  exact decide_eq_true ⟨by omega, hhigh⟩

theorem not_isUnsafe_of_isPrintable {c : Char} (h : isPrintable c = true) : isUnsafe c = false := by
  obtain ⟨hlow, hhigh⟩ := of_decide_eq_true h
  unfold isUnsafe isControl isBidiControl
  rw [Bool.or_eq_false_iff, decide_eq_false_iff_not, decide_eq_false_iff_not]
  omega

theorem unicodeEscape_eq {n : Nat} (h : n < 65536) : unicodeEscape n =
    ['\\', 'u', '{', Nat.digitChar (n / 4096), Nat.digitChar (n / 256 % 16),
      Nat.digitChar (n / 16 % 16), Nat.digitChar (n % 16), '}'] := by
  unfold unicodeEscape
  rw [lowerHex_four h]
  rfl

theorem isPrintable_unicodeEscape {n : Nat} (h : n < 65536) :
    ∀ c ∈ unicodeEscape n, isPrintable c = true := by
  rw [unicodeEscape_eq h]
  simp only [List.forall_mem_cons]
  exact ⟨rfl, rfl, rfl, isPrintable_digitChar (by omega), isPrintable_digitChar (by omega),
    isPrintable_digitChar (by omega), isPrintable_digitChar (by omega), rfl, by simp⟩

theorem toNat_lt_of_isUnsafe {c : Char} (h : isUnsafe c = true) : c.toNat < 65536 := by
  unfold isUnsafe isControl isBidiControl at h
  rw [Bool.or_eq_true, decide_eq_true_iff, decide_eq_true_iff] at h
  omega

/-- The letters that stand for a character of their own. -/
def namedEscapes : List (Char × Char) := [('\\', '\\'), ('n', '\n'), ('r', '\r'), ('t', '\t')]

/-- The forms in which a character is shown. -/
inductive ShownForm (c : Char) : Prop where
  | named {letter : Char} : (letter, c) ∈ namedEscapes → shownChar c = ['\\', letter] → ShownForm c
  | escape : c = '\x1b' → shownChar c = ['\\', 'x', '1', 'b'] → ShownForm c
  | unicode : isUnsafe c = true → c ∉ ['\n', '\r', '\t', '\x1b'] →
    shownChar c = unicodeEscape c.toNat → ShownForm c
  | plain : isUnsafe c = false → c ≠ '\\' → shownChar c = [c] → ShownForm c

theorem shownForm (c : Char) : ShownForm c := by
  by_cases hbackslash : c = '\\'
  · subst hbackslash
    exact .named (show ('\\', '\\') ∈ namedEscapes by decide) rfl
  by_cases hnewline : c = '\n'
  · subst hnewline
    exact .named (show ('n', '\n') ∈ namedEscapes by decide) rfl
  by_cases hreturn : c = '\r'
  · subst hreturn
    exact .named (show ('r', '\r') ∈ namedEscapes by decide) rfl
  by_cases htab : c = '\t'
  · subst htab
    exact .named (show ('t', '\t') ∈ namedEscapes by decide) rfl
  by_cases hescape : c = '\x1b'
  · subst hescape
    exact .escape rfl rfl
  have hrest : shownChar c = if isUnsafe c then unicodeEscape c.toNat else [c] := by
    unfold shownChar escapeChar
    rw [if_neg hbackslash, if_neg hnewline, if_neg hreturn, if_neg htab, if_neg hescape]
    split <;> rfl
  by_cases hrisky : isUnsafe c = true
  · have hnone : c ∉ ['\n', '\r', '\t', '\x1b'] := by
      simp only [List.mem_cons, List.not_mem_nil, or_false, not_or]
      exact ⟨hnewline, hreturn, htab, hescape⟩
    exact .unicode hrisky hnone (by rw [hrest, if_pos hrisky])
  · exact .plain (Bool.eq_false_iff.mpr hrisky) hbackslash (by rw [hrest, if_neg hrisky])

/-! ## Words -/

def codePoint : Char ⊕ UInt16 → Nat
  | .inl c => c.toNat
  | .inr unit => unit.toNat

/-- A character, or a surrogate. -/
def IsItem : Char ⊕ UInt16 → Prop
  | .inl _ => True
  | .inr unit => isSurrogate unit = true

/-- The first code point shown, and what follows. -/
def readItem : List Char → Option (Nat × List Char)
  | '\\' :: '\\' :: rest => some (92, rest)
  | '\\' :: 'n' :: rest => some (10, rest)
  | '\\' :: 'r' :: rest => some (13, rest)
  | '\\' :: 't' :: rest => some (9, rest)
  | '\\' :: 'x' :: '1' :: 'b' :: rest => some (27, rest)
  | '\\' :: 'u' :: '{' :: a :: b :: c :: d :: '}' :: rest =>
    some (hexValue a * 4096 + hexValue b * 256 + hexValue c * 16 + hexValue d, rest)
  | c :: rest => some (c.toNat, rest)
  | [] => none

theorem readItem_unicodeEscape {n : Nat} (h : n < 65536) (rest : List Char) :
    readItem (unicodeEscape n ++ rest) = some (n, rest) := by
  rw [unicodeEscape_eq h]
  show some (_, rest) = _
  rw [hexValue_digitChar _ (by omega), hexValue_digitChar _ (by omega),
    hexValue_digitChar _ (by omega), hexValue_digitChar _ (by omega)]
  congr 2
  omega

theorem readItem_plain {c : Char} (h : c ≠ '\\') (rest : List Char) :
    readItem (c :: rest) = some (c.toNat, rest) := by
  unfold readItem
  split
  all_goals rename_i heq
  · exact absurd (List.cons.inj heq).1 h
  · exact absurd (List.cons.inj heq).1 h
  · exact absurd (List.cons.inj heq).1 h
  · exact absurd (List.cons.inj heq).1 h
  · exact absurd (List.cons.inj heq).1 h
  · exact absurd (List.cons.inj heq).1 h
  · obtain ⟨rfl, rfl⟩ := List.cons.inj heq
    rfl
  · cases heq

theorem readItem_shownChar (c : Char) (rest : List Char) :
    readItem (shownChar c ++ rest) = some (c.toNat, rest) := by
  cases shownForm c with
  | @named letter hmem hshown =>
    rw [hshown]
    simp only [namedEscapes, List.mem_cons, Prod.mk.injEq, List.not_mem_nil, or_false] at hmem
    rcases hmem with ⟨rfl, rfl⟩ | ⟨rfl, rfl⟩ | ⟨rfl, rfl⟩ | ⟨rfl, rfl⟩ <;> rfl
  | escape hchar hshown =>
    rw [hshown, hchar]
    rfl
  | unicode hrisky _ hshown =>
    rw [hshown]
    exact readItem_unicodeEscape (toNat_lt_of_isUnsafe hrisky) rest
  | plain _ hne hshown =>
    rw [hshown]
    exact readItem_plain hne rest

theorem readItem_shownItem (item : Char ⊕ UInt16) (rest : List Char) :
    readItem (shownItem item ++ rest) = some (codePoint item, rest) := by
  cases item with
  | inl c => exact readItem_shownChar c rest
  | inr unit => exact readItem_unicodeEscape unit.toNat_lt rest

/-- Surrogates are no characters. -/
theorem codePoint_inj {a b : Char ⊕ UInt16} (ha : IsItem a) (hb : IsItem b)
    (h : codePoint a = codePoint b) : a = b := by
  have hno (c : Char) {unit : UInt16} (hunit : isSurrogate unit = true) :
      c.toNat ≠ unit.toNat := by
    obtain ⟨hlow, hhigh⟩ := of_decide_eq_true hunit
    have hvalid : c.toNat.isValidChar := c.valid
    unfold Nat.isValidChar at hvalid
    omega
  cases a with
  | inl c =>
    cases b with
    | inl d => exact congrArg Sum.inl (Char.toNat_inj.mp h)
    | inr unit => exact absurd h (hno c hb)
  | inr unit =>
    cases b with
    | inl d => exact absurd h.symm (hno d ha)
    | inr other => exact congrArg Sum.inr (UInt16.toNat_inj.mp h)

theorem selfDelimiting_shownItem : SelfDelimiting shownItem IsItem where
  cancel := by
    intro a b s t ha hb heq
    have hread := congrArg readItem heq
    rw [readItem_shownItem, readItem_shownItem, Option.some_inj, Prod.mk.injEq] at hread
    exact ⟨codePoint_inj ha hb hread.1, hread.2⟩
  nonempty := by
    intro a ha hnil
    have hread := readItem_shownItem a []
    rw [hnil] at hread
    cases hread

theorem escapeValidText_inj {xs ys : List Char}
    (h : (escapeValidText xs).text = (escapeValidText ys).text) : xs = ys := by
  have hitems (chars : List Char) :
      (escapeValidText chars).text = (chars.map Sum.inl).flatMap shownItem := by
    rw [List.flatMap_map]
    rfl
  have hall (chars : List Char) : ∀ item ∈ chars.map (Sum.inl : Char → Char ⊕ UInt16),
      IsItem item := by
    intro item hitem
    obtain ⟨c, -, rfl⟩ := List.mem_map.mp hitem
    trivial
  rw [hitems, hitems] at h
  exact List.map_injective_iff.mpr (fun a b => Sum.inl.inj)
    (selfDelimiting_shownItem.flatMap_inj (hall xs) (hall ys) h)

/-! ## Windows -/

theorem safeDisplayWide_text (value : List UInt16) :
    (safeDisplayWide value).text = (decodeUtf16 value).flatMap shownItem := by
  unfold safeDisplayWide
  cases hchars : wideChars value with
  | none => rfl
  | some chars =>
    have hitems : chars.map Sum.inl = decodeUtf16 value := by
      refine (mapM_eq_some_iff_map (fun item c => ?_) _ _).mp hchars
      cases item with
      | inl d => exact ⟨fun h => congrArg Sum.inl (Option.some_inj.mp h).symm,
          fun h => congrArg some (Sum.inl.inj h).symm⟩
      | inr unit => exact ⟨fun h => (by cases h), fun h => (by cases h)⟩
    rw [← hitems, List.flatMap_map]
    rfl

theorem safeDisplayWide_inj {xs ys : List UInt16}
    (h : (safeDisplayWide xs).text = (safeDisplayWide ys).text) : xs = ys := by
  have hall (value : List UInt16) : ∀ item ∈ decodeUtf16 value, IsItem item := by
    intro item hitem
    cases item with
    | inl c => trivial
    | inr unit => exact isSurrogate_of_mem_decodeUtf16 hitem
  rw [safeDisplayWide_text, safeDisplayWide_text] at h
  exact decodeUtf16_inj (selfDelimiting_shownItem.flatMap_inj (hall xs) (hall ys) h)

/-! ## Nothing unsafe is shown -/

theorem isUnsafe_of_mem_shownChar {c shown : Char} (h : shown ∈ shownChar c) :
    isUnsafe shown = false := by
  cases shownForm c with
  | @named letter hmem hshown =>
    rw [hshown] at h
    simp only [namedEscapes, List.mem_cons, Prod.mk.injEq, List.not_mem_nil, or_false] at hmem h
    rcases hmem with ⟨rfl, rfl⟩ | ⟨rfl, rfl⟩ | ⟨rfl, rfl⟩ | ⟨rfl, rfl⟩ <;>
      rcases h with rfl | rfl <;> rfl
  | escape _ hshown =>
    rw [hshown] at h
    simp only [List.mem_cons, List.not_mem_nil, or_false] at h
    rcases h with rfl | rfl | rfl | rfl <;> rfl
  | unicode hrisky _ hshown =>
    rw [hshown] at h
    exact not_isUnsafe_of_isPrintable
      (isPrintable_unicodeEscape (toNat_lt_of_isUnsafe hrisky) shown h)
  | plain hsafe _ hshown =>
    rw [hshown] at h
    rwa [List.mem_singleton.mp h]

theorem isUnsafe_of_mem_text {chars : List Char} {c : Char}
    (h : c ∈ (escapeValidText chars).text) : isUnsafe c = false := by
  obtain ⟨d, -, hc⟩ := List.mem_flatMap.mp h
  exact isUnsafe_of_mem_shownChar hc

theorem isUnsafe_of_mem_wide {value : List UInt16} {c : Char}
    (h : c ∈ (safeDisplayWide value).text) : isUnsafe c = false := by
  rw [safeDisplayWide_text] at h
  obtain ⟨item, -, hc⟩ := List.mem_flatMap.mp h
  cases item with
  | inl d => exact isUnsafe_of_mem_shownChar hc
  | inr unit => exact not_isUnsafe_of_isPrintable (isPrintable_unicodeEscape unit.toNat_lt c hc)

/-! ## Bytes -/

def charsOf (bytes : List UInt8) : List Char := bytes.map charOf

/-- The bytes of an ASCII text. -/
def bytesOf (text : List Char) : List UInt8 := text.map fun c => UInt8.ofNat c.toNat

def shownBytes (bytes : List UInt8) : List Char := bytes.flatMap shownByte

section

variable {byte : UInt8} {bytes : List UInt8} {text : List Char}

theorem toNat_charOf (byte : UInt8) : (charOf byte).toNat = byte.toNat := by
  have hlt := byte.toNat_lt
  exact toNat_charOfNat (Or.inl (by omega))

theorem charOf_inj {a b : UInt8} (h : charOf a = charOf b) : a = b := by
  rw [← UInt8.toNat_inj, ← toNat_charOf, h, toNat_charOf]

theorem isPrintable_charOf : isPrintable (charOf byte) = isPlainByte byte := by
  unfold isPrintable isPlainByte
  rw [toNat_charOf]

theorem byteEscape_eq (byte : UInt8) : byteEscape byte =
    ['\\', 'x', Nat.digitChar (byte.toNat / 16), Nat.digitChar (byte.toNat % 16)] := by
  unfold byteEscape
  rw [lowerHex_two byte.toNat_lt]

theorem isPrintable_byteEscape : ∀ c ∈ byteEscape byte, isPrintable c = true := by
  have hlt := byte.toNat_lt
  rw [byteEscape_eq]
  simp only [List.forall_mem_cons]
  exact ⟨rfl, rfl, isPrintable_digitChar (by omega), isPrintable_digitChar (by omega), by simp⟩

theorem isPrintable_shownByte : ∀ c ∈ shownByte byte, isPrintable c = true := by
  unfold shownByte
  split
  · rename_i hplain
    intro c hc
    rw [List.mem_singleton.mp hc, isPrintable_charOf]
    exact hplain
  · exact isPrintable_byteEscape

theorem isPrintable_shownBytes : ∀ c ∈ shownBytes bytes, isPrintable c = true := by
  intro c hc
  obtain ⟨byte, -, hc⟩ := List.mem_flatMap.mp hc
  exact isPrintable_shownByte c hc

theorem not_isPlainByte_of_isHighByte (h : isHighByte byte = true) : isPlainByte byte = false := by
  have hlow := of_decide_eq_true h
  exact decide_eq_false fun hplain => by omega

theorem not_isHighByte_of_isPlainByte (h : isPlainByte byte = true) : isHighByte byte = false := by
  obtain ⟨hlow, hhigh⟩ := of_decide_eq_true h
  exact decide_eq_false (by omega)

theorem shownBytes_plain (h : ∀ b ∈ bytes, isPlainByte b = true) :
    shownBytes bytes = charsOf bytes := by
  unfold shownBytes charsOf
  induction bytes with
  | nil => rfl
  | cons b bytes ih =>
    have hb : shownByte b = [charOf b] := if_pos (h b List.mem_cons_self)
    rw [List.flatMap_cons, hb, ih fun a ha => h a (List.mem_cons_of_mem b ha)]
    rfl

theorem charsOf_bytesOf (h : ∀ c ∈ text, isPrintable c = true) : charsOf (bytesOf text) = text := by
  unfold charsOf bytesOf
  rw [List.map_map]
  refine (List.map_congr_left fun c hc => ?_).trans (List.map_id text)
  obtain ⟨-, hhigh⟩ := of_decide_eq_true (h c hc)
  rw [Function.comp_apply]
  unfold charOf
  rw [UInt8.toNat_ofNat_of_lt' (show c.toNat < 256 by omega), Char.ofNat_toNat]
  rfl

theorem bytesOf_charsOf (bytes : List UInt8) : bytesOf (charsOf bytes) = bytes := by
  unfold charsOf bytesOf
  rw [List.map_map]
  refine (List.map_congr_left fun b _ => ?_).trans (List.map_id bytes)
  rw [Function.comp_apply, toNat_charOf, UInt8.ofNat_toNat]
  rfl

theorem isPrintable_charsOf (h : ∀ b ∈ bytes, isPlainByte b = true) :
    ∀ c ∈ charsOf bytes, isPrintable c = true := by
  intro c hc
  obtain ⟨b, hb, rfl⟩ := List.mem_map.mp hc
  rw [isPrintable_charOf]
  exact h b hb

theorem isPlainByte_bytesOf (h : ∀ c ∈ text, isPrintable c = true) :
    ∀ b ∈ bytesOf text, isPlainByte b = true := by
  intro b hb
  obtain ⟨c, hc, rfl⟩ := List.mem_map.mp hb
  obtain ⟨hlow, hhigh⟩ := of_decide_eq_true (h c hc)
  unfold isPlainByte
  rw [UInt8.toNat_ofNat_of_lt' (show c.toNat < 256 by omega)]
  exact decide_eq_true ⟨hlow, hhigh⟩

theorem shownBytes_bytesOf (h : ∀ c ∈ text, isPrintable c = true) :
    shownBytes (bytesOf text) = text := by
  rw [shownBytes_plain (isPlainByte_bytesOf h), charsOf_bytesOf h]

theorem shownBytes_append (a b : List UInt8) :
    shownBytes (a ++ b) = shownBytes a ++ shownBytes b := List.flatMap_append ..

theorem shownBytes_cons (a : UInt8) (b : List UInt8) :
    shownBytes (a :: b) = shownByte a ++ shownBytes b := rfl

def isEscapedByte (byte : UInt8) : Bool := !isPlainByte byte

theorem countP_plain (h : isPlainByte byte = true) (bytes : List UInt8) :
    (byte :: bytes).countP isEscapedByte = bytes.countP isEscapedByte := by
  refine List.countP_cons_of_neg ?_
  unfold isEscapedByte
  rw [h]
  decide

theorem countP_escaped (h : isPlainByte byte = false) (bytes : List UInt8) :
    (byte :: bytes).countP isEscapedByte = bytes.countP isEscapedByte + 1 := by
  refine List.countP_cons_of_pos ?_
  unfold isEscapedByte
  rw [h]
  rfl

theorem countP_isEscapedByte_eq_zero :
    bytes.countP isEscapedByte = 0 ↔ ∀ b ∈ bytes, isPlainByte b = true := by
  rw [List.countP_eq_zero]
  refine forall₂_congr fun b _ => ?_
  unfold isEscapedByte
  rw [Bool.not_eq_true', Bool.not_eq_false]

theorem shownByte_escaped (h : isPlainByte byte = false) : shownByte byte = byteEscape byte :=
  if_neg (by rw [h]; exact Bool.false_ne_true)

theorem exists_isHighByte (h : utf8Chars bytes = none) : ∃ b ∈ bytes, isHighByte b = true := by
  by_contra hnone
  have hall : ∀ b ∈ bytes, isHighByte b = false := fun b hb =>
    Bool.eq_false_iff.mpr fun hhigh => hnone ⟨b, hb, hhigh⟩
  rw [utf8Chars_ascii hall] at h
  cases h

/-- One byte that is not ASCII, alone, spoils a name. -/
theorem utf8Chars_lone {front rest : List UInt8} (h : isHighByte byte = true)
    (hfront : ∀ b ∈ front, isHighByte b = false) (hrest : ∀ b ∈ rest, isHighByte b = false) :
    utf8Chars (front ++ byte :: rest) = none := by
  rw [Option.eq_none_iff_forall_ne_some]
  intro chars hchars
  refine utf8_high_count chars ?_
  have hzero {l : List UInt8} (hl : ∀ b ∈ l, isHighByte b = false) : l.countP isHighByte = 0 :=
    List.countP_eq_zero.mpr fun b hb => by rw [hl b hb]; exact Bool.false_ne_true
  rw [← utf8Chars_eq_some.mp hchars, List.countP_append, List.countP_cons_of_pos h, hzero hfront,
    hzero hrest]

end

/-! ## What text is read back as a name -/

/-- Text in which every backslash begins an escape. -/
inductive Escaped : List Char → Prop where
  | nil : Escaped []
  | named {letter c : Char} {rest : List Char} :
    (letter, c) ∈ namedEscapes → Escaped rest → Escaped ('\\' :: letter :: rest)
  | escape {rest : List Char} : Escaped rest → Escaped ('\\' :: 'x' :: '1' :: 'b' :: rest)
  | unicode {c : Char} {rest : List Char} :
    isUnsafe c = true → c ∉ ['\n', '\r', '\t', '\x1b'] → Escaped rest →
    Escaped (unicodeEscape c.toNat ++ rest)
  | plain {c : Char} {rest : List Char} :
    isUnsafe c = false → c ≠ '\\' → Escaped rest → Escaped (c :: rest)

theorem shownChar_of_named {letter c : Char} (h : (letter, c) ∈ namedEscapes) :
    shownChar c = ['\\', letter] := by
  simp only [namedEscapes, List.mem_cons, Prod.mk.injEq, List.not_mem_nil, or_false] at h
  rcases h with ⟨rfl, rfl⟩ | ⟨rfl, rfl⟩ | ⟨rfl, rfl⟩ | ⟨rfl, rfl⟩ <;> rfl

theorem shownChar_of_risky {c : Char} (h : isUnsafe c = true)
    (hnone : c ∉ ['\n', '\r', '\t', '\x1b']) : shownChar c = unicodeEscape c.toNat := by
  cases shownForm c with
  | @named letter hmem hshown =>
    simp only [namedEscapes, List.mem_cons, Prod.mk.injEq, List.not_mem_nil, or_false] at hmem
    rcases hmem with ⟨-, rfl⟩ | ⟨-, rfl⟩ | ⟨-, rfl⟩ | ⟨-, rfl⟩
    · cases h
    · exact absurd (by decide) hnone
    · exact absurd (by decide) hnone
    · exact absurd (by decide) hnone
  | escape hchar _ =>
    subst hchar
    exact absurd (by decide) hnone
  | unicode _ _ hshown => exact hshown
  | plain hsafe _ _ =>
    rw [hsafe] at h
    cases h

theorem shownChar_of_safe {c : Char} (h : isUnsafe c = false) (hne : c ≠ '\\') :
    shownChar c = [c] := by
  cases shownForm c with
  | @named letter hmem hshown =>
    simp only [namedEscapes, List.mem_cons, Prod.mk.injEq, List.not_mem_nil, or_false] at hmem
    rcases hmem with ⟨-, rfl⟩ | ⟨-, rfl⟩ | ⟨-, rfl⟩ | ⟨-, rfl⟩
    · exact absurd rfl hne
    · cases h
    · cases h
    · cases h
  | escape hchar _ =>
    subst hchar
    cases h
  | unicode hrisky _ _ =>
    rw [hrisky] at h
    cases h
  | plain _ _ hshown => exact hshown

theorem escaped_iff {text : List Char} :
    Escaped text ↔ ∃ chars, (escapeValidText chars).text = text := by
  constructor
  · intro h
    induction h with
    | nil => exact ⟨[], rfl⟩
    | @named letter c rest hmem _ ih =>
      obtain ⟨chars, rfl⟩ := ih
      exact ⟨c :: chars, congrArg (· ++ _) (shownChar_of_named hmem)⟩
    | escape _ ih =>
      obtain ⟨chars, rfl⟩ := ih
      exact ⟨'\x1b' :: chars, rfl⟩
    | @unicode c rest hrisky hnone _ ih =>
      obtain ⟨chars, rfl⟩ := ih
      exact ⟨c :: chars, congrArg (· ++ _) (shownChar_of_risky hrisky hnone)⟩
    | @plain c rest hsafe hne _ ih =>
      obtain ⟨chars, rfl⟩ := ih
      exact ⟨c :: chars, congrArg (· ++ _) (shownChar_of_safe hsafe hne)⟩
  · rintro ⟨chars, rfl⟩
    induction chars with
    | nil => exact .nil
    | cons c chars ih =>
      show Escaped (shownChar c ++ (escapeValidText chars).text)
      cases shownForm c with
      | named hmem hshown =>
        rw [hshown]
        exact .named hmem ih
      | escape _ hshown =>
        rw [hshown]
        exact .escape ih
      | unicode hrisky hnone hshown =>
        rw [hshown]
        exact .unicode hrisky hnone ih
      | plain hsafe hne hshown =>
        rw [hshown]
        exact .plain hsafe hne ih

/-- Text that does not begin with a backslash begins with a character of the name. -/
theorem cons_of_text {chars : List Char} {c : Char} {rest : List Char} (hne : c ≠ '\\')
    (h : (escapeValidText chars).text = c :: rest) :
    ∃ chars', chars = c :: chars' ∧ (escapeValidText chars').text = rest := by
  cases chars with
  | nil => cases h
  | cons d chars =>
    have hcons : shownChar d ++ (escapeValidText chars).text = c :: rest := h
    cases shownForm d with
    | named _ hshown =>
      rw [hshown] at hcons
      exact absurd (List.cons.inj hcons).1.symm hne
    | escape _ hshown =>
      rw [hshown] at hcons
      exact absurd (List.cons.inj hcons).1.symm hne
    | unicode _ _ hshown =>
      rw [hshown] at hcons
      exact absurd (List.cons.inj hcons).1.symm hne
    | plain _ _ hshown =>
      rw [hshown] at hcons
      obtain ⟨rfl, hrest⟩ := List.cons.inj hcons
      exact ⟨chars, rfl, hrest⟩

/-- The last backslash of an escaped backslash, seen inside the text shown. -/
theorem shownChar_backslash {c : Char} {front tail text rest : List Char} {byte : UInt8}
    (hhigh : isHighByte byte = true) (hchar : shownChar c = front ++ '\\' :: tail)
    (h : byteEscape byte ++ rest = '\\' :: tail ++ text) :
    c = '\\' ∧ front = ['\\'] ∧ tail = [] := by
  have hlt := byte.toNat_lt
  have hlow : 128 ≤ byte.toNat := of_decide_eq_true hhigh
  rw [byteEscape_eq] at h
  have hmem {a : Char} {l front' : List Char} (hcons : a :: l = a :: front' ++ '\\' :: tail) :
      '\\' ∈ l := by
    rw [List.cons_append, List.cons.injEq] at hcons
    rw [hcons.2]
    exact List.mem_append_right _ List.mem_cons_self
  have hdigit {d : Nat} (hd : d < 16) : Nat.digitChar d ≠ '\\' := digitChar_ne_backslash d hd
  cases shownForm c with
  | @named letter hnamed hshown =>
    rw [hshown] at hchar
    simp only [namedEscapes, List.mem_cons, Prod.mk.injEq, List.not_mem_nil, or_false] at hnamed
    cases front with
    | nil =>
      cases hchar
      have hletter : 'x' = letter := (List.cons.inj (List.cons.inj h).2).1
      subst hletter
      rcases hnamed with ⟨hx, -⟩ | ⟨hx, -⟩ | ⟨hx, -⟩ | ⟨hx, -⟩ <;> exact absurd hx (by decide)
    | cons a front =>
      obtain ⟨rfl, hrest⟩ := List.cons.inj hchar
      cases front with
      | nil =>
        obtain ⟨rfl, htail⟩ := List.cons.inj hrest
        rcases hnamed with ⟨-, rfl⟩ | ⟨hx, -⟩ | ⟨hx, -⟩ | ⟨hx, -⟩
        · exact ⟨rfl, rfl, htail.symm⟩
        · exact absurd hx (by decide)
        · exact absurd hx (by decide)
        · exact absurd hx (by decide)
      | cons b front =>
        obtain ⟨rfl, -⟩ := List.cons.inj hrest
        exact absurd (hmem hrest) List.not_mem_nil
  | escape _ hshown =>
    rw [hshown] at hchar
    cases front with
    | nil =>
      cases hchar
      have hone : Nat.digitChar (byte.toNat / 16) = '1' := by
        simp only [List.cons_append, List.cons.injEq] at h
        exact h.2.2.1
      have hnot : ∀ d < 16, 8 ≤ d → Nat.digitChar d ≠ '1' := by decide
      exact absurd hone (hnot _ (by omega) (by omega))
    | cons a front =>
      obtain ⟨rfl, -⟩ := List.cons.inj hchar
      exact absurd (hmem hchar) (by decide)
  | unicode hrisky _ hshown =>
    rw [hshown, unicodeEscape_eq (toNat_lt_of_isUnsafe hrisky)] at hchar
    cases front with
    | nil =>
      cases hchar
      simp only [List.cons_append, List.cons.injEq] at h
      exact absurd h.2.1 (by decide)
    | cons a front =>
      have hcode := toNat_lt_of_isUnsafe hrisky
      obtain ⟨rfl, -⟩ := List.cons.inj hchar
      have hinside := hmem hchar
      simp only [List.mem_cons, List.not_mem_nil, or_false] at hinside
      rcases hinside with h | h | h | h | h | h | h
      · exact absurd h (by decide)
      · exact absurd h (by decide)
      · exact absurd h.symm (hdigit (by omega))
      · exact absurd h.symm (hdigit (by omega))
      · exact absurd h.symm (hdigit (by omega))
      · exact absurd h.symm (hdigit (by omega))
      · exact absurd h (by decide)
  | plain _ hne hshown =>
    rw [hshown] at hchar
    cases front with
    | nil => exact absurd (List.cons.inj hchar).1 hne
    | cons a front =>
      obtain ⟨rfl, -⟩ := List.cons.inj hchar
      exact absurd (hmem hchar) (List.not_mem_nil)

/-- A byte escape in the text of a name stands in the name, after an escaped backslash. -/
theorem text_byteEscape {chars front rest : List Char} {byte : UInt8}
    (hhigh : isHighByte byte = true)
    (h : (escapeValidText chars).text = front ++ (byteEscape byte ++ rest)) :
    ∃ before after, chars = before ++ (byteEscape byte ++ after) ∧
      front = (escapeValidText before).text ++ ['\\'] ∧ (escapeValidText after).text = rest := by
  induction chars generalizing front with
  | nil =>
    have hnil : [] = front ++ (byteEscape byte ++ rest) := h
    have hempty := (List.append_eq_nil_iff.mp (List.append_eq_nil_iff.mp hnil.symm).2).1
    rw [byteEscape_eq] at hempty
    cases hempty
  | cons c chars ih =>
    have hcons : shownChar c ++ (escapeValidText chars).text = front ++ (byteEscape byte ++ rest) := h
    rcases List.append_eq_append_iff.mp hcons with ⟨front', rfl, hrest⟩ | ⟨tail, hchar, hrest⟩
    · -- the escape begins after this character
      obtain ⟨before, after, rfl, rfl, hafter⟩ := ih hrest
      exact ⟨c :: before, after, rfl, (List.append_assoc _ _ _).symm, hafter⟩
    · cases tail with
      | nil =>
        rw [List.nil_append] at hrest
        obtain ⟨before, after, -, hfront, -⟩ := @ih [] hrest.symm
        exact absurd hfront.symm (by simp)
      | cons x tail =>
        have hx : x = '\\' := by
          rw [byteEscape_eq] at hrest
          exact (List.cons.inj hrest).1.symm
        subst hx
        obtain ⟨rfl, rfl, rfl⟩ := shownChar_backslash hhigh hchar hrest
        have hlt := byte.toNat_lt
        rw [byteEscape_eq] at hrest
        have hafter : (escapeValidText chars).text = 'x' ::
            Nat.digitChar (byte.toNat / 16) :: Nat.digitChar (byte.toNat % 16) :: rest :=
          (List.cons.inj hrest).2.symm
        obtain ⟨chars, rfl, hfirst⟩ := cons_of_text (by decide) hafter
        obtain ⟨chars, rfl, hsecond⟩ :=
          cons_of_text (digitChar_ne_backslash (byte.toNat / 16) (by omega)) hfirst
        obtain ⟨chars, rfl, hthird⟩ :=
          cons_of_text (digitChar_ne_backslash (byte.toNat % 16) (by omega)) hsecond
        refine ⟨[], chars, ?_, rfl, hthird⟩
        rw [byteEscape_eq]
        rfl

/-! ## What text is read back as bytes -/

/-- No escape of a byte stands in the text. -/
def NoByteEscape (text : List Char) : Prop :=
  ∀ front byte rest, isPlainByte byte = false → text ≠ front ++ (byteEscape byte ++ rest)

theorem NoByteEscape.of_cons {c : Char} {text : List Char} (h : NoByteEscape (c :: text)) :
    NoByteEscape text := by
  rintro front byte rest hbyte rfl
  exact h (c :: front) byte rest hbyte rfl

/-- An escape does not reach over a character that is not in it. -/
theorem NoByteEscape.append {front rest : List Char} {c : Char} (hc : isPrintable c = false)
    (hfront : NoByteEscape front) (hrest : NoByteEscape rest) : NoByteEscape (front ++ c :: rest) := by
  intro before byte after hbyte heq
  rw [← List.append_assoc] at heq
  rcases List.append_eq_append_iff.mp heq with ⟨middle, hleft, hright⟩ | ⟨middle, hleft, hright⟩
  · -- the escape ends after the character
    rcases List.append_eq_append_iff.mp hleft with ⟨gap, hbefore, hescape⟩ | ⟨gap, hbefore, hescape⟩
    · cases middle with
      | nil =>
        rw [List.append_nil] at hescape
        refine hfront before byte [] hbyte ?_
        rw [hbefore, hescape, List.append_nil]
      | cons x middle =>
        obtain ⟨rfl, -⟩ := List.cons.inj hright
        have hinside : c ∈ byteEscape byte := by
          rw [hescape]
          exact List.mem_append_right _ List.mem_cons_self
        exact absurd (isPrintable_byteEscape c hinside) (by rw [hc]; exact Bool.false_ne_true)
    · -- or begins after it
      rw [hescape] at hright
      cases gap with
      | nil =>
        rw [List.nil_append] at hright
        have hinside : c ∈ byteEscape byte := by
          rw [byteEscape_eq] at hright ⊢
          rw [(List.cons.inj hright).1]
          exact List.mem_cons_self
        exact absurd (isPrintable_byteEscape c hinside) (by rw [hc]; exact Bool.false_ne_true)
      | cons x gap =>
        exact hrest gap byte after hbyte
          ((List.cons.inj hright).2.trans (List.append_assoc gap (byteEscape byte) after))
  · rw [List.append_assoc] at hleft
    exact hfront before byte middle hbyte hleft

theorem cons_of_shownBytes {bytes : List UInt8} {c : Char} {rest : List Char} (hne : c ≠ '\\')
    (h : shownBytes bytes = c :: rest) :
    ∃ byte bytes', bytes = byte :: bytes' ∧ isPlainByte byte = true ∧ charOf byte = c ∧
      shownBytes bytes' = rest := by
  cases bytes with
  | nil => cases h
  | cons byte bytes =>
    rw [shownBytes_cons] at h
    unfold shownByte at h
    split at h
    · rename_i hplain
      obtain ⟨hc, hrest⟩ := List.cons.inj h
      exact ⟨byte, bytes, rfl, hplain, hc, hrest⟩
    · rw [byteEscape_eq] at h
      exact absurd (List.cons.inj h).1.symm hne

/-- The three characters after the backslash of an escape, read as bytes. -/
theorem escape_of_shownBytes {bytes : List UInt8} {byte : UInt8} {rest : List Char}
    (h : '\\' :: shownBytes bytes = byteEscape byte ++ rest) :
    ∃ x a b bytes', bytes = x :: a :: b :: bytes' ∧ (∀ d ∈ [x, a, b], isPlainByte d = true) ∧
      '\\' :: charsOf [x, a, b] = byteEscape byte ∧ shownBytes bytes' = rest := by
  have hlt := byte.toNat_lt
  rw [byteEscape_eq] at h ⊢
  obtain ⟨x, bytes, rfl, hx, hx', h⟩ := cons_of_shownBytes (by decide) (List.cons.inj h).2
  obtain ⟨a, bytes, rfl, ha, ha', h⟩ :=
    cons_of_shownBytes (digitChar_ne_backslash (byte.toNat / 16) (by omega)) h
  obtain ⟨b, bytes, rfl, hb, hb', h⟩ :=
    cons_of_shownBytes (digitChar_ne_backslash (byte.toNat % 16) (by omega)) h
  refine ⟨x, a, b, bytes, rfl, ?_, ?_, h⟩
  · simp only [List.forall_mem_cons]
    exact ⟨hx, ha, hb, by simp⟩
  · unfold charsOf
    rw [List.map_cons, List.map_cons, List.map_cons, hx', ha', hb']
    rfl

theorem byteEscape_inj {a b : UInt8} {s t : List Char}
    (h : byteEscape a ++ s = byteEscape b ++ t) : a = b ∧ s = t := by
  have ha := a.toNat_lt
  have hb := b.toNat_lt
  rw [byteEscape_eq, byteEscape_eq] at h
  simp only [List.cons_append, List.nil_append, List.cons.injEq, true_and] at h
  have hvalue {d e : Nat} (hd : d < 16) (he : e < 16) (h : Nat.digitChar d = Nat.digitChar e) :
      d = e := by
    rw [← hexValue_digitChar d hd, h, hexValue_digitChar e he]
  have hhigh := hvalue (by omega) (by omega) h.1
  have hlow := hvalue (by omega) (by omega) h.2.1
  exact ⟨UInt8.toNat_inj.mp (by omega), h.2.2⟩

/-- Bytes shown as `bytes` are, where no escape stands literally: the same, or with some of the
escapes written out. -/
theorem eq_or_fewer_of_shownBytes {bytes other : List UInt8} (h : NoByteEscape (charsOf bytes))
    (hshown : shownBytes other = shownBytes bytes) :
    other = bytes ∨
      other.countP isEscapedByte < bytes.countP isEscapedByte := by
  have hnonempty (byte : UInt8) : shownByte byte ≠ [] := by
    unfold shownByte
    split
    · exact List.cons_ne_nil _ _
    · rw [byteEscape_eq]
      exact List.cons_ne_nil _ _
  induction bytes generalizing other with
  | nil =>
    cases other with
    | nil => exact Or.inl rfl
    | cons d other => exact absurd (List.append_eq_nil_iff.mp hshown).1 (hnonempty d)
  | cons byte bytes ih =>
    cases other with
    | nil => exact absurd (List.append_eq_nil_iff.mp hshown.symm).1 (hnonempty byte)
    | cons d other =>
      rw [shownBytes_cons, shownBytes_cons] at hshown
      have hrest : NoByteEscape (charsOf bytes) := h.of_cons
      by_cases hd : isPlainByte d = true
      · have hshownd : shownByte d = [charOf d] := if_pos hd
        by_cases hbyte : isPlainByte byte = true
        · -- the same byte
          have hshownbyte : shownByte byte = [charOf byte] := if_pos hbyte
          rw [hshownd, hshownbyte] at hshown
          obtain ⟨hchar, htail⟩ := List.cons.inj hshown
          rw [charOf_inj hchar]
          rcases ih hrest htail with rfl | hfewer
          · exact Or.inl rfl
          · right
            rw [countP_plain hbyte, countP_plain hbyte]
            exact hfewer
        · -- an escape, written out in the other
          rw [Bool.not_eq_true] at hbyte
          rw [hshownd, shownByte_escaped hbyte, byteEscape_eq] at hshown
          have hchar : charOf d = '\\' := (List.cons.inj hshown).1
          rw [hchar, ← byteEscape_eq] at hshown
          obtain ⟨x, a, b, other', rfl, hplain, -, htail⟩ := escape_of_shownBytes hshown
          simp only [List.forall_mem_cons] at hplain
          have hcount : (d :: x :: a :: b :: other').countP isEscapedByte =
              other'.countP isEscapedByte := by
            rw [countP_plain hd, countP_plain hplain.1, countP_plain hplain.2.1,
              countP_plain hplain.2.2.1]
          right
          rw [hcount, countP_escaped hbyte]
          rcases ih hrest htail with rfl | hfewer
          · exact Nat.lt_succ_self _
          · exact Nat.lt_succ_of_lt hfewer
      · rw [Bool.not_eq_true] at hd
        rw [shownByte_escaped hd] at hshown
        by_cases hbyte : isPlainByte byte = true
        · -- an escape that stands here literally
          have hshownbyte : shownByte byte = [charOf byte] := if_pos hbyte
          rw [hshownbyte] at hshown
          have hchar : charOf byte = '\\' := by
            rw [byteEscape_eq] at hshown
            exact (List.cons.inj hshown).1.symm
          rw [hchar] at hshown
          obtain ⟨x, a, b, bytes', rfl, -, hescape, -⟩ := escape_of_shownBytes hshown.symm
          refine absurd ?_ (h [] d (charsOf bytes') hd)
          rw [← hescape, ← hchar]
          rfl
        · rw [Bool.not_eq_true] at hbyte
          rw [shownByte_escaped hbyte] at hshown
          obtain ⟨rfl, htail⟩ := byteEscape_inj hshown
          rcases ih hrest htail with rfl | hfewer
          · exact Or.inl rfl
          · right
            rw [countP_escaped hbyte, countP_escaped hbyte]
            exact Nat.succ_lt_succ hfewer

/-! ## Names that are shown alone -/

/-- Shown as it is or escaped in ASCII. -/
def IsShownInAscii (c : Char) : Prop := c.toNat < 128 ∨ isUnsafe c = true

/-- Some character is shown as itself and is not ASCII, or no escape of a byte above 127 stands in
the name literally. -/
def TextShownAlone (chars : List Char) : Prop :=
  (∃ c ∈ chars, ¬IsShownInAscii c) ∨
    ∀ front byte rest, isHighByte byte = true → chars ≠ front ++ (byteEscape byte ++ rest)

/-- One byte is escaped, none stands in the name literally as an escape, and what is around the byte
is not a text that ends in an open escape and a text. -/
def BytesShownAlone (name : List UInt8) : Prop :=
  ∃ front byte rest, name = front ++ byte :: rest ∧ isHighByte byte = true ∧
    (∀ b ∈ front ++ rest, isPlainByte b = true) ∧
    NoByteEscape (charsOf front) ∧ NoByteEscape (charsOf rest) ∧
    ¬∃ before, charsOf front = before ++ ['\\'] ∧ Escaped before ∧ Escaped (charsOf rest)

def ShownAlone (name : List UInt8) : Prop :=
  match utf8Chars name with
  | some chars => TextShownAlone chars
  | none => BytesShownAlone name

section

variable {name : List UInt8} {chars : List Char}

theorem text_of_some (h : utf8Chars name = some chars) :
    (safeDisplayBytes name).text = (escapeValidText chars).text := by
  unfold safeDisplayBytes
  rw [h]

theorem text_of_none (h : utf8Chars name = none) :
    (safeDisplayBytes name).text = shownBytes name := by
  unfold safeDisplayBytes
  rw [h]
  rfl

theorem isUnsafe_of_mem_bytes {c : Char} (h : c ∈ (safeDisplayBytes name).text) :
    isUnsafe c = false := by
  cases hchars : utf8Chars name with
  | none =>
    rw [text_of_none hchars] at h
    exact not_isUnsafe_of_isPrintable (isPrintable_shownBytes c h)
  | some chars =>
    rw [text_of_some hchars] at h
    exact isUnsafe_of_mem_text h

theorem isPrintable_shownChar {c : Char} (h : IsShownInAscii c) :
    ∀ shown ∈ shownChar c, isPrintable shown = true := by
  cases shownForm c with
  | @named letter hmem hshown =>
    rw [hshown]
    simp only [namedEscapes, List.mem_cons, Prod.mk.injEq, List.not_mem_nil, or_false] at hmem
    rcases hmem with ⟨rfl, -⟩ | ⟨rfl, -⟩ | ⟨rfl, -⟩ | ⟨rfl, -⟩ <;> exact List.all_eq_true.mp rfl
  | escape _ hshown =>
    rw [hshown]
    exact List.all_eq_true.mp rfl
  | unicode hrisky _ hshown =>
    rw [hshown]
    exact isPrintable_unicodeEscape (toNat_lt_of_isUnsafe hrisky)
  | plain hsafe _ hshown =>
    rw [hshown]
    intro shown hmem
    rw [List.mem_singleton.mp hmem]
    rcases h with hascii | hrisky
    · unfold isUnsafe isControl at hsafe
      rw [Bool.or_eq_false_iff, decide_eq_false_iff_not] at hsafe
      exact decide_eq_true (by omega)
    · rw [hrisky] at hsafe
      cases hsafe

theorem isShownInAscii_of_isPrintable {c : Char}
    (h : ∀ shown ∈ shownChar c, isPrintable shown = true) : IsShownInAscii c := by
  cases shownForm c with
  | @named letter hmem hshown =>
    simp only [namedEscapes, List.mem_cons, Prod.mk.injEq, List.not_mem_nil, or_false] at hmem
    rcases hmem with ⟨-, rfl⟩ | ⟨-, rfl⟩ | ⟨-, rfl⟩ | ⟨-, rfl⟩ <;> exact Or.inl (by decide)
  | escape hchar _ =>
    rw [hchar]
    exact Or.inl (by decide)
  | unicode hrisky _ _ => exact Or.inr hrisky
  | plain _ _ hshown =>
    rw [hshown] at h
    obtain ⟨-, hhigh⟩ := of_decide_eq_true (h c List.mem_cons_self)
    exact Or.inl (by omega)

theorem isPrintable_text (h : ∀ c ∈ chars, IsShownInAscii c) :
    ∀ c ∈ (escapeValidText chars).text, isPrintable c = true := by
  intro shown hshown
  obtain ⟨c, hc, hshown⟩ := List.mem_flatMap.mp hshown
  exact isPrintable_shownChar (h c hc) shown hshown

theorem text_append (a b : List Char) :
    (escapeValidText (a ++ b)).text = (escapeValidText a).text ++ (escapeValidText b).text :=
  List.flatMap_append ..

/-- An escape that stands in a name has its backslash escaped. -/
theorem text_of_byteEscape (byte : UInt8) :
    (escapeValidText (byteEscape byte)).text = '\\' :: byteEscape byte := by
  have hlt := byte.toNat_lt
  have hdigit {d : Nat} (hd : d < 16) : shownChar (Nat.digitChar d) = [Nat.digitChar d] :=
    shownChar_of_safe (not_isUnsafe_of_isPrintable (isPrintable_digitChar hd))
      (digitChar_ne_backslash d hd)
  rw [byteEscape_eq]
  show shownChar '\\' ++ (shownChar 'x' ++ (shownChar (Nat.digitChar (byte.toNat / 16)) ++
    (shownChar (Nat.digitChar (byte.toNat % 16)) ++ []))) = _
  rw [hdigit (by omega), hdigit (by omega)]
  rfl

/-- The name with one escape of a text read as a byte. -/
theorem utf8Chars_readOnce {front rest : List Char} {byte : UInt8} (hhigh : isHighByte byte = true)
    (hfront : ∀ c ∈ front, isPrintable c = true) (hrest : ∀ c ∈ rest, isPrintable c = true) :
    utf8Chars (bytesOf front ++ byte :: bytesOf rest) = none ∧
      shownBytes (bytesOf front ++ byte :: bytesOf rest) = front ++ (byteEscape byte ++ rest) := by
  constructor
  · exact utf8Chars_lone hhigh
      (fun b hb => not_isHighByte_of_isPlainByte (isPlainByte_bytesOf hfront b hb))
      fun b hb => not_isHighByte_of_isPlainByte (isPlainByte_bytesOf hrest b hb)
  · rw [shownBytes_append, shownBytes_cons, shownBytes_bytesOf hfront, shownBytes_bytesOf hrest,
      shownByte_escaped (not_isPlainByte_of_isHighByte hhigh)]

/-- A well formed name. -/
theorem text_shown_alone_iff (h : utf8Chars name = some chars) :
    (∀ other, (safeDisplayBytes other).text = (safeDisplayBytes name).text → other = name) ↔
      TextShownAlone chars := by
  rw [text_of_some h]
  constructor
  · intro hunique
    by_contra hshared
    unfold TextShownAlone at hshared
    push Not at hshared
    obtain ⟨hascii, front, byte, rest, hhigh, rfl⟩ := hshared
    have hfront : ∀ c ∈ (escapeValidText front).text ++ ['\\'], isPrintable c = true := by
      intro c hc
      rcases List.mem_append.mp hc with hc | hc
      · exact isPrintable_text (fun d hd => hascii d (List.mem_append_left _ hd)) c hc
      · rw [List.mem_singleton.mp hc]
        rfl
    have hrest : ∀ c ∈ (escapeValidText rest).text, isPrintable c = true := isPrintable_text fun d hd =>
      hascii d (List.mem_append_right _ (List.mem_append_right _ hd))
    obtain ⟨hnone, hshown⟩ := utf8Chars_readOnce hhigh hfront hrest
    have htext : (escapeValidText (front ++ (byteEscape byte ++ rest))).text =
        (escapeValidText front).text ++ ['\\'] ++
          (byteEscape byte ++ (escapeValidText rest).text) := by
      rw [text_append, text_append, text_of_byteEscape, List.append_assoc]
      rfl
    have hsame := hunique _ ((text_of_none hnone).trans (hshown.trans htext.symm))
    rw [hsame, h] at hnone
    cases hnone
  · intro halone other hother
    cases hchars : utf8Chars other with
    | some chars' =>
      rw [text_of_some hchars] at hother
      rw [utf8Chars_eq_some.mp hchars, utf8Chars_eq_some.mp h, escapeValidText_inj hother]
    | none =>
      rw [text_of_none hchars] at hother
      obtain ⟨byte, hbyte, hhigh⟩ := exists_isHighByte hchars
      obtain ⟨front, rest, rfl⟩ := List.append_of_mem hbyte
      have htext : (escapeValidText chars).text =
          shownBytes front ++ (byteEscape byte ++ shownBytes rest) := by
        rw [← hother, shownBytes_append, shownBytes_cons,
          shownByte_escaped (not_isPlainByte_of_isHighByte hhigh)]
      obtain ⟨before, after, rfl, -, -⟩ := text_byteEscape hhigh htext
      rcases halone with ⟨c, hc, hnot⟩ | hnone
      · refine absurd (isShownInAscii_of_isPrintable fun shown hshown => ?_) hnot
        have hmem : shown ∈ (escapeValidText (before ++ (byteEscape byte ++ after))).text :=
          List.mem_flatMap.mpr ⟨c, hc, hshown⟩
        rw [← hother] at hmem
        exact isPrintable_shownBytes shown hmem
      · exact absurd rfl (hnone before byte after hhigh)

/-- No other name is shown as these bytes. -/
def Alone (name : List UInt8) : Prop :=
  ∀ other, (safeDisplayBytes other).text = shownBytes name → other = name

section

variable {front rest : List UInt8} {byte : UInt8}

/-- With one byte escaped, all others are shown as they are. -/
theorem Alone.plain (h : Alone (front ++ byte :: rest)) (hhigh : isHighByte byte = true) :
    ∀ b ∈ front ++ rest, isPlainByte b = true := by
  obtain ⟨hnone, hshown⟩ := utf8Chars_readOnce hhigh (@isPrintable_shownBytes front)
    (@isPrintable_shownBytes rest)
  have hescaped := shownByte_escaped (not_isPlainByte_of_isHighByte hhigh)
  have hsame := h _ ((text_of_none hnone).trans (hshown.trans (by
    rw [shownBytes_append, shownBytes_cons, hescaped])))
  have hcount := congrArg (List.countP isEscapedByte) hsame
  have hzero (bytes : List UInt8) : (bytesOf (shownBytes bytes)).countP isEscapedByte = 0 :=
    countP_isEscapedByte_eq_zero.mpr (isPlainByte_bytesOf isPrintable_shownBytes)
  have hbyte := not_isPlainByte_of_isHighByte hhigh
  rw [List.countP_append, List.countP_append, countP_escaped hbyte, countP_escaped hbyte, hzero,
    hzero] at hcount
  refine countP_isEscapedByte_eq_zero.mp ?_
  rw [List.countP_append]
  omega

/-- A byte that stands for itself and one that is shown as an escape differ. -/
theorem ne_of_escape {other : List UInt8} {shown : UInt8} (h : isPlainByte shown = false)
    (heq : front ++ shown :: rest = front ++ 92 :: other) : False := by
  have hhead := (List.cons.inj (List.append_cancel_left heq)).1
  rw [hhead] at h
  cases h

theorem bytesOf_byteEscape (shown : UInt8) (text : List Char) : ∃ tail,
    bytesOf (byteEscape shown ++ text) = 92 :: tail := by
  rw [byteEscape_eq]
  exact ⟨_, rfl⟩

/-- An escape that plain bytes show stands in them as it is written. -/
theorem escape_shown {bytes : List UInt8} {before after : List Char} {shown : UInt8}
    (hplain : ∀ b ∈ bytes, isPlainByte b = true)
    (heq : charsOf bytes = before ++ (byteEscape shown ++ after)) :
    (∀ c ∈ before, isPrintable c = true) ∧ (∀ c ∈ after, isPrintable c = true) ∧
      ∃ tail, bytes = bytesOf before ++ 92 :: tail := by
  have hprintable := isPrintable_charsOf hplain
  rw [heq] at hprintable
  obtain ⟨tail, htail⟩ := bytesOf_byteEscape shown after
  refine ⟨fun c hc => hprintable c (List.mem_append_left _ hc), fun c hc =>
    hprintable c (List.mem_append_right _ (List.mem_append_right _ hc)), tail, ?_⟩
  rw [← htail, ← bytesOf_charsOf bytes, heq]
  exact List.map_append

/-- A byte of ASCII between printable characters leaves them ASCII. -/
theorem not_isHighByte_between {before after : List Char} {shown : UInt8}
    (hbefore : ∀ c ∈ before, isPrintable c = true) (hafter : ∀ c ∈ after, isPrintable c = true)
    (hlow : ¬isHighByte shown = true) :
    ∀ b ∈ bytesOf before ++ shown :: bytesOf after, isHighByte b = false := by
  intro b hb
  rcases List.mem_append.mp hb with hb | hb
  · exact not_isHighByte_of_isPlainByte (isPlainByte_bytesOf hbefore b hb)
  · rcases List.mem_cons.mp hb with rfl | hb
    · exact Bool.eq_false_iff.mpr hlow
    · exact not_isHighByte_of_isPlainByte (isPlainByte_bytesOf hafter b hb)

/-- No escape stands literally in front of the byte. -/
theorem Alone.none_before (h : Alone (front ++ byte :: rest)) (hhigh : isHighByte byte = true) :
    NoByteEscape (charsOf front) := by
  have hplain := h.plain hhigh
  have hfront : ∀ b ∈ front, isPlainByte b = true := fun b hb =>
    hplain b (List.mem_append_left _ hb)
  have hrest : ∀ b ∈ rest, isPlainByte b = true := fun b hb => hplain b (List.mem_append_right _ hb)
  have hescaped := shownByte_escaped (not_isPlainByte_of_isHighByte hhigh)
  intro before shown after hshown heq
  obtain ⟨hbefore, hafter, tail, hbytes⟩ := escape_shown hfront heq
  have htext : shownBytes (front ++ byte :: rest) =
      before ++ (byteEscape shown ++ (after ++ (byteEscape byte ++ charsOf rest))) := by
    rw [shownBytes_append, shownBytes_cons, hescaped, shownBytes_plain hfront,
      shownBytes_plain hrest, heq, List.append_assoc, List.append_assoc]
  by_cases hhigh' : isHighByte shown = true
  · -- that escape is read and the other one is not
    have hlater : ∀ c ∈ after ++ (byteEscape byte ++ charsOf rest), isPrintable c = true := by
      intro c hc
      rcases List.mem_append.mp hc with hc | hc
      · exact hafter c hc
      · rcases List.mem_append.mp hc with hc | hc
        · exact isPrintable_byteEscape c hc
        · exact isPrintable_charsOf hrest c hc
    obtain ⟨hnone, htext'⟩ := utf8Chars_readOnce hhigh' hbefore hlater
    have hsame := h _ ((text_of_none hnone).trans (htext'.trans htext.symm))
    rw [hbytes, List.append_assoc] at hsame
    exact ne_of_escape hshown hsame
  · -- both are read
    have hnone : utf8Chars ((bytesOf before ++ shown :: bytesOf after) ++ byte :: rest) = none := by
      exact utf8Chars_lone hhigh (not_isHighByte_between hbefore hafter hhigh') fun b hb =>
        not_isHighByte_of_isPlainByte (hrest b hb)
    have htext' : shownBytes ((bytesOf before ++ shown :: bytesOf after) ++ byte :: rest) =
        shownBytes (front ++ byte :: rest) := by
      rw [htext, shownBytes_append, shownBytes_append, shownBytes_cons, shownBytes_cons, hescaped,
        shownByte_escaped hshown, shownBytes_bytesOf hbefore, shownBytes_bytesOf hafter,
        shownBytes_plain hrest, List.append_assoc, List.append_assoc]
    have hsame := h _ ((text_of_none hnone).trans htext')
    rw [hbytes, List.append_assoc, List.append_assoc] at hsame
    exact ne_of_escape hshown hsame

/-- Nor after it. -/
theorem Alone.none_after (h : Alone (front ++ byte :: rest)) (hhigh : isHighByte byte = true) :
    NoByteEscape (charsOf rest) := by
  have hplain := h.plain hhigh
  have hfront : ∀ b ∈ front, isPlainByte b = true := fun b hb =>
    hplain b (List.mem_append_left _ hb)
  have hrest : ∀ b ∈ rest, isPlainByte b = true := fun b hb => hplain b (List.mem_append_right _ hb)
  have hbyte := not_isPlainByte_of_isHighByte hhigh
  have hescaped := shownByte_escaped hbyte
  intro before shown after hshown heq
  obtain ⟨hbefore, hafter, tail, hbytes⟩ := escape_shown hrest heq
  have htext : shownBytes (front ++ byte :: rest) =
      charsOf front ++ (byteEscape byte ++ (before ++ (byteEscape shown ++ after))) := by
    rw [shownBytes_append, shownBytes_cons, hescaped, shownBytes_plain hfront,
      shownBytes_plain hrest, heq]
  by_cases hhigh' : isHighByte shown = true
  · have hearlier : ∀ c ∈ charsOf front ++ (byteEscape byte ++ before), isPrintable c = true := by
      intro c hc
      rcases List.mem_append.mp hc with hc | hc
      · exact isPrintable_charsOf hfront c hc
      · rcases List.mem_append.mp hc with hc | hc
        · exact isPrintable_byteEscape c hc
        · exact hbefore c hc
    obtain ⟨hnone, htext'⟩ := utf8Chars_readOnce hhigh' hearlier hafter
    have hsame := h _ ((text_of_none hnone).trans (htext'.trans (by
      rw [htext, List.append_assoc, List.append_assoc])))
    obtain ⟨tail', htail'⟩ := bytesOf_byteEscape byte before
    have hwritten : bytesOf (charsOf front ++ (byteEscape byte ++ before)) = front ++ 92 :: tail' := by
      rw [← htail']
      exact List.map_append.trans (congrArg (· ++ _) (bytesOf_charsOf front))
    rw [hwritten, List.append_assoc] at hsame
    exact ne_of_escape hbyte hsame.symm
  · have hnone : utf8Chars (front ++ byte :: (bytesOf before ++ shown :: bytesOf after)) = none := by
      exact utf8Chars_lone hhigh (fun b hb => not_isHighByte_of_isPlainByte (hfront b hb))
        (not_isHighByte_between hbefore hafter hhigh')
    have htext' : shownBytes (front ++ byte :: (bytesOf before ++ shown :: bytesOf after)) =
        shownBytes (front ++ byte :: rest) := by
      rw [htext, shownBytes_append, shownBytes_cons, shownBytes_append, shownBytes_cons, hescaped,
        shownByte_escaped hshown, shownBytes_bytesOf hbefore, shownBytes_bytesOf hafter,
        shownBytes_plain hfront]
    have hsame := h _ ((text_of_none hnone).trans htext')
    rw [hbytes] at hsame
    have hcancel := (List.cons.inj (List.append_cancel_left hsame)).2
    exact ne_of_escape hshown hcancel

/-- What is shown is not the text of a well formed name. -/
theorem Alone.open (h : Alone (front ++ byte :: rest)) (hhigh : isHighByte byte = true)
    (hname : utf8Chars (front ++ byte :: rest) = none) :
    ¬∃ before, charsOf front = before ++ ['\\'] ∧ Escaped before ∧ Escaped (charsOf rest) := by
  have hplain := h.plain hhigh
  rintro ⟨before, hfront, hbefore, hrest⟩
  obtain ⟨first, rfl⟩ := escaped_iff.mp hbefore
  obtain ⟨second, hsecond⟩ := escaped_iff.mp hrest
  have hchars : utf8Chars
      ((first ++ (byteEscape byte ++ second)).flatMap String.utf8EncodeChar) =
      some (first ++ (byteEscape byte ++ second)) := utf8Chars_eq_some.mpr rfl
  have htext : (escapeValidText (first ++ (byteEscape byte ++ second))).text =
      shownBytes (front ++ byte :: rest) := by
    rw [text_append, text_append, text_of_byteEscape, shownBytes_append, shownBytes_cons,
      shownByte_escaped (not_isPlainByte_of_isHighByte hhigh),
      shownBytes_plain fun b hb => hplain b (List.mem_append_left _ hb),
      shownBytes_plain fun b hb => hplain b (List.mem_append_right _ hb), hfront, hsecond,
      List.append_assoc]
    rfl
  have hsame := h _ ((text_of_some hchars).trans htext)
  rw [hsame, hname] at hchars
  cases hchars

end

/-- A name that is not well formed. -/
theorem bytes_shown_alone_iff (h : utf8Chars name = none) :
    (∀ other, (safeDisplayBytes other).text = (safeDisplayBytes name).text → other = name) ↔
      BytesShownAlone name := by
  rw [text_of_none h]
  constructor
  · intro hunique
    have halone : Alone name := hunique
    obtain ⟨byte, hbyte, hhigh⟩ := exists_isHighByte h
    obtain ⟨front, rest, rfl⟩ := List.append_of_mem hbyte
    exact ⟨front, byte, rest, rfl, hhigh, halone.plain hhigh, halone.none_before hhigh,
      halone.none_after hhigh, halone.open hhigh h⟩
  · rintro ⟨front, byte, rest, rfl, hhigh, hplain, hfront, hrest, hopen⟩ other hother
    have hescaped := shownByte_escaped (not_isPlainByte_of_isHighByte hhigh)
    cases hchars : utf8Chars other with
    | some chars =>
      rw [text_of_some hchars, shownBytes_append, shownBytes_cons, hescaped,
        shownBytes_plain fun b hb => hplain b (List.mem_append_left _ hb),
        shownBytes_plain fun b hb => hplain b (List.mem_append_right _ hb)] at hother
      obtain ⟨before, after, -, hbefore, hafter⟩ := text_byteEscape hhigh hother
      exact absurd ⟨_, hbefore, escaped_iff.mpr ⟨before, rfl⟩, escaped_iff.mpr ⟨after, hafter⟩⟩ hopen
    | none =>
      rw [text_of_none hchars] at hother
      have hunprintable : isPrintable (charOf byte) = false := by
        rw [isPrintable_charOf]
        exact not_isPlainByte_of_isHighByte hhigh
      have hnone : NoByteEscape (charsOf (front ++ byte :: rest)) := by
        unfold charsOf
        rw [List.map_append, List.map_cons]
        exact hfront.append hunprintable hrest
      rcases eq_or_fewer_of_shownBytes hnone hother with heq | hfewer
      · exact heq
      · -- the other has no byte left that is not plain
        have hzero := countP_isEscapedByte_eq_zero.mpr hplain
        rw [List.countP_append] at hzero
        rw [List.countP_append, countP_escaped (not_isPlainByte_of_isHighByte hhigh)] at hfewer
        obtain ⟨b, hb, hhigh'⟩ := exists_isHighByte hchars
        have hnotplain := countP_isEscapedByte_eq_zero.mp (show _ = 0 by omega) b hb
        rw [not_isPlainByte_of_isHighByte hhigh'] at hnotplain
        cases hnotplain

end

/-- Nothing unsafe is shown, and on Windows different names are shown differently. On Unix a name is
shown as no other is exactly when it is `ShownAlone`. -/
theorem safe_display_alone_iff (wide : List UInt16) (name : List UInt8) :
    ((∀ c ∈ (safeDisplayWide wide).text, isUnsafe c = false) ∧
      ∀ other, (safeDisplayWide other).text = (safeDisplayWide wide).text → other = wide) ∧
    (((∀ c ∈ (safeDisplayBytes name).text, isUnsafe c = false) ∧
      ∀ other, (safeDisplayBytes other).text = (safeDisplayBytes name).text → other = name) ↔
      ShownAlone name) := by
  refine ⟨⟨fun c => isUnsafe_of_mem_wide, fun other => safeDisplayWide_inj⟩, ?_⟩
  have halone : (∀ other, (safeDisplayBytes other).text = (safeDisplayBytes name).text →
      other = name) ↔ ShownAlone name := by
    unfold ShownAlone
    cases hchars : utf8Chars name with
    | none => exact bytes_shown_alone_iff hchars
    | some chars => exact text_shown_alone_iff hchars
  rw [halone]
  exact and_iff_right fun c => isUnsafe_of_mem_bytes

/-- A backslash and the byte `ff` are shown like the four characters `\xff`. -/
theorem safe_display_collides :
    ¬∀ name other : List UInt8,
      (safeDisplayBytes other).text = (safeDisplayBytes name).text → other = name := by
  intro hall
  have hnone : utf8Chars [0x5C, 0xFF] = none :=
    @utf8Chars_lone 0xFF [0x5C] [] rfl (by decide +kernel) (by decide +kernel)
  have hsome : utf8Chars [0x5C, 0x78, 0x66, 0x66] = some ['\\', 'x', 'f', 'f'] :=
    utf8Chars_ascii (by decide +kernel)
  have hsame := hall [0x5C, 0xFF] [0x5C, 0x78, 0x66, 0x66]
    (by rw [text_of_some hsome, text_of_none hnone]; decide +kernel)
  exact absurd hsame (by decide)

end Excise
