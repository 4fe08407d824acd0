import Excise.Path

/-!
# Ordered prefix codes

A code writes each value as a word none of which begins another, in an order the words keep.
Concatenating the words of a list is then injective, keeps the lexicographic order, and makes
prefixes of words out of prefixes of lists and of nothing else.
-/

namespace Excise
set_option autoImplicit false

variable {α β γ : Type} [LinearOrder α] [LinearOrder β] [LinearOrder γ]

structure OrderedCode (enc : α → List β) (dom : α → Prop) : Prop where
  prefixFree : ∀ {a b}, dom a → dom b → enc a <+: enc b → a = b
  strictMono : ∀ {a b}, dom a → dom b → a < b → enc a < enc b
  nonempty : ∀ {a}, dom a → enc a ≠ []

/-- `cmp` is the comparison of the order. -/
structure Compares (cmp : α → α → Ordering) : Prop where
  lt_iff : ∀ a b, cmp a b = .lt ↔ a < b
  eq_iff : ∀ a b, cmp a b = .eq ↔ a = b

namespace Compares

variable {cmp : α → α → Ordering} {cmp' : β → β → Ordering}

theorem gt_iff (h : Compares cmp) (a b : α) : cmp a b = .gt ↔ b < a := by
  have hlt := h.lt_iff a b
  have heq := h.eq_iff a b
  rcases lt_trichotomy a b with hab | rfl | hba
  · simp [hlt.mpr hab, lt_asymm hab]
  · simp [heq.mpr rfl]
  · have hnlt : cmp a b ≠ .lt := fun h => lt_asymm hba (hlt.mp h)
    have hneq : cmp a b ≠ .eq := fun h => ne_of_gt hba (heq.mp h)
    cases hc : cmp a b with
    | lt => exact absurd hc hnlt
    | eq => exact absurd hc hneq
    | gt => exact iff_of_true rfl hba

/-- Comparisons of values in the same order give the same answer. -/
theorem eq_of_lt_iff (h : Compares cmp) (h' : Compares cmp') {a b : α} {x y : β}
    (hlt : x < y ↔ a < b) (hgt : y < x ↔ b < a) : cmp' x y = cmp a b := by
  rcases lt_trichotomy a b with hab | rfl | hba
  · rw [(h.lt_iff a b).mpr hab, (h'.lt_iff x y).mpr (hlt.mpr hab)]
  · have hxy : x = y := by
      rcases lt_trichotomy x y with hxy | hxy | hxy
      · exact absurd (hlt.mp hxy) (lt_irrefl a)
      · exact hxy
      · exact absurd (hgt.mp hxy) (lt_irrefl a)
    rw [(h.eq_iff a a).mpr rfl, (h'.eq_iff x y).mpr hxy]
  · rw [(h.gt_iff a b).mpr hba, (h'.gt_iff x y).mpr (hgt.mpr hba)]

theorem compareLex (h : Compares cmp) : Compares (List.compareLex cmp) where
  lt_iff xs ys := by
    induction xs generalizing ys with
    | nil =>
      cases ys with
      | nil => exact iff_of_false (by simp [List.compareLex]) (lt_irrefl _)
      | cons y ys => exact iff_of_true (by simp [List.compareLex]) (List.nil_lt_cons y ys)
    | cons x xs ih =>
      cases ys with
      | nil => exact iff_of_false (by simp [List.compareLex]) List.not_lex_nil
      | cons y ys =>
        rw [cons_lt_cons, ← h.lt_iff x y, ← h.eq_iff x y, ← ih ys, List.compareLex]
        cases cmp x y <;> simp
  eq_iff xs ys := by
    induction xs generalizing ys with
    | nil => cases ys <;> simp [List.compareLex]
    | cons x xs ih =>
      cases ys with
      | nil => simp [List.compareLex]
      | cons y ys =>
        rw [List.cons.injEq, ← h.eq_iff x y, ← ih ys, List.compareLex]
        cases cmp x y <;> simp

omit [LinearOrder α] in
/-- Words of one length are compared before what follows them. -/
theorem compareLex_append {cmp : α → α → Ordering} {x y : List α} (h : x.length = y.length)
    (s t : List α) : List.compareLex cmp (x ++ s) (y ++ t)
      = (List.compareLex cmp x y).then (List.compareLex cmp s t) := by
  induction x generalizing y with
  | nil =>
    obtain rfl := List.eq_nil_of_length_eq_zero h.symm
    rfl
  | cons a x ih =>
    cases y with
    | nil => cases h
    | cons b y =>
      rw [List.cons_append, List.cons_append, List.compareLex_cons_cons,
        List.compareLex_cons_cons, ih (Nat.succ.inj h)]
      cases cmp a b <;> rfl

end Compares

theorem append_lt_append {x y : List β} (h : x < y) (hn : ¬x <+: y) (s t : List β) :
    x ++ s < y ++ t :=
  lt_of_lt_of_le (lt_of_not_extended h hn (List.prefix_append x s))
    (le_of_extended (List.prefix_append y t))

namespace OrderedCode

variable {enc : α → List β} {dom : α → Prop}

theorem append_lt (h : OrderedCode enc dom) {a b : α} (ha : dom a) (hb : dom b) (hab : a < b)
    (s t : List β) : enc a ++ s < enc b ++ t :=
  append_lt_append (h.strictMono ha hb hab)
    (fun hp => absurd (h.prefixFree ha hb hp) (ne_of_lt hab)) s t

theorem append_lt_iff (h : OrderedCode enc dom) {a b : α} (ha : dom a) (hb : dom b)
    (s t : List β) : enc a ++ s < enc b ++ t ↔ a < b ∨ a = b ∧ s < t := by
  rcases lt_trichotomy a b with hab | rfl | hba
  · exact iff_of_true (h.append_lt ha hb hab s t) (Or.inl hab)
  · have hcancel : enc a ++ s < enc a ++ t ↔ s < t := by
      induction enc a with
      | nil => exact Iff.rfl
      | cons x xs ih => rw [List.cons_append, List.cons_append, cons_lt_cons]; simp [ih]
    simp [hcancel]
  · refine iff_of_false (lt_asymm (h.append_lt hb ha hba t s)) ?_
    rintro (hab | ⟨rfl, -⟩)
    · exact lt_asymm hab hba
    · exact lt_irrefl _ hba

/-- A word that begins with the code of `a` begins with no other code. -/
theorem eq_of_prefix_append (h : OrderedCode enc dom) {a b : α} (ha : dom a) (hb : dom b)
    {t : List β} (hp : enc a <+: enc b ++ t) : a = b := by
  rcases List.prefix_or_prefix_of_prefix hp (List.prefix_append (enc b) t) with hab | hba
  · exact h.prefixFree ha hb hab
  · exact (h.prefixFree hb ha hba).symm

theorem append_prefix_iff (h : OrderedCode enc dom) {a b : α} (ha : dom a) (hb : dom b)
    (s t : List β) : enc a ++ s <+: enc b ++ t ↔ a = b ∧ s <+: t := by
  constructor
  · intro hp
    obtain rfl := h.eq_of_prefix_append ha hb ((List.prefix_append _ s).trans hp)
    exact ⟨rfl, (List.prefix_append_right_inj (enc a)).mp hp⟩
  · rintro ⟨rfl, hst⟩
    exact (List.prefix_append_right_inj (enc a)).mpr hst

theorem append_inj (h : OrderedCode enc dom) {a b : α} (ha : dom a) (hb : dom b) {s t : List β}
    (heq : enc a ++ s = enc b ++ t) : a = b ∧ s = t := by
  obtain ⟨rfl, hst⟩ := (h.append_prefix_iff ha hb s t).mp (heq ▸ List.prefix_refl _)
  exact ⟨rfl, List.append_cancel_left heq⟩

theorem flatMap_prefix_iff (h : OrderedCode enc dom) {xs ys : List α} (hx : ∀ x ∈ xs, dom x)
    (hy : ∀ y ∈ ys, dom y) : xs.flatMap enc <+: ys.flatMap enc ↔ xs <+: ys := by
  induction xs generalizing ys with
  | nil => simp
  | cons x xs ih =>
    rw [List.flatMap_cons]
    cases ys with
    | nil =>
      have hne := h.nonempty (hx x (List.mem_cons_self))
      simp [List.prefix_nil, hne]
    | cons y ys =>
      rw [List.flatMap_cons, List.cons_prefix_cons,
        h.append_prefix_iff (hx x List.mem_cons_self) (hy y List.mem_cons_self),
        ih (fun a ha => hx a (List.mem_cons_of_mem _ ha))
          (fun a ha => hy a (List.mem_cons_of_mem _ ha))]

theorem flatMap_lt_iff (h : OrderedCode enc dom) {xs ys : List α} (hx : ∀ x ∈ xs, dom x)
    (hy : ∀ y ∈ ys, dom y) : xs.flatMap enc < ys.flatMap enc ↔ xs < ys := by
  induction xs generalizing ys with
  | nil =>
    cases ys with
    | nil => simp
    | cons y ys =>
      have hne := h.nonempty (hy y List.mem_cons_self)
      rw [List.flatMap_nil, List.flatMap_cons]
      obtain ⟨b, bs, hb⟩ := List.exists_cons_of_ne_nil hne
      rw [hb, List.cons_append]
      exact iff_of_true (List.nil_lt_cons _ _) (List.nil_lt_cons _ _)
  | cons x xs ih =>
    cases ys with
    | nil => exact iff_of_false List.not_lex_nil List.not_lex_nil
    | cons y ys =>
      rw [List.flatMap_cons, List.flatMap_cons, cons_lt_cons,
        h.append_lt_iff (hx x List.mem_cons_self) (hy y List.mem_cons_self),
        ih (fun a ha => hx a (List.mem_cons_of_mem _ ha))
          (fun a ha => hy a (List.mem_cons_of_mem _ ha))]

/-- After a mark that no code can run into, only the same list is followed. -/
theorem flatMap_mark_prefix_iff (h : OrderedCode enc dom) {mark : List β}
    (hmark : ∀ a, dom a → ∀ s t, enc a ++ s ≠ mark ++ t) {xs ys : List α}
    (hx : ∀ x ∈ xs, dom x) (hy : ∀ y ∈ ys, dom y) (s t : List β) :
    xs.flatMap enc ++ (mark ++ s) <+: ys.flatMap enc ++ (mark ++ t) ↔ xs = ys ∧ s <+: t := by
  induction xs generalizing ys with
  | nil =>
    cases ys with
    | nil => simp
    | cons y ys =>
      refine iff_of_false ?_ (by simp)
      rintro ⟨tail, heq⟩
      rw [List.flatMap_nil, List.nil_append, List.flatMap_cons, List.append_assoc,
        List.append_assoc] at heq
      exact hmark y (hy y List.mem_cons_self) _ _ heq.symm
  | cons x xs ih =>
    cases ys with
    | nil =>
      refine iff_of_false ?_ (by simp)
      rintro ⟨tail, heq⟩
      rw [List.flatMap_nil, List.nil_append, List.flatMap_cons, List.append_assoc,
        List.append_assoc] at heq
      exact hmark x (hx x List.mem_cons_self) _ _ heq
    | cons y ys =>
      rw [List.flatMap_cons, List.flatMap_cons, List.append_assoc, List.append_assoc,
        h.append_prefix_iff (hx x List.mem_cons_self) (hy y List.mem_cons_self),
        ih (fun a ha => hx a (List.mem_cons_of_mem _ ha))
          (fun a ha => hy a (List.mem_cons_of_mem _ ha)), List.cons.injEq, and_assoc]

theorem compareLex_flatMap (h : OrderedCode enc dom) {cmp : α → α → Ordering}
    {cmp' : β → β → Ordering} (hc : Compares cmp) (hc' : Compares cmp') {xs ys : List α}
    (hx : ∀ x ∈ xs, dom x) (hy : ∀ y ∈ ys, dom y) :
    List.compareLex cmp' (xs.flatMap enc) (ys.flatMap enc) = List.compareLex cmp xs ys :=
  hc.compareLex.eq_of_lt_iff hc'.compareLex (h.flatMap_lt_iff hx hy) (h.flatMap_lt_iff hy hx)

/-- What extends a list of codes comes before whatever follows it without extending it. -/
theorem prefix_of_between {x y z : List β} (hxy : x ≤ y) (hyz : y ≤ z) (hxz : x <+: z) :
    x <+: y := by
  by_contra hn
  have hlt : x < y := lt_of_le_of_ne hxy fun heq => hn (heq ▸ List.prefix_refl _)
  exact absurd (lt_of_not_extended hlt hn hxz) (not_lt.mpr hyz)

/-- A code whose letters are themselves coded. -/
theorem comp (h : OrderedCode enc dom) {unit : β → List γ} {letter : β → Prop}
    (hu : OrderedCode unit letter) (hl : ∀ a, dom a → ∀ b ∈ enc a, letter b) :
    OrderedCode (fun a => (enc a).flatMap unit) dom where
  prefixFree ha hb hp :=
    h.prefixFree ha hb ((hu.flatMap_prefix_iff (hl _ ha) (hl _ hb)).mp hp)
  strictMono ha hb hab :=
    (hu.flatMap_lt_iff (hl _ ha) (hl _ hb)).mpr (h.strictMono ha hb hab)
  nonempty {a} ha hnil := by
    have hp := (@hu.flatMap_prefix_iff _ _ _ _ _ _ (enc a) [] (hl a ha) (by simp)).mp (by simp [hnil])
    exact h.nonempty ha (List.prefix_nil.mp hp)

/-- Words without the least letter, ended by it. -/
theorem terminated {z : β} (hz : ∀ b, z ≤ b) :
    OrderedCode (fun w : List β => w ++ [z]) (fun w => z ∉ w) where
  prefixFree {a b} ha hb hp := by
    induction a generalizing b with
    | nil =>
      cases b with
      | nil => rfl
      | cons y ys =>
        obtain rfl := (List.cons_prefix_cons.mp hp).1
        exact absurd List.mem_cons_self hb
    | cons x xs ih =>
      cases b with
      | nil =>
        obtain rfl := (List.cons_prefix_cons.mp hp).1
        exact absurd List.mem_cons_self ha
      | cons y ys =>
        obtain ⟨rfl, hrest⟩ := List.cons_prefix_cons.mp hp
        have heq := ih (fun h => ha (List.mem_cons_of_mem _ h))
          (fun h => hb (List.mem_cons_of_mem _ h)) hrest
        rw [heq]
  strictMono {a b} ha hb hab := by
    induction a generalizing b with
    | nil =>
      cases b with
      | nil => exact absurd hab (lt_irrefl _)
      | cons y ys =>
        have hne : z ≠ y := fun h => hb (h ▸ List.mem_cons_self)
        exact cons_lt_cons.mpr (Or.inl (lt_of_le_of_ne (hz y) hne))
    | cons x xs ih =>
      cases b with
      | nil => exact absurd hab List.not_lex_nil
      | cons y ys =>
        rcases cons_lt_cons.mp hab with hlt | ⟨rfl, hlt⟩
        · exact cons_lt_cons.mpr (Or.inl hlt)
        · exact cons_lt_cons.mpr (Or.inr ⟨rfl, ih (fun h => ha (List.mem_cons_of_mem _ h))
            (fun h => hb (List.mem_cons_of_mem _ h)) hlt⟩)
  nonempty _ := by simp

/-- Words of one positive length, in the order of the values. -/
theorem fixedWidth (width : Nat) (hw : 0 < width) (hlength : ∀ a, dom a → (enc a).length = width)
    (hmono : ∀ a b, dom a → dom b → a < b → enc a < enc b) : OrderedCode enc dom where
  prefixFree {a b} ha hb hp := by
    have heq := hp.eq_of_length (by rw [hlength a ha, hlength b hb])
    rcases lt_trichotomy a b with hab | hab | hab
    · exact absurd (hmono a b ha hb hab) (heq ▸ lt_irrefl _)
    · exact hab
    · exact absurd (hmono b a hb ha hab) (heq ▸ lt_irrefl _)
  strictMono ha hb hab := hmono _ _ ha hb hab
  nonempty {a} ha hnil := by
    have := hlength a ha
    rw [hnil] at this
    simp only [List.length_nil] at this
    omega

end OrderedCode

end Excise
