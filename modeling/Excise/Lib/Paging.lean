import Excise.Lib.KWayMerge
import Mathlib.Data.List.Sort

/-!
# Reading a sorted list page by page

A page starts after a cursor and ends at a limit; the cursor of the next page is the last entry,
when something follows it. A walk that follows the cursors lists everything once. The second half
is about a page kept while its entries arrive in any order: what is beyond the limit may be
dropped as soon as it arrives.
-/

namespace Excise
set_option autoImplicit false

variable {α κ π ε : Type} [LinearOrder κ]

namespace Paging

/-- What follows the cursor. -/
def rest (key : α → κ) (all : List α) (after : Option κ) : List α :=
  all.filter fun x => after.all fun k => decide (k < key x)

/-- The page after a cursor, and the cursor of the next page. -/
def pageOf (key : α → κ) (all : List α) (after : Option κ) (limit : Nat) : List α × Option κ :=
  ((rest key all after).take limit,
    if limit < (rest key all after).length then ((rest key all after).take limit).getLast?.map key
    else none)

/-- Following the cursors from page `i` until there is none; the limits may vary. -/
inductive Walk (read : Option κ → Nat → Except ε π) (next : π → Option κ) (limits : Nat → Nat) :
    Nat → Option κ → List π → Prop
  | last {i : Nat} {after : Option κ} {page : π} (ok : read after (limits i) = .ok page)
      (stop : next page = none) : Walk read next limits i after [page]
  | next {i : Nat} {after : Option κ} {page : π} {cursor : κ} {pages : List π}
      (ok : read after (limits i) = .ok page) (more : next page = some cursor)
      (walk : Walk read next limits (i + 1) (some cursor) pages) :
      Walk read next limits i after (page :: pages)

section Pages
variable {key : α → κ} {all : List α} {after : Option κ}

theorem mem_rest {x : α} : x ∈ rest key all after ↔ x ∈ all ∧ ∀ k ∈ after, k < key x := by
  cases after <;> simp [rest]

theorem rest_none : rest key all none = all := by simp [rest]

theorem sorted_rest (h : SortedBy key all) : SortedBy key (rest key all after) :=
  List.Pairwise.sublist List.filter_sublist h

/-- In a sorted list, what exceeds the last of the first `n` are the others. -/
theorem filter_last {l : List α} (h : SortedBy key l) {n : Nat} {x : α}
    (hx : (l.take n).getLast? = some x) :
    (l.filter fun y => decide (key x < key y)) = l.drop n := by
  obtain ⟨before, hbefore⟩ := List.getLast?_eq_some_iff.mp hx
  have hl : l = before ++ [x] ++ l.drop n := by rw [← hbefore, List.take_append_drop]
  have hsplit : SortedBy key (before ++ [x] ++ l.drop n) := hl ▸ h
  obtain ⟨hfirst, -, hlater⟩ := List.pairwise_append.mp hsplit
  obtain ⟨-, -, hx'⟩ := List.pairwise_append.mp hfirst
  have hdrop : ((l.drop n).filter fun y => decide (key x < key y)) = l.drop n := by
    rw [List.filter_eq_self]
    intro y hy
    exact decide_eq_true (hlater x (by simp) y hy)
  have htake : ((before ++ [x]).filter fun y => decide (key x < key y)) = [] := by
    rw [List.filter_eq_nil_iff]
    intro y hy
    rw [decide_eq_true_eq]
    rcases List.mem_append.mp hy with hy | hy
    · exact (hx' y hy x (List.mem_singleton_self x)).not_gt
    · rw [List.mem_singleton.mp hy]
      exact lt_irrefl _
  calc (l.filter fun y => decide (key x < key y))
      = (before ++ [x] ++ l.drop n).filter (fun y => decide (key x < key y)) := by rw [← hl]
    _ = l.drop n := by rw [List.filter_append, htake, hdrop, List.nil_append]

/-- The next page starts where this one ended. -/
theorem rest_next (h : SortedBy key all) {limit : Nat} {cursor : κ}
    (hnext : (pageOf key all after limit).2 = some cursor) :
    rest key all (some cursor) = (rest key all after).drop limit ∧
      limit < (rest key all after).length ∧ ∃ x ∈ all, key x = cursor := by
  unfold pageOf at hnext
  dsimp only at hnext
  split at hnext
  · rename_i hmore
    obtain ⟨x, hx, rfl⟩ := Option.map_eq_some_iff.mp hnext
    have hxrest : x ∈ rest key all after := List.mem_of_mem_take (List.mem_of_getLast? hx)
    obtain ⟨hxall, hxafter⟩ := mem_rest.mp hxrest
    refine ⟨?_, hmore, x, hxall, rfl⟩
    rw [← filter_last (sorted_rest h) hx, rest, rest, List.filter_filter]
    apply List.filter_congr
    intro y _
    cases after with
    | none => simp
    | some k =>
      have hk : k < key x := hxafter k rfl
      have himp : key x < key y → k < key y := hk.trans
      by_cases hxy : key x < key y <;> simp [hxy, himp]
  · simp at hnext

variable {read : Option κ → Nat → Except ε π} {entries : π → List α} {next : π → Option κ}
  {valid : Nat → Prop}

/-- The cursor is that of an entry. -/
def IsCursor (key : α → κ) (all : List α) (after : Option κ) : Prop :=
  ∀ k ∈ after, ∃ x ∈ all, key x = k

/-- What `read` answers is the page of `all`, and it answers every request with a valid limit. -/
structure Reads (key : α → κ) (all : List α) (read : Option κ → Nat → Except ε π)
    (entries : π → List α) (next : π → Option κ) (valid : Nat → Prop) : Prop where
  sound : ∀ after limit page, IsCursor key all after → read after limit = .ok page →
    (entries page, next page) = pageOf key all after limit
  total : ∀ after limit, IsCursor key all after → valid limit →
    ∃ page, read after limit = .ok page

variable {limits : Nat → Nat}

theorem walk_exists (hsorted : SortedBy key all) (hread : Reads key all read entries next valid)
    (hvalid : ∀ i, valid (limits i)) (hpos : ∀ i, 0 < limits i) (i : Nat)
    (hafter : IsCursor key all after) : ∃ pages, Walk read next limits i after pages := by
  -- each page but the last shortens what is left
  induction hn : (rest key all after).length using Nat.strong_induction_on generalizing i after with
  | _ n ih =>
    obtain ⟨page, hpage⟩ := hread.total after (limits i) hafter (hvalid i)
    obtain ⟨-, hnext⟩ := Prod.mk.inj (hread.sound after (limits i) page hafter hpage)
    cases hcursor : next page with
    | none => exact ⟨[page], .last hpage hcursor⟩
    | some cursor =>
      rw [hcursor] at hnext
      obtain ⟨hrest, hmore, hmem⟩ := rest_next hsorted hnext.symm
      have hpos := hpos i
      obtain ⟨pages, hpages⟩ := ih _ (by rw [← hn, hrest, List.length_drop]; omega) (i + 1)
        (show IsCursor key all (some cursor) by simpa [IsCursor] using hmem) rfl
      exact ⟨page :: pages, .next hpage hcursor hpages⟩

theorem length_pageOf (limit : Nat) : (pageOf key all after limit).1.length ≤ limit :=
  List.length_take_le _ _

/-- A page that names no next one reaches the end. -/
theorem pageOf_last {limit : Nat} (hpos : 0 < limit)
    (hnext : (pageOf key all after limit).2 = none) :
    (pageOf key all after limit).1 = rest key all after := by
  unfold pageOf at hnext ⊢
  dsimp only at hnext ⊢
  split at hnext
  · rename_i hmore
    rw [Option.map_eq_none_iff, List.getLast?_eq_none_iff, List.take_eq_nil_iff] at hnext
    rcases hnext with hzero | hempty
    · omega
    · rw [hempty] at hmore
      simp at hmore
  · rename_i hall
    exact List.take_of_length_le (not_lt.mp hall)

theorem Walk.lists (hsorted : SortedBy key all) (hread : Reads key all read entries next valid)
    (hpos : ∀ i, 0 < limits i) {i : Nat} {pages : List π}
    (hwalk : Walk read next limits i after pages) (hafter : IsCursor key all after) :
    pages.flatMap entries = rest key all after ∧
      ∀ n page, pages[n]? = some page → (entries page).length ≤ limits (i + n) := by
  induction hwalk with
  | @last i after page ok stop =>
    obtain ⟨hentries, hnext⟩ := Prod.mk.inj (hread.sound after (limits i) page hafter ok)
    rw [stop] at hnext
    refine ⟨?_, ?_⟩
    · rw [List.flatMap_singleton, hentries]
      exact pageOf_last (hpos i) hnext.symm
    · intro n page hget
      cases n with
      | zero =>
        obtain rfl := Option.some.inj hget
        rw [hentries]
        exact length_pageOf _
      | succ n => simp at hget
  | @next i after page cursor pages ok more walk ih =>
    obtain ⟨hentries, hnext⟩ := Prod.mk.inj (hread.sound after (limits i) page hafter ok)
    rw [more] at hnext
    obtain ⟨hrest, -, hmem⟩ := rest_next hsorted hnext.symm
    obtain ⟨hlists, hlength⟩ := ih (by simpa [IsCursor] using hmem)
    refine ⟨?_, ?_⟩
    · rw [List.flatMap_cons, hlists, hrest, hentries]
      exact List.take_append_drop _ _
    · intro n page hget
      cases n with
      | zero =>
        obtain rfl := Option.some.inj hget
        rw [hentries]
        exact length_pageOf _
      | succ n =>
        have hn := hlength n page hget
        rwa [show i + 1 + n = i + (n + 1) by omega] at hn

omit [LinearOrder κ] in
/-- Every page of a walk was read. -/
theorem Walk.read_of_mem {i : Nat} {pages : List π} (hwalk : Walk read next limits i after pages)
    {page : π} (hpage : page ∈ pages) : ∃ after limit, read after limit = .ok page := by
  induction hwalk with
  | last ok stop => exact ⟨_, _, List.mem_singleton.mp hpage ▸ ok⟩
  | next ok more walk ih =>
    rcases List.mem_cons.mp hpage with rfl | hpage
    · exact ⟨_, _, ok⟩
    · exact ih hpage

end Pages

/-! ## Keeping the first entries as they arrive -/

section Keeping
variable {key : α → κ}

/-- Dropping what lies beyond the limit before an insertion changes nothing within it. -/
theorem take_orderedInsert (k : Nat) (c : α) (l : List α) :
    ((l.take k).orderedInsert (fun a b => key a ≤ key b) c).take k =
      (l.orderedInsert (fun a b => key a ≤ key b) c).take k := by
  induction l generalizing k with
  | nil => simp
  | cons a l ih =>
    cases k with
    | zero => simp
    | succ k =>
      rw [List.take_succ_cons, List.orderedInsert_cons, List.orderedInsert_cons]
      split
      · cases k with
        | zero => simp
        | succ k => simp [List.take_take]
      · rw [List.take_succ_cons, List.take_succ_cons, ih]

theorem sorted_orderedInsert {l : List α} (h : SortedBy key l) {c : α}
    (hc : ∀ x ∈ l, key x ≠ key c) :
    SortedBy key (l.orderedInsert (fun a b => key a ≤ key b) c) := by
  induction l with
  | nil => simp [SortedBy]
  | cons a l ih =>
    rw [List.orderedInsert_cons]
    have hne := hc a List.mem_cons_self
    split
    · rename_i hle
      have hlt : key c < key a := lt_of_le_of_ne hle (Ne.symm hne)
      refine List.pairwise_cons.mpr ⟨?_, h⟩
      intro x hx
      rcases List.mem_cons.mp hx with rfl | hx
      · exact hlt
      · exact hlt.trans ((List.pairwise_cons.mp h).1 x hx)
    · rename_i hgt
      refine List.pairwise_cons.mpr ⟨?_, ih h.tail fun x hx => hc x (List.mem_cons_of_mem a hx)⟩
      intro x hx
      rcases (List.mem_orderedInsert _).mp hx with rfl | hx
      · exact not_le.mp hgt
      · exact (List.pairwise_cons.mp h).1 x hx

/-- Sorting a new entry into a sorted list inserts it. -/
theorem mergeSort_snoc {l : List α} (h : SortedBy key l) {c : α} (hc : ∀ x ∈ l, key x ≠ key c) :
    ((l ++ [c]).mergeSort fun a b => decide (key a ≤ key b)) =
      l.orderedInsert (fun a b => key a ≤ key b) c := by
  have hperm : ((l ++ [c]).mergeSort fun a b => decide (key a ≤ key b)).Perm
      (l.orderedInsert (fun a b => key a ≤ key b) c) := by
    refine (List.mergeSort_perm _ _).trans ?_
    exact (List.perm_append_singleton c l).trans (List.perm_orderedInsert _ c l).symm
  refine SortedBy.eq_of_perm ?_ (sorted_orderedInsert h hc) hperm
  have hle : ((l ++ [c]).mergeSort fun a b => decide (key a ≤ key b)).Pairwise
      fun a b => key a ≤ key b := by
    refine (List.pairwise_mergeSort ?_ ?_ _).imp fun hab => of_decide_eq_true hab
    · intro x y z hxy hyz
      exact decide_eq_true (le_trans (of_decide_eq_true hxy) (of_decide_eq_true hyz))
    · intro x y
      simpa using le_total (key x) (key y)
  have hnodup : (((l ++ [c]).mergeSort fun a b => decide (key a ≤ key b)).map key).Nodup :=
    (hperm.map key).nodup_iff.mpr (sorted_orderedInsert h hc).nodup_keys
  refine (hle.and (List.pairwise_map.mp hnodup)).imp ?_
  exact fun hab => lt_of_le_of_ne hab.1 hab.2

/-- One more entry of a sorted list is selected. -/
theorem orderedInsert_filter {all : List α} (h : SortedBy key all) {p : α → Bool} {c : α}
    (hc : c ∈ all) (hp : p c = false) :
    (all.filter p).orderedInsert (fun a b => key a ≤ key b) c =
      all.filter fun x => p x || decide (key x = key c) := by
  have hother : ∀ x ∈ all.filter p, key x ≠ key c := by
    intro x hx heq
    obtain ⟨hx, hpx⟩ := List.mem_filter.mp hx
    obtain rfl : x = c := List.inj_on_of_nodup_map h.nodup_keys hx hc heq
    rw [hp] at hpx
    simp at hpx
  refine SortedBy.eq_of_perm (sorted_orderedInsert (h.sublist List.filter_sublist) hother)
    (h.sublist List.filter_sublist) ?_
  refine (List.perm_orderedInsert _ _ _).trans ?_
  have hnodup : all.Nodup := List.Nodup.of_map key h.nodup_keys
  rw [List.perm_ext_iff_of_nodup]
  · intro x
    simp only [List.mem_cons, List.mem_filter, Bool.or_eq_true, decide_eq_true_eq]
    constructor
    · rintro (rfl | ⟨hx, hpx⟩)
      · exact ⟨hc, Or.inr rfl⟩
      · exact ⟨hx, Or.inl hpx⟩
    · rintro ⟨hx, hpx | heq⟩
      · exact Or.inr ⟨hx, hpx⟩
      · exact Or.inl (List.inj_on_of_nodup_map h.nodup_keys hx hc heq)
  · refine List.nodup_cons.mpr ⟨?_, hnodup.filter p⟩
    intro hmem
    exact hother c hmem rfl
  · exact hnodup.filter _

/-- Sorting `c` into the kept entries and cutting at the limit keeps the first of all selected. -/
theorem keep_insert {all : List α} (h : SortedBy key all) {p : α → Bool} {c : α} (hc : c ∈ all)
    (hp : p c = false) (k : Nat) :
    ((((all.filter p).take k) ++ [c]).mergeSort fun a b => decide (key a ≤ key b)).take k =
      (all.filter fun x => p x || decide (key x = key c)).take k := by
  have hkept : SortedBy key ((all.filter p).take k) :=
    h.sublist ((List.take_sublist k _).trans List.filter_sublist)
  rw [mergeSort_snoc hkept, take_orderedInsert, orderedInsert_filter h hc hp]
  intro x hx heq
  obtain ⟨hx, hpx⟩ := List.mem_filter.mp (List.mem_of_mem_take hx)
  obtain rfl : x = c := List.inj_on_of_nodup_map h.nodup_keys hx hc heq
  rw [hp] at hpx
  simp at hpx

/-- What was selected before and is not kept lies beyond the limit again. -/
theorem keep_again {all : List α} (h : SortedBy key all) {p : α → Bool} {c : α}
    (hc : c ∈ all.filter p) {k : Nat} (hout : c ∉ (all.filter p).take k) :
    ((((all.filter p).take k) ++ [c]).mergeSort fun a b => decide (key a ≤ key b)).take k =
      (all.filter p).take k := by
  have hsorted : SortedBy key (all.filter p) := h.sublist List.filter_sublist
  generalize all.filter p = l at hc hout hsorted ⊢
  have hsplit : SortedBy key (l.take k ++ l.drop k) := by rwa [List.take_append_drop]
  have hdrop : c ∈ l.drop k := by
    rw [← List.take_append_drop k l] at hc
    exact (List.mem_append.mp hc).resolve_left hout
  have hlast : SortedBy key (l.take k ++ [c]) := by
    obtain ⟨hfirst, -, hbetween⟩ := List.pairwise_append.mp hsplit
    refine List.pairwise_append.mpr ⟨hfirst, List.pairwise_singleton _ _, ?_⟩
    intro x hx y hy
    rw [List.mem_singleton.mp hy]
    exact hbetween x hx c hdrop
  have hlength : (l.take k).length = k := by
    rw [List.length_take, Nat.min_eq_left]
    by_contra hlt
    rw [List.drop_eq_nil_of_le (by omega)] at hdrop
    simp at hdrop
  rw [List.mergeSort_of_pairwise]
  · rw [List.take_append_of_le_length hlength.ge, List.take_of_length_le hlength.le]
  · exact hlast.imp fun hab => decide_eq_true hab.le

end Keeping

end Paging

end Excise
