import Excise.Lib.Saturating
import Mathlib.Algebra.BigOperators.Group.List.Basic
import Mathlib.Data.List.Nodup

/-!
# Least-recently-used stores with a byte budget

A queue of keyed entries, oldest first, that never holds more than a number of entries or more
bytes than a budget. Counters are unsigned 64-bit numbers that saturate.
-/

namespace Excise
set_option autoImplicit false

structure LruEntry (κ α : Type) where
  key : κ
  bytes : Nat
  value : α

def LruEntry.hasKey {κ α : Type} [DecidableEq κ] (key : κ) (e : LruEntry κ α) : Bool :=
  decide (e.key = key)

structure ByteLru (κ α : Type) where
  entries : List (LruEntry κ α)
  bytes : Nat
  budget : Nat

namespace ByteLru
variable {κ α : Type}

def empty (budget : Nat) : ByteLru κ α := ⟨[], 0, budget⟩

def clear (lru : ByteLru κ α) : ByteLru κ α := { lru with entries := [], bytes := 0 }

/-- Drops the oldest entries until one more of `needed` bytes fits, or none is left. -/
def makeRoom (capacity budget needed : Nat) :
    List (LruEntry κ α) → Nat → List (LruEntry κ α) × Nat
  | [], bytes => ([], bytes)
  | e :: rest, bytes =>
    if (e :: rest).length = capacity ∨ satAdd 64 bytes needed > budget then
      makeRoom capacity budget needed rest (bytes - e.bytes)
    else (e :: rest, bytes)

variable [DecidableEq κ]

def find? (lru : ByteLru κ α) (key : κ) : Option (LruEntry κ α) :=
  lru.entries.find? (LruEntry.hasKey key)

/-- Removes the first entry of this key. -/
def remove (lru : ByteLru κ α) (key : κ) : ByteLru κ α :=
  match lru.find? key with
  | none => lru
  | some e =>
    { lru with
      entries := lru.entries.eraseP (LruEntry.hasKey key)
      bytes := lru.bytes - e.bytes }

def insert (capacity : Nat) (lru : ByteLru κ α) (entry : LruEntry κ α) : ByteLru κ α :=
  if entry.bytes > lru.budget then lru
  else
    let lru := lru.remove entry.key
    let room := makeRoom capacity lru.budget entry.bytes lru.entries lru.bytes
    { lru with entries := room.1 ++ [entry], bytes := satAdd 64 room.2 entry.bytes }

/-! ## What is kept -/

/-- The recorded bytes are those of the entries, the bounds hold, and no key comes twice. -/
structure Within (capacity : Nat) (lru : ByteLru κ α) : Prop where
  bytes : lru.bytes = (lru.entries.map LruEntry.bytes).sum
  length : lru.entries.length ≤ capacity
  budget : lru.bytes ≤ lru.budget
  keys : (lru.entries.map LruEntry.key).Nodup

omit [DecidableEq κ] in
theorem within_empty (capacity budget : Nat) : Within capacity (empty budget : ByteLru κ α) :=
  ⟨rfl, Nat.zero_le _, Nat.zero_le _, List.nodup_nil⟩

omit [DecidableEq κ] in
theorem Within.clear {capacity : Nat} {lru : ByteLru κ α} (_ : Within capacity lru) :
    Within capacity lru.clear :=
  ⟨rfl, Nat.zero_le _, Nat.zero_le _, List.nodup_nil⟩

theorem find?_key {lru : ByteLru κ α} {key : κ} {e : LruEntry κ α} (h : lru.find? key = some e) :
    e ∈ lru.entries ∧ e.key = key :=
  ⟨List.mem_of_find?_eq_some h,
    of_decide_eq_true (show LruEntry.hasKey key e = true from List.find?_some h)⟩

theorem find?_none {lru : ByteLru κ α} {key : κ} (h : lru.find? key = none) :
    ∀ e ∈ lru.entries, e.key ≠ key := fun e he hkey =>
  List.find?_eq_none.mp h e he (decide_eq_true hkey)

omit [DecidableEq κ] in
theorem sum_eraseP {l : List (LruEntry κ α)} {p : LruEntry κ α → Bool} {e : LruEntry κ α}
    (h : l.find? p = some e) :
    ((l.eraseP p).map LruEntry.bytes).sum + e.bytes = (l.map LruEntry.bytes).sum := by
  induction l with
  | nil => cases h
  | cons x xs ih =>
    rw [List.find?_cons] at h
    cases hp : p x with
    | true =>
      rw [hp] at h
      obtain rfl := Option.some.inj h
      rw [List.eraseP_cons_of_pos hp, List.map_cons, List.sum_cons, Nat.add_comm]
    | false =>
      rw [hp] at h
      rw [List.eraseP_cons_of_neg (Bool.eq_false_iff.mp hp), List.map_cons, List.sum_cons,
        List.map_cons, List.sum_cons, Nat.add_assoc, ih h]

/-- With distinct keys nothing of the removed key is left. -/
theorem not_mem_eraseP {l : List (LruEntry κ α)} (hkeys : (l.map LruEntry.key).Nodup) (key : κ) :
    key ∉ (l.eraseP (LruEntry.hasKey key)).map LruEntry.key := by
  induction l with
  | nil => exact List.not_mem_nil
  | cons x xs ih =>
    rw [List.map_cons, List.nodup_cons] at hkeys
    by_cases hx : x.key = key
    · rw [List.eraseP_cons_of_pos (show LruEntry.hasKey key x = true from decide_eq_true hx)]
      exact hx ▸ hkeys.1
    · have hno : ¬LruEntry.hasKey key x = true := fun h => hx (of_decide_eq_true h)
      rw [List.eraseP_cons_of_neg hno, List.map_cons, List.mem_cons]
      rintro (rfl | hmem)
      · exact hx rfl
      · exact ih hkeys.2 hmem

theorem remove_sublist (lru : ByteLru κ α) (key : κ) :
    (lru.remove key).entries.Sublist lru.entries := by
  unfold remove
  split
  · exact List.Sublist.refl _
  · exact List.eraseP_sublist

theorem remove_budget (lru : ByteLru κ α) (key : κ) : (lru.remove key).budget = lru.budget := by
  unfold remove
  split <;> rfl

theorem Within.remove {capacity : Nat} {lru : ByteLru κ α} (h : Within capacity lru) (key : κ) :
    Within capacity (lru.remove key) ∧ key ∉ (lru.remove key).entries.map LruEntry.key := by
  have hsub := lru.remove_sublist key
  unfold ByteLru.remove at *
  split
  · rename_i hnone
    refine ⟨h, fun hmem => ?_⟩
    obtain ⟨e, he, rfl⟩ := List.mem_map.mp hmem
    exact find?_none hnone e he rfl
  · rename_i e hfound
    rw [hfound] at hsub
    have hsum := sum_eraseP hfound
    have hfewer : lru.bytes - e.bytes ≤ lru.budget := Nat.le_trans (Nat.sub_le _ _) h.budget
    refine ⟨⟨?_, Nat.le_trans hsub.length_le h.length, hfewer, (hsub.map LruEntry.key).nodup h.keys⟩,
      not_mem_eraseP h.keys key⟩
    show lru.bytes - e.bytes = _
    rw [h.bytes, ← hsum, Nat.add_sub_cancel]

/-- What is left is a tail whose bytes are still those recorded, with room for one more. -/
structure RoomMade (capacity budget needed : Nat) (entries : List (LruEntry κ α))
    (room : List (LruEntry κ α) × Nat) : Prop where
  suffix : room.1 <:+ entries
  bytes : room.2 = (room.1.map LruEntry.bytes).sum
  fits : room.1 = [] ∨ (room.1.length ≠ capacity ∧ satAdd 64 room.2 needed ≤ budget)

omit [DecidableEq κ] in
theorem roomMade (capacity budget needed : Nat) (entries : List (LruEntry κ α)) :
    RoomMade capacity budget needed entries
      (makeRoom capacity budget needed entries (entries.map LruEntry.bytes).sum) := by
  induction entries with
  | nil => exact ⟨List.suffix_refl _, rfl, Or.inl rfl⟩
  | cons e rest ih =>
    unfold makeRoom
    split
    · rw [List.map_cons, List.sum_cons, Nat.add_sub_cancel_left]
      exact ⟨ih.suffix.trans (List.suffix_cons e rest), ih.bytes, ih.fits⟩
    · rename_i hfits
      rw [not_or, Nat.not_lt] at hfits
      exact ⟨List.suffix_refl _, rfl, Or.inr hfits⟩

theorem insert_budget (capacity : Nat) (lru : ByteLru κ α) (entry : LruEntry κ α) :
    (lru.insert capacity entry).budget = lru.budget := by
  unfold insert
  split
  · rfl
  · exact remove_budget lru entry.key

/-- An insertion keeps the bounds, whatever it has to drop. -/
theorem Within.insert {capacity : Nat} {lru : ByteLru κ α} (h : Within capacity lru)
    (hcapacity : 0 < capacity) (hbudget : lru.budget < satMax 64) (entry : LruEntry κ α) :
    Within capacity (lru.insert capacity entry) := by
  unfold ByteLru.insert
  split
  · exact h
  · rename_i hsmall
    obtain ⟨hremoved, hkey⟩ := h.remove entry.key
    rw [← remove_budget lru entry.key] at hbudget hsmall
    generalize lru.remove entry.key = left at *
    have hroom := roomMade capacity left.budget entry.bytes left.entries
    rw [← hremoved.bytes] at hroom
    dsimp only
    generalize makeRoom capacity left.budget entry.bytes left.entries left.bytes = room at *
    have hsum : room.2 + entry.bytes ≤ left.budget := by
      rcases hroom.fits with hnil | ⟨-, hfits⟩
      · have hzero := hroom.bytes
        rw [hnil] at hzero
        rw [hzero, List.map_nil, List.sum_nil, Nat.zero_add]
        omega
      · have hexact : satAdd 64 room.2 entry.bytes < satMax 64 :=
          Nat.lt_of_le_of_lt hfits hbudget
        rw [satAdd_eq_of_lt hexact] at hfits
        exact hfits
    have hadd : satAdd 64 room.2 entry.bytes = room.2 + entry.bytes :=
      satAdd_of_le (Nat.le_trans hsum (Nat.le_of_lt hbudget))
    refine ⟨?_, ?_, ?_, ?_⟩
    · show satAdd 64 room.2 entry.bytes = ((room.1 ++ [entry]).map LruEntry.bytes).sum
      rw [hadd, List.map_append, List.sum_append, hroom.bytes]
      rfl
    · show (room.1 ++ [entry]).length ≤ capacity
      rw [List.length_append, List.length_singleton]
      rcases hroom.fits with hnil | ⟨hlength, -⟩
      · rw [hnil]
        exact hcapacity
      · have hle := Nat.le_trans hroom.suffix.length_le hremoved.length
        omega
    · show satAdd 64 room.2 entry.bytes ≤ left.budget
      rw [hadd]
      exact hsum
    · show ((room.1 ++ [entry]).map LruEntry.key).Nodup
      rw [List.map_append, List.nodup_append]
      have hsub := hroom.suffix.sublist.map LruEntry.key
      refine ⟨hsub.nodup hremoved.keys, List.nodup_singleton _, fun k hk k' hk' heq => ?_⟩
      subst heq
      obtain rfl := List.mem_singleton.mp hk'
      exact hkey (hsub.subset hk)

/-- Nothing comes in but the inserted entry. -/
theorem mem_insert {capacity : Nat} {lru : ByteLru κ α} {entry e : LruEntry κ α}
    (h : e ∈ (lru.insert capacity entry).entries) : e = entry ∨ e ∈ lru.entries := by
  unfold insert at h
  split at h
  · exact Or.inr h
  · dsimp only at h
    rcases List.mem_append.mp h with hroom | hentry
    · right
      have hsuffix : ∀ (l : List (LruEntry κ α)) (bytes : Nat),
          (makeRoom capacity (lru.remove entry.key).budget entry.bytes l bytes).1 <:+ l := by
        intro l
        induction l with
        | nil => exact fun _ => List.suffix_refl _
        | cons x xs ih =>
          intro bytes
          unfold makeRoom
          split
          · exact (ih _).trans (List.suffix_cons x xs)
          · exact List.suffix_refl _
      exact (lru.remove_sublist entry.key).subset ((hsuffix _ _).subset hroom)
    · exact Or.inl (List.mem_singleton.mp hentry)

theorem mem_remove {lru : ByteLru κ α} {key : κ} {e : LruEntry κ α}
    (h : e ∈ (lru.remove key).entries) : e ∈ lru.entries :=
  (lru.remove_sublist key).subset h

end ByteLru

end Excise
