import Excise.Lib.ByteLru
import Excise.Lib.Machine
import Excise.Owner.SnapshotTree

/-!
# Cached pages

`SnapshotPageCache`: the page on screen and up to eight pages of the same generation visited
before it, the least recently shown dropped first. A page goes by its generation, its folder and
the cursor it starts after.
-/

namespace Excise
set_option autoImplicit false

/-! ## The cache -/

structure CachedPageKey where
  generation : ScanGeneration
  folder : RelativePath
  after : Option PageCursor
  deriving DecidableEq

structure SnapshotPageCache where
  current : SnapshotTree
  currentAfter : Option PageCursor
  inactive : ByteLru CachedPageKey SnapshotTree

namespace SnapshotPageCache

def maxCachedSnapshotPages : Nat := 8

def keyOf (tree : SnapshotTree) (after : Option PageCursor) : CachedPageKey :=
  ⟨tree.generation, tree.currentRelative, after⟩

def new (current : SnapshotTree) (currentAfter : Option PageCursor) : SnapshotPageCache :=
  ⟨current, currentAfter, ByteLru.empty current.pageCacheBudgetBytes⟩

variable (cache : SnapshotPageCache)

def currentKey : CachedPageKey := keyOf cache.current cache.currentAfter

/-- The page on screen as a page visited before. -/
def previous : LruEntry CachedPageKey SnapshotTree :=
  ⟨cache.currentKey, cache.current.retainedBytes, cache.current⟩

/-- Only a page of this generation, folder and cursor. -/
def activate (key : CachedPageKey) : SnapshotPageCache × Bool :=
  if cache.currentKey = key then (cache, true)
  else
    match cache.inactive.find? key with
    | none => (cache, false)
    | some cached =>
      ({ current := cached.value
         currentAfter := cached.key.after
         inactive := (cache.inactive.remove key).insert maxCachedSnapshotPages cache.previous },
        true)

def clear : SnapshotPageCache := { cache with inactive := cache.inactive.clear }

def install (tree : SnapshotTree) (after : Option PageCursor) : SnapshotPageCache :=
  if tree.generation ≠ cache.current.generation then
    { current := tree
      currentAfter := after
      inactive := { cache.inactive.clear with budget := tree.pageCacheBudgetBytes } }
  else if cache.currentKey = keyOf tree after then
    { cache with current := tree, currentAfter := after }
  else
    { current := tree
      currentAfter := after
      inactive := cache.inactive.insert maxCachedSnapshotPages cache.previous }

/-! ## What the pages are -/

/-- Every page held is one that `P` knows under its key. -/
structure Shows (P : CachedPageKey → SnapshotTree → Prop) (cache : SnapshotPageCache) : Prop where
  current : P cache.currentKey cache.current
  inactive : ∀ e ∈ cache.inactive.entries, P e.key e.value

variable {P : CachedPageKey → SnapshotTree → Prop} {cache}

theorem shows_new {tree : SnapshotTree} {after : Option PageCursor} (h : P (keyOf tree after) tree) :
    Shows P (new tree after) :=
  ⟨h, fun _ he => nomatch he⟩

theorem Shows.mono {Q : CachedPageKey → SnapshotTree → Prop} (h : Shows P cache)
    (hsub : ∀ key tree, P key tree → Q key tree) : Shows Q cache :=
  ⟨hsub _ _ h.current, fun e he => hsub _ _ (h.inactive e he)⟩

theorem Shows.insert_previous (h : Shows P cache) {lru : ByteLru CachedPageKey SnapshotTree}
    (hlru : ∀ e ∈ lru.entries, e ∈ cache.inactive.entries) :
    ∀ e ∈ (lru.insert maxCachedSnapshotPages cache.previous).entries, P e.key e.value := by
  intro e he
  rcases ByteLru.mem_insert he with rfl | he
  · exact h.current
  · exact h.inactive e (hlru e he)

/-- An activated page is the one held under this key; when there is none, nothing changes. -/
theorem Shows.activate (h : Shows P cache) (hkeys : ∀ e ∈ cache.inactive.entries,
    e.key = keyOf e.value e.key.after) (key : CachedPageKey) :
    Shows P (cache.activate key).1 ∧
      ((cache.activate key).2 = true → (cache.activate key).1.currentKey = key) := by
  unfold SnapshotPageCache.activate
  split
  · exact ⟨h, fun _ => ‹_›⟩
  · split
    · exact ⟨h, fun hno => nomatch hno⟩
    · rename_i cached hfound
      obtain ⟨hmem, hkey⟩ := ByteLru.find?_key hfound
      have hcurrent : keyOf cached.value cached.key.after = key := (hkeys cached hmem).symm.trans hkey
      refine ⟨⟨?_, h.insert_previous fun e he => ByteLru.mem_remove he⟩, fun _ => hcurrent⟩
      show P (keyOf cached.value cached.key.after) cached.value
      rw [← hkeys cached hmem]
      exact h.inactive cached hmem

/-! ## Runs -/

/-- What a page recorded in the cache goes by, and which generation all of them are of. -/
structure Sound (limit : Nat) (pages : List (CachedPageKey × SnapshotTree))
    (cache : SnapshotPageCache) : Prop where
  shows : Shows (fun key tree => (key, tree) ∈ pages ∧ key = keyOf tree key.after ∧
    tree.retainedBytes ≤ limit ∧ key.generation = cache.current.generation) cache
  room : ByteLru.Within maxCachedSnapshotPages cache.inactive
  budget : cache.inactive.budget = limit / 4
  bytes : ∀ e ∈ cache.inactive.entries, e.bytes = e.value.retainedBytes

/-- A tree as the owner builds it: within the memory limit of a page. -/
def Fits (limit : Nat) (tree : SnapshotTree) : Prop :=
  tree.pageMemoryLimit = limit ∧ tree.retainedBytes ≤ limit

section Sound
variable {limit : Nat} {pages : List (CachedPageKey × SnapshotTree)}

theorem sound_new {tree : SnapshotTree} (hfits : Fits limit tree) (after : Option PageCursor) :
    Sound limit [(keyOf tree after, tree)] (new tree after) where
  shows := shows_new ⟨List.mem_singleton.mpr rfl, rfl, hfits.2, rfl⟩
  room := ByteLru.within_empty _ _
  budget := by
    show tree.pageMemoryLimit / 4 = limit / 4
    rw [hfits.1]
  bytes := fun _ he => nomatch he

theorem Sound.mono (h : Sound limit pages cache) {more : List (CachedPageKey × SnapshotTree)}
    (hsub : pages ⊆ more) : Sound limit more cache :=
  ⟨h.shows.mono fun _ _ hpage => ⟨hsub hpage.1, hpage.2⟩, h.room, h.budget, h.bytes⟩

/-- The page on screen goes behind the others. -/
theorem Sound.shelve (h : Sound limit pages cache) (hlimit : limit ≤ satMax 64)
    {lru : ByteLru CachedPageKey SnapshotTree} (hroom : ByteLru.Within maxCachedSnapshotPages lru)
    (hbudget : lru.budget = cache.inactive.budget)
    (hlru : ∀ e ∈ lru.entries, e ∈ cache.inactive.entries) :
    ByteLru.Within maxCachedSnapshotPages (lru.insert maxCachedSnapshotPages cache.previous) ∧
      (lru.insert maxCachedSnapshotPages cache.previous).budget = limit / 4 ∧
      ∀ e ∈ (lru.insert maxCachedSnapshotPages cache.previous).entries,
        e.bytes = e.value.retainedBytes := by
  have hlimit4 : lru.budget = limit / 4 := hbudget.trans h.budget
  have hmax : 0 < satMax 64 := by decide
  refine ⟨hroom.insert (by decide) (by omega) cache.previous,
    (ByteLru.insert_budget _ lru cache.previous).trans hlimit4, fun e he => ?_⟩
  rcases ByteLru.mem_insert he with rfl | he
  · rfl
  · exact h.bytes e (hlru e he)

theorem Sound.activate (h : Sound limit pages cache) (hlimit : limit ≤ satMax 64)
    (key : CachedPageKey) : Sound limit pages (cache.activate key).1 := by
  have hshows := (h.shows.activate (fun e he => (h.shows.inactive e he).2.1) key).1
  unfold SnapshotPageCache.activate at *
  split
  · exact h
  · rename_i hother
    rw [if_neg hother] at hshows
    split
    · exact h
    · rename_i cached hfound
      rw [hfound] at hshows
      obtain ⟨hmem, -⟩ := ByteLru.find?_key hfound
      obtain ⟨-, hkey, -, hgeneration⟩ := h.shows.inactive cached hmem
      -- the page comes from the same generation, so the others still do
      have hsame : cached.value.generation = cache.current.generation := by
        rw [← hgeneration, hkey]
        rfl
      obtain ⟨hroom, hbudget, hbytes⟩ := h.shelve hlimit (h.room.remove key).1
        (ByteLru.remove_budget _ key) fun e he => ByteLru.mem_remove he
      refine ⟨hshows.mono fun k t hpage => ?_, hroom, hbudget, hbytes⟩
      exact ⟨hpage.1, hpage.2.1, hpage.2.2.1, hpage.2.2.2.trans hsame.symm⟩

theorem Sound.install (h : Sound limit pages cache) (hlimit : limit ≤ satMax 64)
    {tree : SnapshotTree} (hfits : Fits limit tree) (after : Option PageCursor) :
    Sound limit (pages ++ [(keyOf tree after, tree)]) (cache.install tree after) := by
  have hmore := h.mono (List.subset_append_left pages [(keyOf tree after, tree)])
  have hmem : (keyOf tree after, tree) ∈ pages ++ [(keyOf tree after, tree)] :=
    List.mem_append_right pages (List.mem_singleton.mpr rfl)
  unfold SnapshotPageCache.install
  split
  · exact ⟨⟨⟨hmem, rfl, hfits.2, rfl⟩, fun _ he => nomatch he⟩,
      ⟨rfl, Nat.zero_le _, Nat.zero_le _, List.nodup_nil⟩,
      congrArg (· / 4) hfits.1, fun _ he => nomatch he⟩
  · rename_i hsame
    rw [not_not] at hsame
    have hshows := hmore.shows.mono fun k t hpage =>
      show (k, t) ∈ pages ++ [(keyOf tree after, tree)] ∧ k = keyOf t k.after ∧
        t.retainedBytes ≤ limit ∧ k.generation = tree.generation from
      ⟨hpage.1, hpage.2.1, hpage.2.2.1, hpage.2.2.2.trans hsame.symm⟩
    split
    · exact ⟨⟨⟨hmem, rfl, hfits.2, rfl⟩, hshows.inactive⟩, h.room, h.budget, h.bytes⟩
    · obtain ⟨hroom, hbudget, hbytes⟩ := h.shelve hlimit h.room rfl fun _ he => he
      exact ⟨⟨⟨hmem, rfl, hfits.2, rfl⟩, hshows.insert_previous fun _ he => he⟩, hroom, hbudget,
        hbytes⟩

theorem Sound.clear (h : Sound limit pages cache) : Sound limit pages cache.clear :=
  ⟨⟨h.shows.current, fun _ he => nomatch he⟩, h.room.clear, h.budget, fun _ he => nomatch he⟩

/-- All pages together take a quarter more than one may. -/
theorem Sound.retained (h : Sound limit pages cache) :
    cache.current.retainedBytes +
      (cache.inactive.entries.map fun e => e.value.retainedBytes).sum ≤ limit + limit / 4 := by
  have hsum : (cache.inactive.entries.map fun e => e.value.retainedBytes).sum =
      cache.inactive.bytes := by
    rw [h.room.bytes]
    exact congrArg List.sum (List.map_congr_left fun e he => (h.bytes e he).symm)
  rw [hsum]
  exact Nat.add_le_add h.shows.current.2.2.1 (h.budget ▸ h.room.budget)

end Sound

/-! ## Calls -/

inductive Call where
  | activate (key : CachedPageKey)
  | install (tree : SnapshotTree) (after : Option PageCursor)
  | clear

def machine : Machine SnapshotPageCache Call Bool where
  step cache
    | .activate key => cache.activate key
    | .install tree after => (cache.install tree after, true)
    | .clear => (cache.clear, true)

/-- The pages that were installed, each under its key. -/
def installed (calls : List Call) : List (CachedPageKey × SnapshotTree) :=
  calls.filterMap fun
    | .install tree after => some (keyOf tree after, tree)
    | _ => none

theorem sound_run {limit : Nat} (hlimit : limit ≤ satMax 64) (calls : List Call)
    (hfits : ∀ tree after, Call.install tree after ∈ calls → Fits limit tree)
    {pages : List (CachedPageKey × SnapshotTree)} {cache : SnapshotPageCache}
    (h : Sound limit pages cache) : Sound limit (pages ++ installed calls) (machine.run cache calls) := by
  induction calls generalizing pages cache with
  | nil =>
    rw [show installed [] = [] from rfl, List.append_nil]
    exact h
  | cons call calls ih =>
    have hrest := fun tree after hmem => hfits tree after (List.mem_cons_of_mem call hmem)
    rw [Machine.run_cons]
    cases call with
    | activate key => exact ih hrest (h.activate hlimit key)
    | install tree after =>
      have hnext := ih hrest (h.install hlimit (hfits tree after List.mem_cons_self) after)
      rwa [List.append_assoc] at hnext
    | clear => exact ih hrest h.clear

/-- Over any calls the cache holds at most eight pages beside the one on screen, of its generation,
each under a key of its own, in a quarter of what one page may take; a page it activates is one
installed under exactly this key, and a page it does not find is not held. -/
theorem cached_pages_sound {limit : Nat} (hlimit : limit ≤ satMax 64) {tree : SnapshotTree}
    (hfirst : Fits limit tree) (after : Option PageCursor) (calls : List Call)
    (hfits : ∀ tree after, Call.install tree after ∈ calls → Fits limit tree) :
    let cache := machine.run (new tree after) calls
    let pages := (keyOf tree after, tree) :: installed calls
    Sound limit pages cache ∧
      cache.current.retainedBytes +
        (cache.inactive.entries.map fun e => e.value.retainedBytes).sum ≤ limit + limit / 4 ∧
      ∀ key, ((cache.activate key).2 = true → (cache.activate key).1.currentKey = key ∧
          (key, (cache.activate key).1.current) ∈ pages) ∧
        ((cache.activate key).2 = false → (cache.activate key).1 = cache ∧
          cache.currentKey ≠ key ∧ ∀ e ∈ cache.inactive.entries, e.key ≠ key) := by
  intro cache pages
  have hsound : Sound limit pages cache := sound_run hlimit calls hfits (sound_new hfirst after)
  refine ⟨hsound, hsound.retained, fun key => ⟨fun hfound => ?_, fun hmissed => ?_⟩⟩
  · obtain ⟨hshows, hkey⟩ := hsound.shows.activate (fun e he => (hsound.shows.inactive e he).2.1) key
    have hkey := hkey hfound
    have hcurrent := hshows.current.1
    rw [hkey] at hcurrent
    exact ⟨hkey, hcurrent⟩
  · unfold SnapshotPageCache.activate at *
    split at hmissed
    · cases hmissed
    · rename_i hother
      rw [if_neg hother]
      split at hmissed
      · rename_i hnone
        exact ⟨rfl, hother, ByteLru.find?_none hnone⟩
      · cases hmissed

/-- The view of a folder without entries. -/
def emptyFolder (folder : RelativePath) : SnapshotTree :=
  .rootOnly (fun _ => none) ⟨200, 32⟩ [] { SnapshotTree.loadingPage ⟨0⟩ with folder := folder }
    (2 ^ 16) (0, 0) none false

theorem fits_emptyFolder :
    Fits (2 ^ 16) (emptyFolder .root) ∧ Fits (2 ^ 16) (emptyFolder ⟨[⟨[97], by decide⟩]⟩) :=
  ⟨⟨rfl, by decide +kernel⟩, ⟨rfl, by decide +kernel⟩⟩

/-- Back to the root after a folder below it. -/
theorem cached_pages_sound_back :
    ((machine.run (new (emptyFolder .root) none)
      [.install (emptyFolder ⟨[⟨[97], by decide⟩]⟩) none]).activate
        ⟨⟨0⟩, .root, none⟩).1.currentKey = ⟨⟨0⟩, .root, none⟩ := by
  have hsound := cached_pages_sound (show 2 ^ 16 ≤ satMax 64 by decide) fits_emptyFolder.1 none
    [.install (emptyFolder ⟨[⟨[97], by decide⟩]⟩) none] fun tree after h => by
      cases List.mem_singleton.mp h
      exact fits_emptyFolder.2
  exact ((hsound.2.2 ⟨⟨0⟩, .root, none⟩).1 (by decide +kernel)).1

end SnapshotPageCache

end Excise
