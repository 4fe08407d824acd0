import Excise.Lib.Folds
import Excise.Lib.KWayMerge
import Excise.Store.Reduction

/-!
# What identity reduction says of a group

An order-free description of the contribution of one file identity, and that the one-pass
reduction of a sorted stream meets it for every identity of the stream.
-/

namespace Excise
set_option autoImplicit false

/-! ## One observation more -/

theorem prefix_commonPrefix {p as bs : List Component} :
    p <+: commonPrefix as bs ↔ p <+: as ∧ p <+: bs := by
  induction as generalizing p bs with
  | nil =>
    show p <+: [] ↔ _
    exact ⟨fun h => ⟨h, h.trans List.nil_prefix⟩, fun h => h.1⟩
  | cons a as ih =>
    cases bs with
    | nil =>
      show p <+: [] ↔ _
      exact ⟨fun h => ⟨h.trans List.nil_prefix, h⟩, fun h => h.2⟩
    | cons b bs =>
      cases p with
      | nil => exact iff_of_true List.nil_prefix ⟨List.nil_prefix, List.nil_prefix⟩
      | cons c p =>
        unfold commonPrefix
        by_cases hab : a = b
        · rw [if_pos hab, hab, List.cons_prefix_cons, List.cons_prefix_cons, List.cons_prefix_cons,
            ih]
          exact and_and_left
        · rw [if_neg hab, List.prefix_nil, List.cons_prefix_cons, List.cons_prefix_cons]
          refine iff_of_false (by simp) ?_
          rintro ⟨⟨hca, -⟩, hcb, -⟩
          exact hab (hca.symm.trans hcb)

/-- The common ancestor is the greatest lower bound. -/
theorem startsWith_commonAncestor (l r q : RelativePath) :
    (commonAncestor l r).startsWith q = true ↔ l.startsWith q = true ∧ r.startsWith q = true := by
  rw [RelativePath.startsWith_iff, RelativePath.startsWith_iff, RelativePath.startsWith_iff]
  exact prefix_commonPrefix

theorem mergeDeclaredLinks_eq_some {a b : Option Nat} {n : Nat} :
    mergeDeclaredLinks a b = some n ↔ a = some n ∧ b = some n := by
  cases a with
  | none => simp [mergeDeclaredLinks]
  | some x =>
    cases b with
    | none => simp [mergeDeclaredLinks]
    | some y =>
      show (if x = y then some x else none) = some n ↔ _
      by_cases hxy : x = y
      · rw [if_pos hxy, hxy, and_self]
      · rw [if_neg hxy, Option.some.injEq, Option.some.injEq]
        exact iff_of_false (by simp) fun h => hxy (h.1.trans h.2.symm)

theorem exactBytes_eq_some {b : ByteBounds} {n : Nat} : exactBytes b = some n ↔ b = .exact n := by
  obtain ⟨lower, upper⟩ := b
  unfold exactBytes ByteBounds.exact
  rw [ByteBounds.mk.injEq]
  constructor
  · intro h
    split at h
    · rename_i hupper
      cases h
      exact ⟨rfl, hupper⟩
    · cases h
  · rintro ⟨rfl, rfl⟩
    exact if_pos rfl

/-- What a group holds of the observations it has seen. -/
structure IdentityGroup.Describes (g : IdentityGroup) (os : List IdentityObservation) : Prop where
  nonempty : os ≠ []
  count : g.observedLinks = os.length
  counted : os.length < 2 ^ 64
  links : ∀ n, g.declaredLinks = some n ↔ ∀ o ∈ os, o.declaredLinks = some n
  bytes : ∀ n, g.exactAllocatedBytes = some n ↔ ∀ o ∈ os, o.allocatedBytes = .exact n
  recipient : ∀ q, g.recipient.startsWith q = true ↔ ∀ o ∈ os, o.path.startsWith q = true

namespace IdentityGroup

theorem describes_fromObservation (o : IdentityObservation) : (fromObservation o).Describes [o] where
  nonempty := by simp
  count := rfl
  counted := by simp
  links n := by simp [fromObservation]
  bytes n := by simp [fromObservation, exactBytes_eq_some]
  recipient q := by simp [fromObservation]

theorem Describes.observe {g g' : IdentityGroup} {os : List IdentityObservation}
    {o : IdentityObservation} (h : g.Describes os) (hg : g.observe o = .ok g') :
    g'.Describes (os ++ [o]) ∧ g'.fileId = g.fileId := by
  unfold IdentityGroup.observe at hg
  split at hg
  · cases hg
  rename_i hcount
  cases hg
  refine ⟨⟨by simp, ?_, ?_, ?_, ?_, ?_⟩, rfl⟩
  · show g.observedLinks + 1 = _
    rw [h.count, List.length_append, List.length_singleton]
  · rw [h.count] at hcount
    rw [List.length_append, List.length_singleton]
    exact Nat.lt_of_not_le hcount
  · intro n
    show mergeDeclaredLinks g.declaredLinks o.declaredLinks = some n ↔ _
    rw [mergeDeclaredLinks_eq_some, h.links, List.forall_mem_append, List.forall_mem_singleton]
  · intro n
    show mergeDeclaredLinks g.exactAllocatedBytes (exactBytes o.allocatedBytes) = some n ↔ _
    rw [mergeDeclaredLinks_eq_some, h.bytes, exactBytes_eq_some, List.forall_mem_append,
      List.forall_mem_singleton]
  · intro q
    show (commonAncestor g.recipient o.path).startsWith q = true ↔ _
    rw [startsWith_commonAncestor, h.recipient, List.forall_mem_append, List.forall_mem_singleton]

theorem observe_error {g : IdentityGroup} {os : List IdentityObservation} {o : IdentityObservation}
    {e : IdentityReductionError} (h : g.Describes os) (hg : g.observe o = .error e) :
    e = .ObservationCountOverflow ∧ 2 ^ 64 ≤ (os ++ [o]).length := by
  unfold IdentityGroup.observe at hg
  split at hg
  · rename_i hcount
    cases hg
    rw [h.count] at hcount
    rw [List.length_append, List.length_singleton]
    exact ⟨rfl, hcount⟩
  · cases hg

end IdentityGroup

/-! ## The contribution of a group -/

/-- The contribution of the observations of one identity, whatever their order. -/
structure Contributes (os : List IdentityObservation) (c : AllocationContribution) : Prop where
  below : ∀ o ∈ os, o.path.startsWith c.recipient = true
  lowest : ∀ q : RelativePath, (∀ o ∈ os, o.path.startsWith q = true) → c.recipient.startsWith q = true
  leaf : c.placement = .Leaf ↔ os.length = 1
  exact : ∀ n, c.allocatedBytes = .exact n ↔ ∀ o ∈ os, o.allocatedBytes = .exact n
  unknown : (¬∃ n, ∀ o ∈ os, o.allocatedBytes = .exact n) → c.allocatedBytes = .unknown
  reclaimable : (∃ n, n ≤ os.length ∧ ∀ o ∈ os, o.declaredLinks = some n) →
    c.reclaimableBytes = c.allocatedBytes
  withheld : (¬∃ n, n ≤ os.length ∧ ∀ o ∈ os, o.declaredLinks = some n) →
    c.reclaimableBytes = ⟨0, c.allocatedBytes.upper⟩

theorem IdentityGroup.Describes.contributes {g : IdentityGroup} {os : List IdentityObservation}
    (h : g.Describes os) : Contributes os g.contribution := by
  have hallocated : ∀ n, g.allocatedBytes = .exact n ↔ g.exactAllocatedBytes = some n := by
    intro n
    unfold IdentityGroup.allocatedBytes
    cases g.exactAllocatedBytes with
    | none => simp [ByteBounds.unknown, ByteBounds.exact]
    | some m => simp [ByteBounds.exact]
  have hlinks : (g.declaredLinks.any fun declared => decide (declared ≤ g.observedLinks)) = true ↔
      ∃ n, n ≤ os.length ∧ ∀ o ∈ os, o.declaredLinks = some n := by
    rw [Option.any_eq_true]
    constructor
    · rintro ⟨n, hn, hle⟩
      exact ⟨n, h.count ▸ of_decide_eq_true hle, (h.links n).mp hn⟩
    · rintro ⟨n, hle, hn⟩
      exact ⟨n, (h.links n).mpr hn, decide_eq_true (h.count ▸ hle)⟩
  refine ⟨(h.recipient _).mp (RelativePath.startsWith_refl _), fun q => (h.recipient q).mpr, ?_, ?_, ?_,
    ?_, ?_⟩
  · show (if g.observedLinks = 1 then AllocationPlacement.Leaf else .Shared) = .Leaf ↔ _
    rw [h.count]
    split <;> simp [*]
  · intro n
    exact (hallocated n).trans (h.bytes n)
  · intro hnone
    show g.allocatedBytes = .unknown
    unfold IdentityGroup.allocatedBytes
    cases hexact : g.exactAllocatedBytes with
    | none => rfl
    | some n => exact absurd ⟨n, (h.bytes n).mp hexact⟩ hnone
  · intro hsome
    exact if_pos (hlinks.mpr hsome)
  · intro hnone
    exact if_neg fun hany => hnone (hlinks.mp hany)

/-- The description leaves no choice, and does not depend on the order. -/
theorem Contributes.unique {os os' : List IdentityObservation} {c c' : AllocationContribution}
    (h : Contributes os c) (h' : Contributes os' c') (hperm : os.Perm os') : c = c' := by
  have hall {P : IdentityObservation → Prop} : (∀ o ∈ os, P o) ↔ ∀ o ∈ os', P o :=
    forall_congr' fun o => imp_congr hperm.mem_iff Iff.rfl
  have hrecipient : c.recipient = c'.recipient :=
    RelativePath.startsWith_antisymm (h.lowest _ (hall.mpr h'.below))
      (h'.lowest _ (hall.mp h.below))
  have hplacement : c.placement = c'.placement := by
    have hleaf : c.placement = .Leaf ↔ c'.placement = .Leaf := by
      rw [h.leaf, h'.leaf, hperm.length_eq]
    cases hc : c.placement <;> cases hc' : c'.placement <;> simp [hc, hc'] at hleaf ⊢
  have hallocated : c.allocatedBytes = c'.allocatedBytes := by
    by_cases hsome : ∃ n, ∀ o ∈ os, o.allocatedBytes = .exact n
    · obtain ⟨n, hn⟩ := hsome
      rw [(h.exact n).mpr hn, (h'.exact n).mpr (hall.mp hn)]
    · have hnone : ¬∃ n, ∀ o ∈ os', o.allocatedBytes = .exact n := by
        rintro ⟨n, hn⟩
        exact hsome ⟨n, hall.mpr hn⟩
      rw [h.unknown hsome, h'.unknown hnone]
  have hreclaimable : c.reclaimableBytes = c'.reclaimableBytes := by
    have hsame : (∃ n, n ≤ os.length ∧ ∀ o ∈ os, o.declaredLinks = some n) ↔
        ∃ n, n ≤ os'.length ∧ ∀ o ∈ os', o.declaredLinks = some n := by
      rw [hperm.length_eq]
      exact exists_congr fun n => and_congr_right fun _ => hall
    by_cases hsome : ∃ n, n ≤ os.length ∧ ∀ o ∈ os, o.declaredLinks = some n
    · rw [h.reclaimable hsome, h'.reclaimable (hsame.mp hsome), hallocated]
    · rw [h.withheld hsome, h'.withheld (mt hsame.mpr hsome), hallocated]
  cases c
  cases c'
  simp only [AllocationContribution.mk.injEq]
  exact ⟨hrecipient, hplacement, hallocated, hreclaimable⟩

/-- Observing the paths of a group in any order gives one contribution. -/
theorem contribution_of_perm {o o' : IdentityObservation} {rest rest' : List IdentityObservation}
    {g g' : IdentityGroup} (hperm : (o :: rest).Perm (o' :: rest'))
    (hg : rest.foldlM IdentityGroup.observe (.fromObservation o) = .ok g)
    (hg' : rest'.foldlM IdentityGroup.observe (.fromObservation o') = .ok g') :
    g.contribution = g'.contribution := by
  have hfold : ∀ (os seen : List IdentityObservation) (g g' : IdentityGroup), g.Describes seen →
      os.foldlM IdentityGroup.observe g = .ok g' → g'.Describes (seen ++ os) := by
    intro os
    induction os with
    | nil =>
      intro seen g g' h hfold
      cases hfold
      rwa [List.append_nil]
    | cons a os ih =>
      intro seen g g' h hfold
      obtain ⟨m, hm, hrest⟩ := foldlM_cons_ok hfold
      have hall := ih (seen ++ [a]) m g' (h.observe hm).1 hrest
      rwa [List.append_assoc, List.singleton_append] at hall
  have h := hfold rest [o] _ g (IdentityGroup.describes_fromObservation o) hg
  have h' := hfold rest' [o'] _ g' (IdentityGroup.describes_fromObservation o') hg'
  exact h.contributes.unique h'.contributes hperm

/-! ## A sorted stream -/

/-- The observations of one identity. -/
def observationsOf (id : FileId) (os : List IdentityObservation) : List IdentityObservation :=
  os.filter fun o => o.fileId = id

theorem observationsOf_append (id : FileId) (os more : List IdentityObservation) :
    observationsOf id (os ++ more) = observationsOf id os ++ observationsOf id more :=
  List.filter_append ..

theorem observationsOf_all {id : FileId} {os : List IdentityObservation}
    (h : ∀ o ∈ os, o.fileId = id) : observationsOf id os = os :=
  List.filter_eq_self.mpr fun o ho => decide_eq_true (h o ho)

theorem observationsOf_none {id : FileId} {os : List IdentityObservation}
    (h : ∀ o ∈ os, o.fileId ≠ id) : observationsOf id os = [] :=
  List.filter_eq_nil_iff.mpr fun o ho => by simpa using h o ho

/-- One record for every identity, in order, each with the contribution of its observations. -/
structure Contributed (os : List IdentityObservation)
    (records : List (FileId × AllocationContribution)) : Prop where
  sorted : SortedBy Prod.fst records
  ids : ∀ id, (∃ c, (id, c) ∈ records) ↔ ∃ o ∈ os, o.fileId = id
  counted : ∀ id, (observationsOf id os).length < 2 ^ 64
  contributes : ∀ id c, (id, c) ∈ records → Contributes (observationsOf id os) c

/-- What the loop holds after the observations `os`: the records of the finished groups and the
open group, whose identity is above theirs. -/
structure GroupState.Reads (s : GroupState) (os : List IdentityObservation) : Prop where
  split : ∃ before current, os = before ++ current ∧ Contributed before s.written ∧
    match s.group with
    | none => before = [] ∧ current = []
    | some g => g.Describes current ∧ (∀ o ∈ current, o.fileId = g.fileId) ∧
        ∀ o ∈ before, o.fileId < g.fileId

theorem contributed_nil : Contributed [] [] where
  sorted := .nil
  ids := by simp
  counted := by simp [observationsOf]
  contributes := by simp

/-- Writing the record of a finished group. -/
theorem Contributed.snoc {before current : List IdentityObservation} {g : IdentityGroup}
    {written : List (FileId × AllocationContribution)} (h : Contributed before written)
    (hg : g.Describes current) (hids : ∀ o ∈ current, o.fileId = g.fileId)
    (hbefore : ∀ o ∈ before, o.fileId < g.fileId) :
    Contributed (before ++ current) (written ++ [(g.fileId, g.contribution)]) := by
  have hbelow : ∀ r ∈ written, r.1 < g.fileId := by
    intro r hr
    obtain ⟨o, ho, hid⟩ := (h.ids r.1).mp ⟨r.2, hr⟩
    exact hid ▸ hbefore o ho
  obtain ⟨first, hfirst⟩ := List.exists_mem_of_ne_nil _ hg.nonempty
  refine ⟨?_, ?_, ?_, ?_⟩
  · refine List.pairwise_append.mpr ⟨h.sorted, List.pairwise_singleton _ _, ?_⟩
    intro r hr x hx
    rw [List.mem_singleton.mp hx]
    exact hbelow r hr
  · intro id
    constructor
    · rintro ⟨c, hc⟩
      rcases List.mem_append.mp hc with hc | hc
      · obtain ⟨o, ho, hid⟩ := (h.ids id).mp ⟨c, hc⟩
        exact ⟨o, List.mem_append_left _ ho, hid⟩
      · cases List.mem_singleton.mp hc
        exact ⟨first, List.mem_append_right _ hfirst, hids first hfirst⟩
    · rintro ⟨o, ho, rfl⟩
      rcases List.mem_append.mp ho with ho | ho
      · obtain ⟨c, hc⟩ := (h.ids o.fileId).mpr ⟨o, ho, rfl⟩
        exact ⟨c, List.mem_append_left _ hc⟩
      · rw [hids o ho]
        exact ⟨_, List.mem_append_right _ (List.mem_singleton_self _)⟩
  · intro id
    rw [observationsOf_append]
    by_cases hid : id = g.fileId
    · rw [observationsOf_none fun o ho => hid ▸ (hbefore o ho).ne, List.nil_append]
      exact (List.length_filter_le _ _).trans_lt hg.counted
    · have hnone : observationsOf id current = [] :=
        observationsOf_none fun o ho => hids o ho ▸ Ne.symm hid
      rw [hnone, List.append_nil]
      exact h.counted id
  · intro id c hc
    rw [observationsOf_append]
    rcases List.mem_append.mp hc with hc | hc
    · have hne : ∀ o ∈ current, o.fileId ≠ id := by
        intro o ho
        rw [hids o ho]
        exact (hbelow (id, c) hc).ne'
      rw [observationsOf_none hne, List.append_nil]
      exact h.contributes id c hc
    · cases List.mem_singleton.mp hc
      rw [observationsOf_none fun o ho => (hbefore o ho).ne, observationsOf_all hids,
        List.nil_append]
      exact hg.contributes

theorem flush_group {current : List IdentityObservation} {g : IdentityGroup}
    (hg : g.Describes current) (hroot : ∀ o ∈ current, o.path.isRoot = false) :
    g.flush = .ok (g.fileId, g.contribution) := by
  unfold IdentityGroup.flush
  refine if_neg ?_
  rintro ⟨hleaf, hrecipient⟩
  obtain ⟨o, rfl⟩ := List.length_eq_one_iff.mp (hg.contributes.leaf.mp hleaf)
  have hlowest := (hg.recipient o.path).mpr (by simp)
  rw [(RelativePath.isRoot_iff g.recipient).mp hrecipient, RelativePath.startsWith_iff] at hlowest
  have hempty : o.path.isRoot = true := by
    rw [RelativePath.isRoot_iff]
    exact RelativePath.ext_components (List.prefix_nil.mp hlowest)
  rw [hroot o (List.mem_singleton_self o)] at hempty
  cases hempty

/-- The next observation of a sorted stream. -/
theorem reads_observe {s : GroupState} {os : List IdentityObservation} {o : IdentityObservation}
    (h : s.Reads os) (hroot : ∀ x ∈ os, x.path.isRoot = false)
    (hsorted : ∀ x ∈ os, x.fileId ≤ o.fileId) :
    (∀ s', s.observe o = .ok s' → s'.Reads (os ++ [o])) ∧
    ∀ e, s.observe o = .error e → e = .ObservationCountOverflow ∧
      2 ^ 64 ≤ (observationsOf o.fileId (os ++ [o])).length := by
  obtain ⟨before, current, rfl, hwritten, hgroup⟩ := h.split
  unfold GroupState.observe
  cases hs : s.group with
  | none =>
    rw [hs] at hgroup
    obtain ⟨rfl, rfl⟩ := hgroup
    refine ⟨fun s' hs' => ?_, fun e he => (by cases he)⟩
    cases hs'
    exact ⟨[], [o], rfl, hwritten, IdentityGroup.describes_fromObservation o, by simp [IdentityGroup.fromObservation], by simp⟩
  | some g =>
    rw [hs] at hgroup
    obtain ⟨hg, hids, hbefore⟩ := hgroup
    dsimp only
    by_cases hid : g.fileId = o.fileId
    · -- another path of the open group
      rw [if_pos hid]
      have hall : ∀ x ∈ current ++ [o], x.fileId = g.fileId := by
        rw [List.forall_mem_append, List.forall_mem_singleton]
        exact ⟨hids, hid.symm⟩
      constructor
      · intro s' hs'
        obtain ⟨g', hg', rfl⟩ := map_eq_ok hs'
        obtain ⟨hdescribes, hsame⟩ := hg.observe hg'
        refine ⟨before, current ++ [o], List.append_assoc _ _ _, hwritten, hdescribes, ?_, ?_⟩
        · rw [hsame]
          exact hall
        · rw [hsame]
          exact hbefore
      · intro e he
        cases hg' : g.observe o with
        | ok g' =>
          rw [hg'] at he
          cases he
        | error e' =>
          rw [hg'] at he
          cases he
          obtain ⟨rfl, hcount⟩ := IdentityGroup.observe_error hg hg'
          refine ⟨rfl, ?_⟩
          rw [List.append_assoc, observationsOf_append,
            observationsOf_none fun x hx => hid ▸ (hbefore x hx).ne, observationsOf_all (hid ▸ hall)]
          exact hcount
    · -- the identity changes: the open group is written
      rw [if_neg hid]
      obtain ⟨x, hx⟩ := List.exists_mem_of_ne_nil _ hg.nonempty
      have hlt : g.fileId < o.fileId :=
        lt_of_le_of_ne (hids x hx ▸ hsorted x (List.mem_append_right _ hx)) hid
      have hflush := flush_group hg fun y hy => hroot y (List.mem_append_right _ hy)
      unfold GroupState.flush
      rw [hs]
      dsimp only
      rw [hflush]
      refine ⟨fun s' hs' => ?_, fun e he => (by cases he)⟩
      cases hs'
      refine ⟨before ++ current, [o], rfl, hwritten.snoc hg hids hbefore,
        IdentityGroup.describes_fromObservation o, by simp [IdentityGroup.fromObservation], ?_⟩
      intro y hy
      rcases List.mem_append.mp hy with hy | hy
      · exact (hbefore y hy).trans hlt
      · exact hids y hy ▸ hlt

/-- The stream from any point on. -/
theorem reads_fold {rest : List IdentityObservation} {s : GroupState}
    {os : List IdentityObservation} (h : s.Reads os)
    (hroot : ∀ o ∈ os ++ rest, o.path.isRoot = false)
    (hsorted : (os ++ rest).Pairwise fun a b => a.fileId ≤ b.fileId) :
    (∀ s', rest.foldlM GroupState.observe s = .ok s' → s'.Reads (os ++ rest)) ∧
    ∀ e, rest.foldlM GroupState.observe s = .error e → e = .ObservationCountOverflow ∧
      ∃ id, 2 ^ 64 ≤ (observationsOf id (os ++ rest)).length := by
  induction rest generalizing s os with
  | nil =>
    rw [List.append_nil]
    refine ⟨fun s' hs' => ?_, fun e he => (by cases he)⟩
    cases hs'
    exact h
  | cons o rest ih =>
    have hstep := reads_observe h (fun x hx => hroot x (List.mem_append_left _ hx))
      fun x hx => (List.pairwise_append.mp hsorted).2.2 x hx o List.mem_cons_self
    have hassoc : os ++ o :: rest = os ++ [o] ++ rest := by simp
    rw [List.foldlM_cons]
    cases ho : s.observe o with
    | error e =>
      obtain ⟨rfl, hcount⟩ := hstep.2 e ho
      refine ⟨fun s' hs' => (by cases hs'), fun e he => ?_⟩
      cases he
      refine ⟨rfl, o.fileId, hcount.trans ?_⟩
      rw [hassoc, observationsOf_append _ (os ++ [o]), List.length_append]
      omega
    | ok s' =>
      rw [hassoc] at hroot hsorted ⊢
      exact ih (hstep.1 s' ho) hroot hsorted

/-- Reduction of a grouped stream without the root: one contribution for every identity, unless
some identity has more paths than can be counted. -/
theorem reduceIdentityObservations_spec {os : List IdentityObservation}
    (hgrouped : os.Pairwise fun a b => a.fileId ≤ b.fileId)
    (hroot : ∀ o ∈ os, o.path.isRoot = false) :
    (∀ records, reduceIdentityObservations os = .ok records → Contributed os records) ∧
    ∀ e, reduceIdentityObservations os = .error e → e = .ObservationCountOverflow ∧
      ∃ id, 2 ^ 64 ≤ (observationsOf id os).length := by
  have hfold := @reads_fold os ⟨none, []⟩ [] ⟨[], [], rfl, contributed_nil, rfl, rfl⟩ hroot
    hgrouped
  unfold reduceIdentityObservations
  cases hs : os.foldlM GroupState.observe ⟨none, []⟩ with
  | error e =>
    refine ⟨fun records h => (by cases h), fun e' he => ?_⟩
    cases he
    exact hfold.2 e hs
  | ok s =>
    obtain ⟨before, current, heq, hwritten, hgroup⟩ := (hfold.1 s hs).split
    rw [List.nil_append] at heq
    show (∀ records, s.flush = .ok records → _) ∧ ∀ e, s.flush = .error e → _
    unfold GroupState.flush
    cases hg : s.group with
    | none =>
      rw [hg] at hgroup
      obtain ⟨rfl, rfl⟩ := hgroup
      refine ⟨fun records h => ?_, fun e he => (by cases he)⟩
      cases h
      rw [heq]
      exact hwritten
    | some g =>
      rw [hg] at hgroup
      obtain ⟨hdescribes, hsame, hbefore⟩ := hgroup
      have hflush := flush_group hdescribes fun o ho =>
        hroot o (heq ▸ List.mem_append_right _ ho)
      dsimp only
      rw [hflush]
      refine ⟨fun records h => ?_, fun e he => (by cases he)⟩
      cases h
      rw [heq]
      exact hwritten.snoc hdescribes hsame hbefore

/-- The records are determined by the observations, whatever their order in the groups. -/
theorem Contributed.unique {os os' : List IdentityObservation}
    {records records' : List (FileId × AllocationContribution)} (h : Contributed os records)
    (h' : Contributed os' records') (hperm : os.Perm os') : records = records' := by
  have hsub : ∀ {os os' records records'}, Contributed os records → Contributed os' records' →
      os.Perm os' → ∀ r ∈ records, r ∈ records' := by
    intro os os' records records' h h' hperm r hr
    obtain ⟨o, ho, hid⟩ := (h.ids r.1).mp ⟨r.2, hr⟩
    obtain ⟨c, hc⟩ := (h'.ids r.1).mpr ⟨o, hperm.mem_iff.mp ho, hid⟩
    have hsame := (h.contributes r.1 r.2 hr).unique (h'.contributes r.1 c hc) (hperm.filter _)
    rwa [← hsame] at hc
  refine h.sorted.eq_of_perm h'.sorted ?_
  rw [List.perm_ext_iff_of_nodup h.sorted.nodup_keys.of_map h'.sorted.nodup_keys.of_map]
  exact fun r => ⟨hsub h h' hperm r, hsub h' h hperm.symm r⟩

/-- A sorted stream reduces to one contribution for every identity, and each way of ordering the
observations inside the groups gives the same records. -/
theorem identity_reduction {os : List IdentityObservation}
    (hsorted : SortedBy (fun o => (Fact.identity o).key) os)
    (hroot : ∀ o ∈ os, o.path.isRoot = false) :
    (∀ records, reduceIdentityObservations os = .ok records →
      Contributed os records ∧
      ∀ os', os.Perm os' → (os'.Pairwise fun a b => a.fileId ≤ b.fileId) →
        reduceIdentityObservations os' = .ok records) ∧
    ∀ e, reduceIdentityObservations os = .error e → e = .ObservationCountOverflow ∧
      ∃ id, 2 ^ 64 ≤ (observationsOf id os).length := by
  have hgrouped : os.Pairwise fun a b => a.fileId ≤ b.fileId := hsorted.imp fun {a b} hab => by
    rcases FactKey.identity_lt_identity.mp hab with hlt | ⟨heq, -⟩
    · exact hlt.le
    · exact heq.le
  have hspec := reduceIdentityObservations_spec hgrouped hroot
  refine ⟨fun records hrecords => ⟨hspec.1 records hrecords, fun os' hperm hgrouped' => ?_⟩, hspec.2⟩
  have hcontributed := hspec.1 records hrecords
  have hspec' := reduceIdentityObservations_spec hgrouped' fun o ho =>
    hroot o (hperm.mem_iff.mpr ho)
  cases hrecords' : reduceIdentityObservations os' with
  | error e =>
    obtain ⟨-, id, hcount⟩ := hspec'.2 e hrecords'
    have hsame : (observationsOf id os).length = (observationsOf id os').length :=
      (hperm.filter _).length_eq
    have hcounted := hcontributed.counted id
    omega
  | ok records' => rw [hcontributed.unique (hspec'.1 records' hrecords') hperm]

/-- Two paths of one file that declare two links and agree on its bytes. -/
def twoLinks : List IdentityObservation :=
  [⟨⟨[⟨[97], valid_a⟩, ⟨[98], valid_b⟩]⟩, .Inode 1 7, some 2, .exact 9⟩,
    ⟨⟨[⟨[97], valid_a⟩, ⟨[99], valid_c⟩]⟩, .Inode 1 7, some 2, .exact 9⟩]

theorem identity_reduction_pair :
    ∃ records, reduceIdentityObservations twoLinks = .ok records ∧ Contributed twoLinks records :=
  ⟨_, rfl, ((identity_reduction (by unfold SortedBy; decide) (by decide)).1 _ rfl).1⟩

end Excise
