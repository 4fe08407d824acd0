import Excise.Deletion.SharedFolders

/-!
# What the executor removes among others

Along every run of the executor in shared folders, whatever others do between its steps: it removes
its own placeholders and objects it has just found to be the planned ones, and leaves every other
object its names.
-/

namespace Excise
set_option autoImplicit false

/-- A removal that was the executor's to make. -/
def Removal.Allowed (objects : ObjectTable) (plan : DeletionPlan) (placeholders : List FileId)
    (r : Removal) : Prop :=
  r.object ∈ placeholders ∨ ∃ entry ∈ plan.entries, ∃ snapshot,
    r.planned = some entry ∧ r.seen = some (r.object, snapshot) ∧
      matchesForExecution entry.snapshot snapshot = true ∧
      objects.isObject r.object entry.snapshot.identity = true ∧
      entry.snapshot.kind = objects.kind r.object

/-- The objects, the root they are in, the plan, and whether the others are respectful. -/
structure Setting where
  objects : ObjectTable
  root : FileId
  plan : DeletionPlan
  respectful : Bool

namespace Setting

def Safe (w : Setting) (s : SharedState) : Prop :=
  w.respectful = true → ∀ r ∈ s.removals, r.Allowed w.objects w.plan s.placeholders

/-- The weakest precondition among others. -/
abbrev guards {α : Type} (w : Setting) (Q : α → SharedState → Prop) (p : Executor α)
    (s : SharedState) : Prop :=
  (sharedWorld w.objects w.root w.respectful).wp w.Safe Q p s

variable {w : Setting} {s s' : SharedState}

theorem Safe.of_removals (h : w.Safe s) (hr : s'.removals = s.removals)
    (hp : ∀ x ∈ s.placeholders, x ∈ s'.placeholders) : w.Safe s' := by
  intro hrespect r hmem
  rw [hr] at hmem
  exact (h hrespect r hmem).imp_left (hp r.object)

theorem Safe.looks (h : w.Safe s) (hs : Looks w.respectful s s') : w.Safe s' :=
  h.of_removals hs.removals hs.placeholders

end Setting

/-! ## The calls of the executor -/

section
variable {w : Setting} {α : Type} {Q : α → SharedState → Prop} {s : SharedState} {d : Handle}
  {a b n : OsString}

open Executor

theorem guards_return {x : α} (hs : w.Safe s)
    (h : ∀ s₁, Waits w.respectful s s₁ → Q x s₁) : w.guards Q (pure x) s :=
  World.wp_done (P := Waits w.respectful s) (.refl s) (fun _ a hw => hw.trans (waits_others _ _ a))
    (fun _ hw => hs.looks hw.toLooks) h

theorem guards_call {c : ExecutorCall} {next : c.Answer → Executor α} (hs : w.Safe s)
    (h : ∀ s₁ answers fresh, Waits w.respectful s s₁ → w.Safe s₁ →
      sharedStep w.objects w.root answers fresh c s₁ = (s₁, none) ∨
        ∃ s' answer, sharedStep w.objects w.root answers fresh c s₁ = (s', some answer) ∧
          w.guards Q (next answer) s') : w.guards Q (.call c next) s := by
  refine World.wp_call (S := executorSignature) (P := Waits w.respectful s) (.refl s)
    (fun _ a hw => hw.trans (waits_others _ _ a)) (fun _ hw => hs.looks hw.toLooks) ?_ ?_
  · intro s₁ e hw hnone
    rcases h s₁ e.1 e.2 hw (hs.looks hw.toLooks) with hidle | ⟨s', answer, hstep, -⟩
    · have hstate : ((sharedWorld w.objects w.root w.respectful).perform c e s₁).1 = s₁ :=
        congrArg Prod.fst hidle
      rw [hstate]
      exact hw
    · have hsome := congrArg Prod.snd hstep
      cases hnone.symm.trans hsome
  · intro s₁ e answer hw hanswer
    rcases h s₁ e.1 e.2 hw (hs.looks hw.toLooks) with hidle | ⟨s', answer', hstep, hnext⟩
    · have hnone := congrArg Prod.snd hidle
      cases hanswer.symm.trans hnone
    · obtain rfl := Option.some.inj (hanswer.symm.trans (congrArg Prod.snd hstep))
      have hstate : ((sharedWorld w.objects w.root w.respectful).perform c e s₁).1 = s' :=
        congrArg Prod.fst hstep
      rw [hstate]
      exact hnext

theorem guards_ask {c : ExecutorCall} {f : c.Answer → Executor α} (hs : w.Safe s)
    (hc : ∀ answers fresh s, sharedStep w.objects w.root answers fresh c s =
      (s, some (answers c)))
    (h : ∀ s₁ answer, Waits w.respectful s s₁ → w.Safe s₁ → w.guards Q (f answer) s₁) :
    w.guards Q (Program.ask (S := executorSignature) c >>= f) s :=
  guards_call hs fun s₁ answers fresh hw hs₁ =>
    Or.inr ⟨s₁, _, hc answers fresh s₁, h s₁ _ hw hs₁⟩

/-! ## Looking -/

theorem looks_seen (seen : Option (FileId × PlannedSnapshot)) :
    Looks w.respectful s { s with seen := seen } :=
  ⟨⟨fun _ _ h => h, fun _ h => h, fun _ h => h, rfl, fun _ h => h, fun _ h => h,
    fun _ h => Or.inl h⟩, rfl, rfl, fun _ _ _ => rfl⟩

theorem handles_update {handles : Handle → Option FileId} {h k : Handle} {x y : FileId}
    (hfree : handles h = none) (hk : handles k = some y) :
    Function.update handles h (some x) k = some y := by
  rw [Function.update_of_ne, hk]
  rintro rfl
  cases hfree.symm.trans hk

theorem looks_handle {h : Handle} {x : FileId} (hfree : s.handles h = none) :
    Looks w.respectful s { s with handles := Function.update s.handles h (some x) } :=
  ⟨⟨fun _ _ hk => handles_update hfree hk, fun _ h => h, fun _ h => h, rfl, fun _ h => h,
    fun _ h => h, fun _ h => Or.inl h⟩, rfl, rfl, fun _ _ _ => rfl⟩

theorem SharedState.sees_eq_some {objects : ObjectTable} {x : Option FileId}
    {snapshot : PlannedSnapshot} {s' : SharedState} (h : s.sees objects x snapshot = some s') :
    ∃ y, x = some y ∧ objects.isObject y snapshot.identity = true ∧
      snapshot.kind = objects.kind y ∧ s' = { s with seen := some (y, snapshot) } := by
  unfold SharedState.sees at h
  split at h
  · rename_i y
    split at h
    · rename_i htells
      unfold ObjectTable.tells at htells
      rw [Bool.and_eq_true, Bool.and_eq_true, decide_eq_true_eq] at htells
      exact ⟨y, rfl, htells.1.1, htells.1.2, (Option.some.inj h).symm⟩
    · cases h
  · cases h

theorem SharedState.holds_eq_some {x : FileId} (h : s.holds d n = some x) :
    ∃ folder, s.handles d = some folder ∧ s.table.names (folder, n) = some x := by
  unfold SharedState.holds SharedState.place at h
  cases hd : s.handles d with
  | none =>
    rw [hd] at h
    cases h
  | some folder =>
    rw [hd] at h
    exact ⟨folder, rfl, h⟩

theorem guards_statAt {f : Except IoError (Except String PlannedSnapshot) → Executor α}
    (hs : w.Safe s)
    (herror : ∀ s₁ answer, Looks w.respectful s s₁ → w.Safe s₁ →
      (∀ snapshot, answer ≠ .ok (.ok snapshot)) → w.guards Q (f answer) s₁)
    (hok : ∀ s₁ snapshot x, Looks w.respectful s s₁ → w.Safe s₁ → s₁.holds d n = some x →
      s₁.seen = some (x, snapshot) → w.objects.isObject x snapshot.identity = true →
      snapshot.kind = w.objects.kind x → w.guards Q (f (.ok (.ok snapshot))) s₁) :
    w.guards Q (statAt d n >>= f) s := by
  refine guards_call hs fun s₁ answers _ hw hs₁ => ?_
  show s₁.statAt w.objects d n (answers (.statAt d n)) = _ ∨
    ∃ s' answer, s₁.statAt w.objects d n (answers (.statAt d n)) = _ ∧ _
  rcases answers (.statAt d n) with e | (message | snapshot)
  · exact Or.inr ⟨s₁, _, rfl, herror s₁ _ hw.toLooks hs₁ fun _ h => nomatch h⟩
  · exact Or.inr ⟨s₁, _, rfl, herror s₁ _ hw.toLooks hs₁ fun _ h => nomatch h⟩
  · unfold SharedState.statAt
    dsimp only
    split
    · rename_i s' hsees
      obtain ⟨x, hx, hobject, hkind, rfl⟩ := SharedState.sees_eq_some hsees
      have hseen : Looks w.respectful s { s₁ with seen := some (x, snapshot) } :=
        hw.toLooks.trans (looks_seen _)
      exact Or.inr ⟨_, _, rfl, hok _ snapshot x hseen (hs.looks hseen) hx rfl hobject hkind⟩
    · exact Or.inl rfl

theorem SharedState.statOpen_cases (objects : ObjectTable) (s : SharedState) (h : Handle)
    (asked : Except IoError PlannedSnapshot) :
    s.statOpen objects h asked = (s, none) ∨
      (∃ e, s.statOpen objects h asked = (s, some (.error e))) ∨
      ∃ snapshot x, s.handles h = some x ∧ objects.isObject x snapshot.identity = true ∧
        snapshot.kind = objects.kind x ∧ s.statOpen objects h asked =
          ({ s with seen := some (x, snapshot) }, some (.ok snapshot)) := by
  cases asked with
  | error e => exact Or.inr (Or.inl ⟨e, rfl⟩)
  | ok snapshot =>
    unfold SharedState.statOpen
    dsimp only
    split
    · rename_i s' hsees
      obtain ⟨x, hx, hobject, hkind, rfl⟩ := SharedState.sees_eq_some hsees
      exact Or.inr (Or.inr ⟨snapshot, x, hx, hobject, hkind, rfl⟩)
    · exact Or.inl rfl

theorem guards_statOpen {f : Except IoError PlannedSnapshot → Executor α} (hs : w.Safe s)
    (herror : ∀ s₁ e, Looks w.respectful s s₁ → w.Safe s₁ → w.guards Q (f (.error e)) s₁)
    (hok : ∀ s₁ snapshot x, Looks w.respectful s s₁ → w.Safe s₁ → s.handles d = some x →
      s₁.seen = some (x, snapshot) → w.objects.isObject x snapshot.identity = true →
      snapshot.kind = w.objects.kind x → w.guards Q (f (.ok snapshot)) s₁) :
    w.guards Q (statOpen d >>= f) s := by
  refine guards_call hs fun s₁ answers _ hw hs₁ => ?_
  rcases s₁.statOpen_cases w.objects d (answers (.statOpen d)) with
    hidle | ⟨e, hstep⟩ | ⟨snapshot, x, hx, hobject, hkind, hstep⟩
  · exact Or.inl hidle
  · exact Or.inr ⟨_, _, hstep, herror s₁ e hw.toLooks hs₁⟩
  · rw [hw.handle_eq] at hx
    have hseen : Looks w.respectful s { s₁ with seen := some (x, snapshot) } :=
      hw.toLooks.trans (looks_seen _)
    exact Or.inr ⟨_, _, hstep, hok _ snapshot x hseen (hs.looks hseen) hx rfl hobject hkind⟩

theorem guards_fileMetadata {f : Except IoError PlannedSnapshot → Executor α} (hs : w.Safe s)
    (herror : ∀ s₁ e, Looks w.respectful s s₁ → w.Safe s₁ → w.guards Q (f (.error e)) s₁)
    (hok : ∀ s₁ snapshot x, Looks w.respectful s s₁ → w.Safe s₁ → s.handles d = some x →
      w.objects.isObject x snapshot.identity = true → w.guards Q (f (.ok snapshot)) s₁) :
    w.guards Q (fileMetadata d >>= f) s := by
  refine guards_call hs fun s₁ answers _ hw hs₁ => ?_
  rcases s₁.statOpen_cases w.objects d (answers (.fileMetadata d)) with
    hidle | ⟨e, hstep⟩ | ⟨snapshot, x, hx, hobject, -, hstep⟩
  · exact Or.inl hidle
  · exact Or.inr ⟨_, _, hstep, herror s₁ e hw.toLooks hs₁⟩
  · rw [hw.handle_eq] at hx
    have hseen : Looks w.respectful s { s₁ with seen := some (x, snapshot) } :=
      hw.toLooks.trans (looks_seen _)
    exact Or.inr ⟨_, _, hstep, hok _ snapshot x hseen (hs.looks hseen) hx hobject⟩

/-! ## Opening -/

theorem SharedState.opens_cases {ε : Type} (s : SharedState) (x : Option FileId)
    (asked : Except ε Handle) :
    s.opens x asked = (s, none) ∨ (∃ e, s.opens x asked = (s, some (.error e))) ∨
      ∃ h y, x = some y ∧ s.handles h = none ∧ s.opens x asked =
        ({ s with handles := Function.update s.handles h (some y) }, some (.ok h)) := by
  cases asked with
  | error e => exact Or.inr (Or.inl ⟨e, rfl⟩)
  | ok h =>
    unfold SharedState.opens
    dsimp only
    split
    · rename_i y hfree
      exact Or.inr (Or.inr ⟨h, y, rfl, hfree, rfl⟩)
    · exact Or.inl rfl

/-- A call that opens an object. -/
theorem guards_opens {ε : Type} {f : Except ε Handle → Executor α} (hs : w.Safe s)
    {x : SharedState → Option FileId}
    (herror : ∀ s₁ e, Looks w.respectful s s₁ → w.Safe s₁ → w.guards Q (f (.error e)) s₁)
    (hok : ∀ s₁ h y, Looks w.respectful s s₁ → w.Safe s₁ → x s₁ = some y →
      s₁.handles h = some y → w.guards Q (f (.ok h)) s₁)
    (hx : ∀ s h y, s.handles h = none → x s = some y →
      x { s with handles := Function.update s.handles h (some y) } = some y)
    (s₁ : SharedState) (hw : Waits w.respectful s s₁) (asked : Except ε Handle) :
    s₁.opens (x s₁) asked = (s₁, none) ∨ ∃ s' answer, s₁.opens (x s₁) asked = (s', some answer) ∧
      w.guards Q (f answer) s' := by
  rcases s₁.opens_cases (x s₁) asked with hidle | ⟨e, hstep⟩ | ⟨h, y, hy, hfree, hstep⟩
  · exact Or.inl hidle
  · exact Or.inr ⟨_, _, hstep, herror s₁ e hw.toLooks (hs.looks hw.toLooks)⟩
  · have hopened : Looks w.respectful s
        { s₁ with handles := Function.update s₁.handles h (some y) } :=
      hw.toLooks.trans (looks_handle hfree)
    refine Or.inr ⟨_, _, hstep, hok _ h y hopened (hs.looks hopened) (hx s₁ h y hfree hy) ?_⟩
    exact Function.update_self ..

theorem SharedState.holds_update {h : Handle} {x y : FileId} (hfree : s.handles h = none)
    (hd : s.holds d n = some y) :
    ({ s with handles := Function.update s.handles h (some x) } : SharedState).holds d n =
      some y := by
  obtain ⟨folder, hfolder, hname⟩ := SharedState.holds_eq_some hd
  have hkept := handles_update (x := x) hfree hfolder
  unfold SharedState.holds SharedState.place
  dsimp only
  rw [hkept]
  exact hname

theorem guards_openDirNofollow {f : Except IoError Handle → Executor α} (hs : w.Safe s)
    (herror : ∀ s₁ e, Looks w.respectful s s₁ → w.Safe s₁ → w.guards Q (f (.error e)) s₁)
    (hok : ∀ s₁ h y, Looks w.respectful s s₁ → w.Safe s₁ → s₁.holds d n = some y →
      s₁.handles h = some y → w.guards Q (f (.ok h)) s₁) :
    w.guards Q (openDirNofollow d n >>= f) s :=
  guards_call hs fun s₁ answers _ hw _ => guards_opens hs herror hok
    (fun _ _ _ hfree hd => SharedState.holds_update hfree hd) s₁ hw
    (answers (.openDirNofollow d n))

theorem guards_cloneRoot {root : Handle} {f : Except IoError Handle → Executor α} (hs : w.Safe s)
    (herror : ∀ s₁ e, Looks w.respectful s s₁ → w.Safe s₁ → w.guards Q (f (.error e)) s₁)
    (hok : ∀ s₁ h y, Looks w.respectful s s₁ → w.Safe s₁ → s₁.handles root = some y →
      s₁.handles h = some y → w.guards Q (f (.ok h)) s₁) :
    w.guards Q (cloneRoot root >>= f) s :=
  guards_call hs fun s₁ answers _ hw _ => guards_opens (x := fun s => s.handles root) hs herror hok
    (fun _ _ _ hfree hd => handles_update hfree hd) s₁ hw (answers (.cloneRoot root))

theorem guards_openRoot {f : Except DeletionPlanError Handle → Executor α} (hs : w.Safe s)
    (herror : ∀ s₁ e, Looks w.respectful s s₁ → w.Safe s₁ → w.guards Q (f (.error e)) s₁)
    (hok : ∀ s₁ h, Looks w.respectful s s₁ → w.Safe s₁ → w.guards Q (f (.ok h)) s₁) :
    w.guards Q (openRoot >>= f) s :=
  guards_call hs fun s₁ answers _ hw _ => guards_opens (x := fun _ => some w.root) hs herror
    (fun s₁ h _ hl hs₁ _ _ => hok s₁ h hl hs₁) (fun _ _ _ _ h => h) s₁ hw (answers .openRoot)

/-! ## Changing names -/

theorem SharedState.place_eq_some {p : FolderName} (h : s.place d n = some p) :
    ∃ folder, s.handles d = some folder ∧ p = (folder, n) := by
  unfold SharedState.place at h
  cases hd : s.handles d with
  | none =>
    rw [hd] at h
    cases h
  | some folder =>
    rw [hd] at h
    exact ⟨folder, rfl, (Option.some.inj h).symm⟩

/-- A private name of the executor in an open folder. -/
def PrivateName (s : SharedState) (d : Handle) (n : OsString) : Prop :=
  ∃ folder, s.handles d = some folder ∧ (folder, n) ∈ s.privates

/-- The snapshot of a placeholder that the executor made. -/
def Ours (objects : ObjectTable) (s : SharedState) (placeholder : PlannedSnapshot) : Prop :=
  ∃ o ∈ s.placeholders, objects.isObject o placeholder.identity = true

theorem PrivateName.onward {s s' : SharedState} (h : PrivateName s d n) (hs : Onward s s') :
    PrivateName s' d n := by
  obtain ⟨folder, hfolder, hprivate⟩ := h
  exact ⟨folder, hs.handles d folder hfolder, hs.privates _ hprivate⟩

theorem Ours.onward {objects : ObjectTable} {s s' : SharedState} {placeholder : PlannedSnapshot}
    (h : Ours objects s placeholder) (hs : Onward s s') : Ours objects s' placeholder := by
  obtain ⟨o, ho, hobject⟩ := h
  exact ⟨o, hs.placeholders o ho, hobject⟩

/-- The file a placeholder is made of is new, and so is its name. -/
theorem onward_created {p : FolderName} {h : Handle} {x : FileId} (hfree : s.handles h = none)
    (hx : x ∉ s.table.used) :
    Onward s
      { s with
        table := s.table.create p x
        handles := Function.update s.handles h (some x)
        privates := p :: s.privates
        placeholders := x :: s.placeholders } where
  handles _ _ hk := handles_update hfree hk
  privates _ hq := List.mem_cons_of_mem _ hq
  placeholders _ hx := List.mem_cons_of_mem _ hx
  planned := rfl
  used _ hy := List.mem_cons_of_mem _ hy
  unlinked _ hy := hy
  named y hy := by
    rcases hy.of_create with rfl | hnamed
    · exact Or.inr hx
    · exact Or.inl hnamed

theorem guards_createNew {f : Except IoError Handle → Executor α} (hs : w.Safe s)
    (herror : ∀ s₁ e, Looks w.respectful s s₁ → w.Safe s₁ → w.guards Q (f (.error e)) s₁)
    (hok : ∀ s₁ h x, Cleans s s₁ → w.Safe s₁ → PrivateName s₁ d n → x ∈ s₁.placeholders →
      s₁.handles h = some x → w.guards Q (f (.ok h)) s₁) :
    w.guards Q (createNew d n >>= f) s := by
  refine guards_call hs fun s₁ answers fresh hw hs₁ => ?_
  show s₁.creates fresh d n (answers (.createNew d n)) = _ ∨
    ∃ s' answer, s₁.creates fresh d n (answers (.createNew d n)) = _ ∧ _
  cases answers (.createNew d n) with
  | error e => exact Or.inr ⟨_, _, rfl, herror s₁ e hw.toLooks hs₁⟩
  | ok h =>
    unfold SharedState.creates
    dsimp only
    split
    · rename_i p hplace hfree
      split
      · rename_i hnew
        obtain ⟨folder, hfolder, rfl⟩ := SharedState.place_eq_some hplace
        have hcreated := onward_created (p := (folder, n)) hfree hnew.2
        have hcleans : Cleans s₁
            { s₁ with
              table := s₁.table.create (folder, n) fresh
              handles := Function.update s₁.handles h (some fresh)
              privates := (folder, n) :: s₁.privates
              placeholders := fresh :: s₁.placeholders } :=
          ⟨hcreated, [], (List.append_nil _).symm, fun _ hr => nomatch hr⟩
        refine Or.inr ⟨_, _, rfl, hok _ h fresh (hw.toLooks.cleans.trans hcleans)
          (hs₁.of_removals rfl hcreated.placeholders) ?_ List.mem_cons_self ?_⟩
        · exact ⟨folder, handles_update hfree hfolder, List.mem_cons_self⟩
        · exact Function.update_self ..
      · exact Or.inl rfl
    · exact Or.inl rfl

theorem SharedState.changes_cases (changed : Option SharedState) (asked : Option IoError) :
    s.changes changed asked = (s, none) ∨
      (∃ s', changed = some s' ∧ s.changes changed asked = (s', some none)) ∨
      ∃ e, s.changes changed asked = (s, some (some e)) := by
  cases asked with
  | some e => exact Or.inr (Or.inr ⟨e, rfl⟩)
  | none =>
    cases changed with
    | none => exact Or.inl rfl
    | some s' => exact Or.inr (Or.inl ⟨s', rfl, rfl⟩)

theorem guards_exchange {f : Option IoError → Executor α} (hs : w.Safe s)
    (herror : ∀ s₁ e, Looks w.respectful s s₁ → w.Safe s₁ → w.guards Q (f (some e)) s₁)
    (hok : ∀ s₁, Cleans s s₁ → w.Safe s₁ → w.guards Q (f none) s₁) :
    w.guards Q (exchange d a b >>= f) s := by
  refine guards_call hs fun s₁ answers _ hw hs₁ => ?_
  rcases s₁.changes_cases (s₁.exchanged d a b) (answers (.exchange d a b)) with
    hidle | ⟨s', hchanged, hstep⟩ | ⟨e, hstep⟩
  · exact Or.inl hidle
  · obtain ⟨p, -, hchanged⟩ := Option.bind_eq_some_iff.mp hchanged
    obtain ⟨q, -, hchanged⟩ := Option.bind_eq_some_iff.mp hchanged
    obtain ⟨t, ht, rfl⟩ := Option.map_eq_some_iff.mp hchanged
    obtain ⟨-, -, -, -, hused, -⟩ := LinkTable.names_exchange ht
    have hexchanged : Cleans s₁ { s₁ with table := t } :=
      ⟨⟨fun _ _ h => h, fun _ h => h, fun _ h => h, rfl, fun _ h => hused ▸ h, fun _ h => h,
        fun x hx => Or.inl ((LinkTable.named_exchange ht).mp hx)⟩, [], (List.append_nil _).symm,
        fun _ hr => nomatch hr⟩
    exact Or.inr ⟨_, _, hstep, hok _ (hw.toLooks.cleans.trans hexchanged)
      (hs₁.of_removals rfl fun _ h => h)⟩
  · exact Or.inr ⟨_, _, hstep, herror s₁ e hw.toLooks hs₁⟩

theorem guards_renameNoreplace {f : Option IoError → Executor α} (hs : w.Safe s)
    (herror : ∀ s₁ e, Looks w.respectful s s₁ → w.Safe s₁ → w.guards Q (f (some e)) s₁)
    (hok : ∀ s₁, Cleans s s₁ → w.Safe s₁ → PrivateName s₁ d b → w.guards Q (f none) s₁) :
    w.guards Q (renameNoreplace d a b >>= f) s := by
  refine guards_call hs fun s₁ answers _ hw hs₁ => ?_
  rcases s₁.changes_cases (s₁.renamed d a b) (answers (.renameNoreplace d a b)) with
    hidle | ⟨s', hchanged, hstep⟩ | ⟨e, hstep⟩
  · exact Or.inl hidle
  · obtain ⟨p, -, hchanged⟩ := Option.bind_eq_some_iff.mp hchanged
    obtain ⟨q, hq, hchanged⟩ := Option.bind_eq_some_iff.mp hchanged
    obtain ⟨t, ht, rfl⟩ := Option.map_eq_some_iff.mp hchanged
    obtain ⟨folder, hfolder, rfl⟩ := SharedState.place_eq_some hq
    obtain ⟨-, -, -, hused, -⟩ := LinkTable.names_rename ht
    have hrenamed : Cleans s₁ { s₁ with table := t, privates := (folder, b) :: s₁.privates } :=
      ⟨⟨fun _ _ h => h, fun _ h => List.mem_cons_of_mem _ h, fun _ h => h, rfl,
        fun _ h => hused ▸ h, fun _ h => h,
        fun x hx => Or.inl ((LinkTable.named_rename ht).mp hx)⟩, [],
        (List.append_nil _).symm, fun _ hr => nomatch hr⟩
    exact Or.inr ⟨_, _, hstep, hok _ (hw.toLooks.cleans.trans hrenamed)
      (hs₁.of_removals rfl fun _ h => h) ⟨folder, hfolder, List.mem_cons_self⟩⟩
  · exact Or.inr ⟨_, _, hstep, herror s₁ e hw.toLooks hs₁⟩

/-- What a removal leaves of the state. -/
def SharedState.without (s : SharedState) (placeholder : Bool) (p : FolderName) (x : FileId) :
    SharedState :=
  { s with
    table := s.table.clear p
    removals := s.removals ++ [⟨x, placeholder, s.planned, s.seen, (s.table.clear p).links x⟩] }

theorem onward_without (s : SharedState) (placeholder : Bool) (p : FolderName) (x : FileId) :
    Onward s (s.without placeholder p x) :=
  ⟨fun _ _ h => h, fun _ h => h, fun _ h => h, rfl, fun _ h => h, fun _ h => h,
    fun _ h => Or.inl h.of_clear⟩

theorem Setting.Safe.without (hs : w.Safe s) {placeholder : Bool} {p : FolderName} {x : FileId}
    (h : w.respectful = true → (⟨x, placeholder, s.planned, s.seen,
      (s.table.clear p).links x⟩ : Removal).Allowed w.objects w.plan s.placeholders) :
    w.Safe (s.without placeholder p x) := by
  intro hrespect r hr
  rcases List.mem_append.mp hr with hold | hnew
  · exact hs hrespect r hold
  · obtain rfl := List.mem_singleton.mp hnew
    exact h hrespect

/-- A call that removes what a name holds. -/
theorem guards_removes {f : Option IoError → Executor α} {placeholder : Bool}
    (herror : ∀ s₁ e, Waits w.respectful s s₁ → w.Safe s₁ → w.guards Q (f (some e)) s₁)
    (hok : ∀ s₁ folder x, Waits w.respectful s s₁ → w.Safe s₁ → s₁.handles d = some folder →
      s₁.table.names (folder, n) = some x →
      w.guards Q (f none) (s₁.without placeholder (folder, n) x))
    (s₁ : SharedState) (hw : Waits w.respectful s s₁) (hs₁ : w.Safe s₁) (asked : Option IoError) :
    s₁.changes (s₁.removes placeholder d n) asked = (s₁, none) ∨
      ∃ s' answer, s₁.changes (s₁.removes placeholder d n) asked = (s', some answer) ∧
        w.guards Q (f answer) s' := by
  rcases s₁.changes_cases (s₁.removes placeholder d n) asked with
    hidle | ⟨s', hchanged, hstep⟩ | ⟨e, hstep⟩
  · exact Or.inl hidle
  · obtain ⟨p, hp, hchanged⟩ := Option.bind_eq_some_iff.mp hchanged
    obtain ⟨x, hx, rfl⟩ := Option.map_eq_some_iff.mp hchanged
    obtain ⟨folder, hfolder, rfl⟩ := SharedState.place_eq_some hp
    exact Or.inr ⟨_, _, hstep, hok s₁ folder x hw hs₁ hfolder hx⟩
  · exact Or.inr ⟨_, _, hstep, herror s₁ e hw hs₁⟩

theorem guards_removePlaceholder {f : Option IoError → Executor α} (hs : w.Safe s)
    (herror : ∀ s₁ e, Waits w.respectful s s₁ → w.Safe s₁ → w.guards Q (f (some e)) s₁)
    (hok : ∀ s₁ folder x, Waits w.respectful s s₁ → w.Safe s₁ → s₁.handles d = some folder →
      s₁.table.names (folder, n) = some x →
      w.guards Q (f none) (s₁.without true (folder, n) x)) :
    w.guards Q (removePlaceholder d n >>= f) s :=
  guards_call hs fun s₁ answers _ hw hs₁ =>
    guards_removes herror hok s₁ hw hs₁ (answers (.removePlaceholder d n))

theorem guards_removeTarget {at' : Detached} {kind : PlannedKind} {f : Option IoError → Executor α}
    (hs : w.Safe s)
    (herror : ∀ s₁ e, Waits w.respectful s s₁ → w.Safe s₁ → w.guards Q (f (some e)) s₁)
    (hok : ∀ s₁ folder x, Waits w.respectful s s₁ → w.Safe s₁ →
      s₁.handles at'.parent = some folder → s₁.table.names (folder, at'.detached) = some x →
      w.guards Q (f none) (s₁.without false (folder, at'.detached) x)) :
    w.guards Q (removeTarget at' kind >>= f) s := by
  have hcall (s₁ : SharedState) (hw : Waits w.respectful s s₁) (hs₁ : w.Safe s₁)
      (asked : Option IoError) := guards_removes herror hok s₁ hw hs₁ asked
  cases kind with
  | Directory =>
    exact guards_call hs fun s₁ answers _ hw hs₁ => hcall s₁ hw hs₁ (answers (.removeDir _ _))
  | File =>
    exact guards_call hs fun s₁ answers _ hw hs₁ => hcall s₁ hw hs₁ (answers (.removeFile _ _))
  | Link =>
    exact guards_call hs fun s₁ answers _ hw hs₁ => hcall s₁ hw hs₁ (answers (.removeFile _ _))

/-! ## Counting links -/

theorem guards_openReference {expected : NativeIdentity} {f : Option Handle → Executor α}
    (hs : w.Safe s)
    (hnone : ∀ s₁, Waits w.respectful s s₁ → w.Safe s₁ → w.guards Q (f none) s₁)
    (hsome : ∀ s₁ h x, Looks w.respectful s s₁ → w.Safe s₁ → s₁.seen = s.seen →
      s₁.handles h = some x → s₁.holds d n = some x → w.objects.isObject x expected = true →
      w.guards Q (f (some h)) s₁) :
    w.guards Q (openReference d n expected >>= f) s := by
  refine guards_call hs fun s₁ answers _ hw hs₁ => ?_
  show s₁.refers w.objects d n expected (answers (.openReference d n expected)) = _ ∨
    ∃ s' answer, s₁.refers w.objects d n expected (answers (.openReference d n expected)) = _ ∧ _
  cases answers (.openReference d n expected) with
  | none => exact Or.inr ⟨_, _, rfl, hnone s₁ hw hs₁⟩
  | some h =>
    unfold SharedState.refers
    dsimp only
    split
    · rename_i x hx hfree
      split
      · rename_i hobject
        have hopened : Looks w.respectful s
            { s₁ with handles := Function.update s₁.handles h (some x) } :=
          hw.toLooks.trans (looks_handle hfree)
        exact Or.inr ⟨_, _, rfl, hsome _ h x hopened (hs.looks hopened) hw.seen
          (Function.update_self ..) (SharedState.holds_update hfree hx) hobject⟩
      · exact Or.inl rfl
    · exact Or.inl rfl

/-- A count is the object's own. -/
theorem guards_referenceLinks {h : Handle} {f : Option Nat → Executor α} (hs : w.Safe s)
    (hask : ∀ s₁ links, Waits w.respectful s s₁ → w.Safe s₁ →
      (links = some 0 → ∃ x, s.handles h = some x ∧ (x ∈ s.table.used → s₁.Gone x)) →
      w.guards Q (f links) s₁) : w.guards Q (referenceLinks h >>= f) s := by
  refine guards_call hs fun s₁ answers _ hw hs₁ => ?_
  show s₁.countsLinks h (answers (.referenceLinks h)) = _ ∨
    ∃ s' answer, s₁.countsLinks h (answers (.referenceLinks h)) = _ ∧ _
  cases answers (.referenceLinks h) with
  | none => exact Or.inr ⟨_, _, rfl, hask s₁ none hw hs₁ fun h => nomatch h⟩
  | some n =>
    unfold SharedState.countsLinks
    dsimp only
    split
    · rename_i x hx
      rw [hw.handle_eq] at hx
      split
      · rename_i hcount
        have hnoted : Waits w.respectful s₁ (s₁.notesUnlinked x) := waits_notesUnlinked s₁ x
        refine Or.inr ⟨_, _, rfl, hask _ (some n) (hw.trans hnoted) (hs₁.looks hnoted.toLooks)
          fun hzero => ⟨x, hx, fun hknown => ?_⟩⟩
        have hnone : s₁.table.links x = 0 := hcount.symm.trans (Option.some.inj hzero)
        have hused : x ∈ s₁.table.used := hw.used x hknown
        unfold SharedState.notesUnlinked
        rw [if_pos ⟨hnone, hused⟩]
        exact ⟨List.mem_cons_self, hused, LinkTable.links_eq_zero.mp hnone⟩
      · exact Or.inl rfl
    · exact Or.inl rfl

end

/-! ## Parts of the executor -/

/-- The last look was at what a name holds; a private name holds it still. -/
structure Saw (w : Setting) (s' : SharedState) (d : Handle) (n : OsString)
    (snapshot : PlannedSnapshot) (x : FileId) : Prop where
  seen : s'.seen = some (x, snapshot)
  object : w.objects.isObject x snapshot.identity = true
  kind : snapshot.kind = w.objects.kind x
  held : w.respectful = true → PrivateName s' d n →
    ∀ folder, s'.handles d = some folder → s'.table.names (folder, n) = some x

section
variable {w : Setting} {s s' : SharedState} {d : Handle} {original detached n : OsString}
  {placeholder snapshot : PlannedSnapshot} {x : FileId}

open Executor

theorem Looks.held (h : Looks w.respectful s s') (hrespect : w.respectful = true)
    (hx : s.holds d n = some x) (hn : PrivateName s' d n) (folder : FileId)
    (hd : s'.handles d = some folder) : s'.table.names (folder, n) = some x := by
  obtain ⟨folder', hfolder', hname⟩ := SharedState.holds_eq_some hx
  obtain rfl := Option.some.inj ((h.handles d folder' hfolder').symm.trans hd)
  obtain ⟨folder, hfolder, hprivate⟩ := hn
  obtain rfl := Option.some.inj (hfolder.symm.trans hd)
  rw [h.private_eq] at hprivate
  exact (h.kept hrespect _ hprivate).trans hname

theorem Saw.waits (h : Saw w s d n snapshot x) (hw : Waits w.respectful s s') :
    Saw w s' d n snapshot x := by
  refine ⟨hw.seen.trans h.seen, h.object, h.kind, ?_⟩
  rintro hrespect ⟨folder', hfolder', hprivate⟩ folder hfolder
  obtain rfl := Option.some.inj (hfolder'.symm.trans hfolder)
  rw [hw.handle_eq] at hfolder
  rw [hw.private_eq] at hprivate
  exact (hw.kept hrespect _ hprivate).trans
    (h.held hrespect ⟨folder', hfolder, hprivate⟩ folder' hfolder)

variable (host : Host)

theorem guards_inspectChild (path : NativePath) (hs : w.Safe s) :
    w.guards (fun out s' => Looks w.respectful s s' ∧
        ∀ snapshot, out = .ok snapshot → ∃ x, Saw w s' d n snapshot x)
      (inspectChild host d n path) s := by
  have hfailed (e : DeletionPlanError) (s₁ : SharedState) (hl : Looks w.respectful s s₁)
      (hs₁ : w.Safe s₁) :
      w.guards (fun out s' => Looks w.respectful s s' ∧
          ∀ snapshot, out = .ok snapshot → ∃ x, Saw w s' d n snapshot x)
        (pure (.error e) : Executor (Except DeletionPlanError PlannedSnapshot)) s₁ :=
    guards_return hs₁ fun _ hw => ⟨hl.trans hw.toLooks, fun _ h => nomatch h⟩
  unfold inspectChild
  refine guards_statAt hs (fun s₁ answer hl hs₁ hanswer => ?_)
    fun s₁ snapshot x hl hs₁ hx hseen hobject hkind => ?_
  · rcases answer with e | (message | snapshot)
    · exact hfailed _ s₁ hl hs₁
    · exact hfailed _ s₁ hl hs₁
    · exact absurd rfl (hanswer snapshot)
  · dsimp only
    split
    · refine guards_openDirNofollow hs₁ (fun s₂ e hl₂ hs₂ => hfailed _ s₂ (hl.trans hl₂) hs₂)
        fun s₂ folder y hl₂ hs₂ hy hhandle => ?_
      refine guards_statOpen hs₂
        (fun s₃ e hl₃ hs₃ => hfailed _ s₃ ((hl.trans hl₂).trans hl₃) hs₃)
        fun s₃ snapshot z hl₃ hs₃ hz hseen hobject hkind => ?_
      obtain rfl := Option.some.inj (hhandle.symm.trans hz)
      refine guards_return hs₃ fun s₄ hw => ⟨((hl.trans hl₂).trans hl₃).trans hw.toLooks, ?_⟩
      intro snapshot' heq
      obtain rfl := Except.ok.inj heq
      have hsaw : Saw w s₃ d n snapshot y :=
        ⟨hseen, hobject, hkind, fun hrespect hn => hl₃.held hrespect hy hn⟩
      exact ⟨y, hsaw.waits hw⟩
    · refine guards_return hs₁ fun s₂ hw => ⟨hl.trans hw.toLooks, ?_⟩
      intro snapshot' heq
      obtain rfl := Except.ok.inj heq
      have hsaw : Saw w s₁ d n snapshot x :=
        ⟨hseen, hobject, hkind, fun hrespect hn => (Looks.refl s₁).held hrespect hx hn⟩
      exact ⟨x, hsaw.waits hw⟩

theorem object_unique {objects : ObjectTable} {x y : FileId} {identity : NativeIdentity}
    (hx : objects.isObject x identity = true) (hy : objects.isObject y identity = true) :
    x = y := by
  have hx := of_decide_eq_true (Bool.and_eq_true_iff.mp hx).1
  have hy := of_decide_eq_true (Bool.and_eq_true_iff.mp hy).1
  exact hx.symm.trans hy

/-- Under a private name only the placeholder is removed. -/
theorem guards_removeVerifiedPlaceholder (hs : w.Safe s) (hn : PrivateName s d n)
    (ho : Ours w.objects s placeholder) :
    w.guards (fun _ s' => Cleans s s') (removeVerifiedPlaceholder host d n placeholder) s := by
  unfold removeVerifiedPlaceholder
  refine World.wp_seq (guards_inspectChild host _ hs) ?_
  rintro read s₁ hs₁ ⟨hl, hread⟩
  have hkeep (e : IoError) (s₂ : SharedState) (hs₂ : w.Safe s₂) (hl₂ : Looks w.respectful s s₂) :
      w.guards (fun _ s' => Cleans s s') (pure (some e) : Executor (Option IoError)) s₂ :=
    guards_return hs₂ fun _ hw => (hl₂.trans hw.toLooks).cleans
  cases read with
  | error e => exact hkeep _ s₁ hs₁ hl
  | ok actual =>
    dsimp only
    split
    · exact hkeep _ s₁ hs₁ hl
    · rename_i hsame
      obtain ⟨x, hsaw⟩ := hread actual rfl
      have hremove : w.guards (fun _ s' => Cleans s s') (removePlaceholder d n >>= pure) s₁ := by
        refine guards_removePlaceholder hs₁
          (fun s₂ e hw hs₂ => hkeep e s₂ hs₂ (hl.trans hw.toLooks)) ?_
        intro s₂ folder y hw hs₂ hfolder hy
        have hl₂ := hl.trans hw.toLooks
        have hsafe : w.Safe (s₂.without true (folder, n) y) := by
          refine hs₂.without fun hrespect => Or.inl ?_
          obtain ⟨o, ho, hobject⟩ := ho.onward hl₂.toOnward
          have hheld := (hsaw.waits hw).held hrespect (hn.onward hl₂.toOnward) folder hfolder
          obtain rfl := Option.some.inj (hy.symm.trans hheld)
          have hactual : actual = placeholder := not_not.mp hsame
          rw [← hactual] at hobject
          rw [object_unique hsaw.object hobject]
          exact ho
        refine guards_return hsafe fun s₃ hw₃ => ?_
        have hremoved : Cleans s₂ (s₂.without true (folder, n) y) :=
          ⟨onward_without s₂ true (folder, n) y, _, rfl, fun r hr => by
            rw [List.mem_singleton.mp hr]⟩
        exact (hl₂.cleans.trans hremoved).trans hw₃.toLooks.cleans
      exact hremove

theorem guards_originalHoldsPlaceholder (hs : w.Safe s) :
    w.guards (fun _ s' => Looks w.respectful s s')
      (originalHoldsPlaceholder host d original placeholder) s := by
  unfold originalHoldsPlaceholder
  refine World.wp_seq (guards_inspectChild host _ hs) ?_
  rintro read s₁ hs₁ ⟨hl, -⟩
  cases read with
  | error e => exact guards_return hs₁ fun _ hw => hl.trans hw.toLooks
  | ok actual =>
    dsimp only
    split
    · exact guards_return hs₁ fun _ hw => hl.trans hw.toLooks
    · exact guards_return hs₁ fun _ hw => hl.trans hw.toLooks

theorem guards_restoreDetached (hs : w.Safe s) (hn : PrivateName s d detached)
    (ho : Ours w.objects s placeholder) :
    w.guards (fun _ s' => Cleans s s') (restoreDetached host d original detached placeholder)
      s := by
  unfold restoreDetached
  refine World.wp_seq (guards_originalHoldsPlaceholder host hs) ?_
  intro held s₁ hs₁ hl
  cases held with
  | some e => exact guards_return hs₁ fun _ hw => (hl.trans hw.toLooks).cleans
  | none =>
    refine guards_exchange hs₁ (fun s₂ e hl₂ hs₂ => ?_) fun s₂ hc₂ hs₂ => ?_
    · exact guards_return hs₂ fun _ hw => ((hl.trans hl₂).trans hw.toLooks).cleans
    · have honward := hl.toOnward.trans hc₂.toOnward
      refine (guards_removeVerifiedPlaceholder host hs₂ (hn.onward honward)
        (ho.onward honward)).mono ?_
      intro out s₃ hc₃
      exact (hl.cleans.trans hc₂).trans hc₃

theorem guards_finalizeFrom (attempts : Nat) :
    ∀ {name : OsString} {s : SharedState}, w.Safe s → Ours w.objects s placeholder →
      w.guards (fun _ s' => Cleans s s') (finalizeFrom host d original placeholder attempts name)
        s := by
  induction attempts with
  | zero =>
    intro name s hs _
    exact guards_return hs fun _ hw => hw.toLooks.cleans
  | succ attempts ih =>
    intro name s hs ho
    refine guards_renameNoreplace hs (fun s₁ e hl hs₁ => ?_) fun s₁ hc hs₁ hn => ?_
    · dsimp only
      split
      · refine guards_ask hs₁ (fun _ _ _ => rfl) fun s₂ drawn hw hs₂ => ?_
        have hl₂ := hl.trans hw.toLooks
        cases drawn with
        | error e => exact guards_return hs₂ fun _ hw₃ => (hl₂.trans hw₃.toLooks).cleans
        | ok fresh =>
          refine (ih hs₂ (ho.onward hl₂.toOnward)).mono ?_
          intro out s₃ hc₃
          exact hl₂.cleans.trans hc₃
      · exact guards_return hs₁ fun _ hw => (hl.trans hw.toLooks).cleans
    · refine (guards_removeVerifiedPlaceholder host hs₁ hn (ho.onward hc.toOnward)).mono ?_
      intro out s₂ hc₂
      exact hc.trans hc₂

theorem guards_finalizePlaceholder (hs : w.Safe s) (ho : Ours w.objects s placeholder) :
    w.guards (fun _ s' => Cleans s s') (finalizePlaceholder host d original detached placeholder)
      s := by
  unfold finalizePlaceholder
  refine World.wp_seq (guards_originalHoldsPlaceholder host hs) ?_
  intro held s₁ hs₁ hl
  cases held with
  | some e => exact guards_return hs₁ fun _ hw => (hl.trans hw.toLooks).cleans
  | none =>
    refine (guards_finalizeFrom host placeholderNameAttempts hs₁ (ho.onward hl.toOnward)).mono ?_
    intro out s₂ hc₂
    exact hl.cleans.trans hc₂

theorem guards_createPlaceholder (attempts : Nat) :
    ∀ {s : SharedState}, w.Safe s →
      w.guards (fun out s' => Cleans s s' ∧ ∀ name snapshot, out = .ok (name, snapshot) →
          PrivateName s' d name ∧ Ours w.objects s' snapshot)
        (createPlaceholder d attempts) s := by
  induction attempts with
  | zero =>
    intro s hs
    exact guards_return hs fun _ hw => ⟨hw.toLooks.cleans, fun _ _ h => nomatch h⟩
  | succ attempts ih =>
    intro s hs
    refine guards_ask hs (fun _ _ _ => rfl) fun s₁ drawn hw hs₁ => ?_
    cases drawn with
    | error e =>
      exact guards_return hs₁ fun _ hw₂ =>
        ⟨(hw.trans hw₂).toLooks.cleans, fun _ _ h => nomatch h⟩
    | ok name =>
      refine guards_createNew hs₁ (fun s₂ e hl hs₂ => ?_) fun s₂ h o hc hs₂ hn ho hh => ?_
      · have hl₂ := hw.toLooks.trans hl
        dsimp only
        split
        · refine (ih hs₂).mono ?_
          rintro out s₃ ⟨hc, hout⟩
          exact ⟨hl₂.cleans.trans hc, hout⟩
        · exact guards_return hs₂ fun _ hw₃ =>
            ⟨(hl₂.trans hw₃.toLooks).cleans, fun _ _ h => nomatch h⟩
      · have hc₂ := hw.toLooks.cleans.trans hc
        refine guards_fileMetadata hs₂ (fun s₃ e hl hs₃ => ?_)
          fun s₃ snapshot x hl hs₃ hx hobject => ?_
        · exact guards_return hs₃ fun _ hw₄ =>
            ⟨hc₂.trans (hl.trans hw₄.toLooks).cleans, fun _ _ h => nomatch h⟩
        · refine guards_return hs₃ fun s₄ hw₄ => ?_
          have hl₄ := hl.trans hw₄.toLooks
          refine ⟨hc₂.trans hl₄.cleans, fun name' snapshot' heq => ?_⟩
          obtain ⟨rfl, rfl⟩ := Prod.mk.inj (Except.ok.inj heq)
          obtain rfl := Option.some.inj (hh.symm.trans hx)
          exact ⟨hn.onward hl₄.toOnward, o, hl₄.placeholders o ho, hobject⟩

end

/-! ## One entry -/

section
open Executor

/-- What may have a name at some time after this state. -/
def SharedState.Alive (s : SharedState) (x : FileId) : Prop := s.table.Named x ∨ x ∉ s.table.used

/-- The targets removed on the way are of this kind. -/
structure Removes (P : Removal → Prop) (s s' : SharedState) : Prop extends Onward s s' where
  removals : ∃ rs, s'.removals = s.removals ++ rs ∧ ∀ r ∈ rs, r.placeholder = false → P r

/-- How an executed entry leaves the objects: which target was removed, and when no link is left. -/
structure Concludes (w : Setting) (base : SharedState) (entry : PlannedEntry) (x : Executed)
    (s' : SharedState) : Prop where
  removes : Removes (fun r => r.planned = some entry ∧ x.outcome ≠ .Unattempted ∧
    (entry.snapshot.kind.isFileOrLink = true → x.isolation.noLinkSurvived = true →
      w.respectful = true → r.object ∈ s'.table.used ∧ ¬s'.table.Named r.object)) base s'
  entry_eq : withLinkCount x.entry none = withLinkCount entry none
  freed : x.isolation.noLinkSurvived = true → ∃ y,
    w.objects.isObject y entry.snapshot.identity = true ∧ base.Alive y ∧ s'.Gone y
  counted : x.outcome = .Deleted → entry.snapshot.kind.isFileOrLink = true →
    x.isolation.noLinkSurvived = true ∨ x.entry.snapshot.identity.linkCount = none

/-- An entry that was found to be the planned one under its private name. -/
structure Inspected (w : Setting) (s : SharedState) (at' : Detached) (entry : PlannedEntry)
    (snapshot : PlannedSnapshot) (x : FileId) : Prop where
  planned : s.planned = some entry
  mem : entry ∈ w.plan.entries
  private_name : PrivateName s at'.parent at'.detached
  ours : Ours w.objects s at'.placeholder
  saw : Saw w s at'.parent at'.detached snapshot x
  unchanged : matchesForExecution entry.snapshot snapshot = true

/-- A reference is to the entry's object, which a private name still holds. -/
structure Refers (w : Setting) (base s : SharedState) (at' : Detached) (entry : PlannedEntry)
    (h : Handle) (y : FileId) : Prop where
  handle : s.handles h = some y
  object : w.objects.isObject y entry.snapshot.identity = true
  alive : base.Alive y
  known : y ∈ s.table.used
  held : w.respectful = true → PrivateName s at'.parent at'.detached →
    ∀ folder, s.handles at'.parent = some folder → s.table.names (folder, at'.detached) = some y

variable {w : Setting} {P : Removal → Prop} {base s s' s'' : SharedState}
  {entry : PlannedEntry} {x y : FileId} {at' : Detached} {snapshot : PlannedSnapshot}

theorem withLinkCount_twice (entry : PlannedEntry) (n m : Option Nat) :
    withLinkCount (withLinkCount entry n) m = withLinkCount entry m := rfl

theorem Removes.trans (h : Removes P s s') (h' : Removes P s' s'') : Removes P s s'' := by
  obtain ⟨rs, hrs, hP⟩ := h.removals
  obtain ⟨rs', hrs', hP'⟩ := h'.removals
  refine ⟨h.toOnward.trans h'.toOnward, rs ++ rs', ?_, fun r hr => ?_⟩
  · rw [hrs', hrs, List.append_assoc]
  · exact (List.mem_append.mp hr).elim (hP r) (hP' r)

theorem Cleans.removes (h : Cleans s s') : Removes P s s' := by
  obtain ⟨rs, hrs, hplaceholder⟩ := h.removals
  refine ⟨h.toOnward, rs, hrs, fun r hr hfalse => ?_⟩
  rw [hplaceholder r hr] at hfalse
  cases hfalse

theorem Cleans.concludes {e : Executed} (h : Cleans base s')
    (hentry : withLinkCount e.entry none = withLinkCount entry none)
    (houtcome : e.outcome ≠ .Deleted) (hlink : e.isolation.noLinkSurvived = false) :
    Concludes w base entry e s' := by
  refine ⟨h.removes, hentry, fun h => ?_, fun h => absurd h houtcome⟩
  rw [hlink] at h
  cases h

theorem SharedState.Alive.before (h : s.table.Named x) (hs : Onward base s) : base.Alive x :=
  hs.named x h

theorem object_of_matches {objects : ObjectTable} {expected actual : PlannedSnapshot}
    (h : matchesForExecution expected actual = true)
    (hx : objects.isObject x actual.identity = true) :
    objects.isObject x expected.identity = true ∧ expected.kind = actual.kind := by
  unfold matchesForExecution sameObject at h
  rw [Bool.and_eq_true, Bool.and_eq_true, Bool.and_eq_true, decide_eq_true_eq, decide_eq_true_eq,
    decide_eq_true_eq] at h
  obtain ⟨⟨⟨hfile, hreparse⟩, hkind⟩, -⟩ := h
  refine ⟨?_, hkind⟩
  unfold ObjectTable.isObject at hx ⊢
  rw [hfile, hreparse]
  exact hx

theorem Inspected.looks (h : Inspected w s at' entry snapshot x)
    (hl : Looks w.respectful s s') (hseen : s'.seen = s.seen) :
    Inspected w s' at' entry snapshot x := by
  refine ⟨hl.planned.trans h.planned, h.mem, h.private_name.onward hl.toOnward,
    h.ours.onward hl.toOnward, ⟨hseen.trans h.saw.seen, h.saw.object, h.saw.kind, ?_⟩, h.unchanged⟩
  intro hrespect _ folder hfolder
  obtain ⟨folder', hfolder', hprivate⟩ := h.private_name
  obtain rfl := Option.some.inj ((hl.handles _ _ hfolder').symm.trans hfolder)
  exact (hl.kept hrespect _ hprivate).trans
    (h.saw.held hrespect h.private_name folder' hfolder')

theorem Inspected.waits (h : Inspected w s at' entry snapshot x)
    (hw : Waits w.respectful s s') : Inspected w s' at' entry snapshot x :=
  h.looks hw.toLooks hw.seen

theorem Refers.waits {h : Handle} (hr : Refers w base s at' entry h y)
    (hw : Waits w.respectful s s') : Refers w base s' at' entry h y := by
  refine ⟨hw.toOnward.handles h y hr.handle, hr.object, hr.alive,
    hw.used y hr.known, ?_⟩
  rintro hrespect ⟨folder', hfolder', hprivate⟩ folder hfolder
  obtain rfl := Option.some.inj (hfolder'.symm.trans hfolder)
  rw [hw.handle_eq] at hfolder
  rw [hw.private_eq] at hprivate
  exact (hw.kept hrespect _ hprivate).trans
    (hr.held hrespect ⟨folder', hfolder, hprivate⟩ folder' hfolder)

/-- What is removed under the private name is the planned object as it was found. -/
theorem Inspected.allowed (h : Inspected w s at' entry snapshot x)
    (hrespect : w.respectful = true) {folder : FileId}
    (hfolder : s.handles at'.parent = some folder)
    (hy : s.table.names (folder, at'.detached) = some y) {placeholder : Bool} {links : Nat} :
    (⟨y, placeholder, s.planned, s.seen, links⟩ : Removal).Allowed w.objects w.plan
      s.placeholders := by
  obtain rfl := Option.some.inj
    (hy.symm.trans (h.saw.held hrespect h.private_name folder hfolder))
  obtain ⟨hobject, hkind⟩ := object_of_matches h.unchanged h.saw.object
  exact Or.inr ⟨entry, h.mem, snapshot, h.planned, h.saw.seen, h.unchanged, hobject,
    hkind.trans h.saw.kind⟩

variable (host : Host)

theorem guards_finalizeTo (hs : w.Safe s) (ho : Ours w.objects s at'.placeholder)
    (outcome : DeletionEntryOutcome) (failure : String) :
    w.guards (fun out s' => Cleans s s' ∧ (out = outcome ∨ ∃ detail, out = .Failed detail))
      (finalizeTo host at' outcome failure) s := by
  unfold finalizeTo
  refine World.wp_seq (guards_finalizePlaceholder host hs ho) ?_
  intro failed s₁ hs₁ hc
  cases failed with
  | none => exact guards_return hs₁ fun _ hw => ⟨hc.trans hw.toLooks.cleans, Or.inl rfl⟩
  | some e => exact guards_return hs₁ fun _ hw => ⟨hc.trans hw.toLooks.cleans, Or.inr ⟨_, rfl⟩⟩

theorem guards_restoreTo (hs : w.Safe s) (hn : PrivateName s at'.parent at'.detached)
    (ho : Ours w.objects s at'.placeholder) {restored : DeletionEntryOutcome}
    (hrestored : restored ≠ .Deleted) (failure : String) :
    w.guards (fun out s' => Cleans s s' ∧ out ≠ .Deleted) (restoreTo host at' restored failure)
      s := by
  unfold restoreTo
  refine World.wp_seq (guards_restoreDetached host hs hn ho) ?_
  intro failed s₁ hs₁ hc
  cases failed with
  | none => exact guards_return hs₁ fun _ hw => ⟨hc.trans hw.toLooks.cleans, hrestored⟩
  | some e => exact guards_return hs₁ fun _ hw => ⟨hc.trans hw.toLooks.cleans, by simp⟩

theorem guards_inspectionFailed (hs : w.Safe s) (hn : PrivateName s at'.parent at'.detached)
    (ho : Ours w.objects s at'.placeholder) (e : DeletionPlanError) :
    w.guards (fun out s' => Cleans s s' ∧ out ≠ .Deleted) (inspectionFailed host at' e) s := by
  unfold inspectionFailed
  split
  · refine (guards_finalizeTo host hs ho _ _).mono ?_
    rintro out s' ⟨hc, rfl | ⟨_, rfl⟩⟩
    · exact ⟨hc, by simp⟩
    · exact ⟨hc, by simp⟩
  · exact guards_restoreTo host hs hn ho (by simp) _

theorem guards_survivingLinks {reference : Option Handle} (hs : w.Safe s) :
    w.guards (fun links s' => Waits w.respectful s s' ∧ (links = some 0 →
        ∃ h y, reference = some h ∧ s.handles h = some y ∧ (y ∈ s.table.used → s'.Gone y)))
      (survivingLinks reference) s := by
  cases reference with
  | none => exact guards_return hs fun _ hw => ⟨hw, fun h => nomatch h⟩
  | some h =>
    have hask : w.guards (fun links s' => Waits w.respectful s s' ∧ (links = some 0 →
        ∃ h' y, some h = some h' ∧ s.handles h' = some y ∧ (y ∈ s.table.used → s'.Gone y)))
        (referenceLinks h >>= pure) s := by
      refine guards_referenceLinks hs fun s₁ links hw hs₁ hzero => ?_
      refine guards_return hs₁ fun s₂ hw₂ => ⟨hw.trans hw₂, fun hlinks => ?_⟩
      obtain ⟨y, hy, hgone⟩ := hzero hlinks
      exact ⟨h, y, rfl, hy, fun hknown => (hgone hknown).onward hw₂.toOnward⟩
    exact hask

/-- The target has been removed; its placeholder is left to remove, and the links to count. -/
theorem Concludes.of_removed {e : Executed} {folder z : FileId}
    (hbase : Cleans base s) (hplanned : s.planned = some entry)
    (hs : Cleans (s.without false (folder, at'.detached) z) s')
    (hentry : withLinkCount e.entry none = withLinkCount entry none)
    (houtcome : e.outcome ≠ .Unattempted)
    (hlink : e.isolation.noLinkSurvived = true → ∃ y,
      w.objects.isObject y entry.snapshot.identity = true ∧ base.Alive y ∧ s'.Gone y ∧
        (w.respectful = true → y = z))
    (hcounted : e.outcome = .Deleted → entry.snapshot.kind.isFileOrLink = true →
      e.isolation.noLinkSurvived = true ∨ e.entry.snapshot.identity.linkCount = none) :
    Concludes w base entry e s' := by
  have hremoved : Removes (fun r => r.planned = some entry ∧ e.outcome ≠ .Unattempted ∧
      (entry.snapshot.kind.isFileOrLink = true → e.isolation.noLinkSurvived = true →
        w.respectful = true → r.object ∈ s'.table.used ∧ ¬s'.table.Named r.object)) s
      (s.without false (folder, at'.detached) z) := by
    refine ⟨onward_without s false _ z, _, rfl, fun r hr _ => ?_⟩
    obtain rfl := List.mem_singleton.mp hr
    refine ⟨hplanned, houtcome, fun _ hnone hrespect => ?_⟩
    obtain ⟨y, -, -, hgone, heq⟩ := hlink hnone
    rw [heq hrespect] at hgone
    exact ⟨hgone.known, hgone.unnamed⟩
  refine ⟨(hbase.removes.trans hremoved).trans hs.removes, hentry, fun hnone => ?_, hcounted⟩
  obtain ⟨y, hobject, halive, hgone, -⟩ := hlink hnone
  exact ⟨y, hobject, halive, hgone⟩

theorem guards_removeIsolated (hs : w.Safe s) (hbase : Cleans base s)
    (h : Inspected w s at' entry snapshot x) {kept : PlannedEntry} {isolation : Isolation}
    (hkept : withLinkCount kept none = withLinkCount entry none)
    (hlink : isolation.noLinkSurvived = false) {reference : Option Handle}
    (href : ∀ k, reference = some k → ∃ y, Refers w base s at' entry k y) :
    w.guards (Concludes w base entry) (removeIsolated host at' kept isolation reference) s := by
  have hkind := congrArg (fun e : PlannedEntry => e.snapshot.kind) hkept
  have hrestored (restored : DeletionEntryOutcome) (hrestored : restored ≠ .Deleted)
      (failure : String) (s₁ : SharedState) (hs₁ : w.Safe s₁) (hw : Waits w.respectful s s₁) :
      w.guards (Concludes w base entry)
        (do
          let outcome ← restoreTo host at' restored failure
          pure (⟨outcome, kept, isolation⟩ : Executed)) s₁ := by
    have h₁ := h.waits hw
    refine World.wp_seq (guards_restoreTo host hs₁ h₁.private_name h₁.ours hrestored _) ?_
    rintro outcome s₂ hs₂ ⟨hc, hout⟩
    refine guards_return hs₂ fun s₃ hw₃ => ?_
    exact ((hbase.trans (hw.toLooks.cleans.trans hc)).trans hw₃.toLooks.cleans).concludes hkept hout
      hlink
  unfold removeIsolated
  refine guards_removeTarget hs (fun s₁ e hw hs₁ => ?_) fun s₁ folder z hw hs₁ hfolder hz => ?_
  · have h₁ := h.waits hw
    dsimp only
    split
    · refine World.wp_seq (guards_finalizeTo host hs₁ h₁.ours _ _) ?_
      rintro outcome s₂ hs₂ ⟨hc, hout⟩
      refine guards_return hs₂ fun s₃ hw₃ => ?_
      have hcleans := (hbase.trans (hw.toLooks.cleans.trans hc)).trans hw₃.toLooks.cleans
      refine hcleans.concludes hkept ?_ hlink
      rcases hout with rfl | ⟨_, rfl⟩
      · simp
      · simp
    · split
      · exact hrestored _ (by simp) _ s₁ hs₁ hw
      · exact hrestored _ (by simp) _ s₁ hs₁ hw
  · have h₁ := h.waits hw
    have hsafe : w.Safe (s₁.without false (folder, at'.detached) z) :=
      hs₁.without fun hrespect => h₁.allowed hrespect hfolder hz
    have hours : Ours w.objects (s₁.without false (folder, at'.detached) z) at'.placeholder :=
      h₁.ours
    have hbase₁ := hbase.trans hw.toLooks.cleans
    dsimp only
    split
    · refine World.wp_seq (guards_survivingLinks hsafe) ?_
      rintro links s₂ hs₂ ⟨hw₂, hzero⟩
      refine World.wp_seq (guards_finalizeTo host hs₂ (hours.onward hw₂.toOnward) _ _) ?_
      rintro outcome s₃ hs₃ ⟨hc₃, hout⟩
      have hattempted : outcome ≠ .Unattempted := by
        rcases hout with rfl | ⟨_, rfl⟩
        · simp
        · simp
      split
      · rename_i hnone
        refine guards_return hs₃ fun s₄ hw₄ => ?_
        have hc₄ := hc₃.trans hw₄.toLooks.cleans
        refine Concludes.of_removed hbase₁ h₁.planned
          (hw₂.toLooks.cleans.trans hc₄) hkept hattempted (fun _ => ?_) fun _ _ => Or.inl rfl
        obtain ⟨k, y, hk, hy, hgone⟩ := hzero hnone
        obtain ⟨y', href⟩ := href k hk
        have href := href.waits hw
        obtain rfl := Option.some.inj (href.handle.symm.trans hy)
        refine ⟨y', href.object, href.alive, (hgone href.known).onward hc₄.toOnward,
          fun hrespect => ?_⟩
        exact Option.some.inj
          ((href.held hrespect h₁.private_name folder hfolder).symm.trans hz)
      · refine guards_return hs₃ fun s₄ hw₄ => ?_
        have hc₄ := hc₃.trans hw₄.toLooks.cleans
        exact Concludes.of_removed hbase₁ h₁.planned
          (hw₂.toLooks.cleans.trans hc₄) hkept hattempted (fun h => nomatch h)
          fun _ _ => Or.inr rfl
    · rename_i hfile
      refine World.wp_seq (guards_finalizeTo host hsafe hours _ _) ?_
      rintro outcome s₂ hs₂ ⟨hc₂, hout⟩
      have hattempted : outcome ≠ .Unattempted := by
        rcases hout with rfl | ⟨_, rfl⟩
        · simp
        · simp
      refine guards_return hs₂ fun s₃ hw₃ => ?_
      refine Concludes.of_removed hbase₁ h₁.planned
        (hc₂.trans hw₃.toLooks.cleans) hkept hattempted (fun h => ?_) fun _ hentry => ?_
      · dsimp only at h
        rw [hlink] at h
        cases h
      · have hsame : kept.snapshot.kind = entry.snapshot.kind := hkind
        rw [hsame] at hfile
        exact absurd hentry hfile

theorem guards_executeIsolated (hs : w.Safe s) (hbase : Cleans base s)
    (hplanned : s.planned = some entry) (hmem : entry ∈ w.plan.entries)
    (hn : PrivateName s at'.parent at'.detached) (ho : Ours w.objects s at'.placeholder)
    {isolation : Isolation} (hlink : isolation.noLinkSurvived = false) :
    w.guards (Concludes w base entry) (executeIsolated host at' entry isolation) s := by
  have hfailed (e : DeletionPlanError) (kept : PlannedEntry)
      (hkept : withLinkCount kept none = withLinkCount entry none) (s₁ : SharedState)
      (hs₁ : w.Safe s₁) (hl : Looks w.respectful s s₁) :
      w.guards (Concludes w base entry)
        (do
          let outcome ← inspectionFailed host at' e
          pure (⟨outcome, kept, isolation⟩ : Executed)) s₁ := by
    refine World.wp_seq (guards_inspectionFailed host hs₁ (hn.onward hl.toOnward)
      (ho.onward hl.toOnward) e) ?_
    rintro outcome s₂ hs₂ ⟨hc, hout⟩
    refine guards_return hs₂ fun s₃ hw₃ => ?_
    exact ((hbase.trans (hl.cleans.trans hc)).trans hw₃.toLooks.cleans).concludes hkept hout hlink
  have hchanged (kept : PlannedEntry)
      (hkept : withLinkCount kept none = withLinkCount entry none) (s₁ : SharedState)
      (hs₁ : w.Safe s₁) (hl : Looks w.respectful s s₁) :
      w.guards (Concludes w base entry)
        (do
          let outcome ← restoreTo host at' (.Changed changedDetail) "entry changed"
          pure (⟨outcome, kept, isolation⟩ : Executed)) s₁ := by
    refine World.wp_seq (guards_restoreTo host hs₁ (hn.onward hl.toOnward)
      (ho.onward hl.toOnward) (by simp) _) ?_
    rintro outcome s₂ hs₂ ⟨hc, hout⟩
    refine guards_return hs₂ fun s₃ hw₃ => ?_
    exact ((hbase.trans (hl.cleans.trans hc)).trans hw₃.toLooks.cleans).concludes hkept hout hlink
  unfold executeIsolated
  refine World.wp_seq (guards_inspectChild host _ hs) ?_
  rintro read s₁ hs₁ ⟨hl₁, -⟩
  cases read with
  | error e => exact hfailed e entry rfl s₁ hs₁ hl₁
  | ok actual =>
    dsimp only
    split
    · exact hchanged _ (withLinkCount_twice ..) s₁ hs₁ hl₁
    · rename_i hactual
      rw [Bool.not_eq_true, Bool.not_eq_false'] at hactual
      refine guards_ask hs₁ (fun _ _ _ => rfl) fun s₂ _ hw₂ hs₂ => ?_
      refine World.wp_seq (guards_inspectChild host _ hs₂) ?_
      rintro again s₃ hs₃ ⟨hl₃, hagain⟩
      have hl := (hl₁.trans hw₂.toLooks).trans hl₃
      cases again with
      | error e => exact hfailed e _ (withLinkCount_twice ..) s₃ hs₃ hl
      | ok revalidated =>
        dsimp only
        split
        · exact hchanged _ (withLinkCount_twice ..) s₃ hs₃ hl
        · rename_i hsame
          rw [Bool.not_eq_true, Bool.not_eq_false'] at hsame
          obtain ⟨x, hsaw⟩ := hagain revalidated rfl
          have hinspected : Inspected w s₃ at' entry revalidated x :=
            ⟨hl.planned.trans hplanned, hmem, hn.onward hl.toOnward, ho.onward hl.toOnward, hsaw,
              hsame⟩
          have hbase₃ := hbase.trans hl.cleans
          unfold linkReference
          split
          · refine guards_openReference hs₃ (fun s₄ hw₄ hs₄ => ?_)
              fun s₄ k y hl₄ hs₄ hseen hk hy hobject => ?_
            · exact guards_removeIsolated host hs₄ (hbase₃.trans hw₄.toLooks.cleans)
                (hinspected.waits hw₄) (withLinkCount_twice ..) hlink (fun _ h => nomatch h)
            · have hbase₄ := hbase₃.trans hl₄.cleans
              obtain ⟨folder, hfolder, hname⟩ := SharedState.holds_eq_some hy
              have hrefers : Refers w base s₄ at' entry k y :=
                ⟨hk, (object_of_matches hactual hobject).1,
                  SharedState.Alive.before ⟨_, hname⟩ hbase₄.toOnward, s₄.table.known _ _ hname,
                  fun hrespect => (Looks.refl s₄).held hrespect hy⟩
              refine guards_removeIsolated host hs₄ hbase₄ (hinspected.looks hl₄ hseen)
                (withLinkCount_twice ..) hlink fun k' hk' => ?_
              obtain rfl := Option.some.inj hk'
              exact ⟨y, hrefers⟩
          · exact guards_removeIsolated host hs₃ hbase₃ hinspected (withLinkCount_twice ..) hlink
              (fun _ h => nomatch h)

theorem guards_isolationFailed (hs : w.Safe s) (hbase : Cleans base s)
    (hn : PrivateName s at'.parent at'.detached) (ho : Ours w.objects s at'.placeholder)
    {isolation : Isolation} (hlink : isolation.noLinkSurvived = false) (e : IoError) :
    w.guards (Concludes w base entry) (isolationFailed host at' entry isolation e) s := by
  unfold isolationFailed
  refine World.wp_seq (guards_removeVerifiedPlaceholder host hs hn ho) ?_
  intro cleanup s₁ hs₁ hc
  have hdone (outcome : DeletionEntryOutcome) (houtcome : outcome ≠ .Deleted)
      (isolation : Isolation) (hlink : isolation.noLinkSurvived = false) :
      w.guards (Concludes w base entry)
        (pure (⟨outcome, entry, isolation⟩ : Executed) : Executor Executed) s₁ :=
    guards_return hs₁ fun s₂ hw =>
      ((hbase.trans hc).trans hw.toLooks.cleans).concludes rfl houtcome hlink
  split
  · cases cleanup with
    | some c => exact hdone _ (by simp) isolation hlink
    | none => exact hdone _ (by simp) isolation hlink
  · exact hdone _ (by simp) _ hlink

theorem guards_openParents (relative : NativePath) (components : List Component) :
    ∀ {parent : Handle} {s : SharedState}, w.Safe s →
      w.guards (fun _ s' => Looks w.respectful s s') (openParents host relative parent components)
        s := by
  induction components with
  | nil =>
    intro parent s hs
    exact guards_return hs fun _ hw => hw.toLooks
  | cons c rest ih =>
    intro parent s hs
    refine guards_openDirNofollow hs (fun s₁ e hl hs₁ => ?_) fun s₁ h y hl hs₁ _ _ => ?_
    · exact guards_return hs₁ fun _ hw => hl.trans hw.toLooks
    · refine (ih hs₁).mono ?_
      intro out s₂ hl₂
      exact hl.trans hl₂

theorem guards_openParent (root : Handle) (relative : RelativePath) (hs : w.Safe s) :
    w.guards (fun _ s' => Looks w.respectful s s') (openParent host root relative) s := by
  unfold openParent
  split
  · exact guards_return hs fun _ hw => hw.toLooks
  · refine guards_cloneRoot hs (fun s₁ e hl hs₁ => ?_) fun s₁ h y hl hs₁ _ _ => ?_
    · exact guards_return hs₁ fun _ hw => hl.trans hw.toLooks
    · refine World.wp_seq (guards_openParents host _ _ hs₁) ?_
      intro out s₂ hs₂ hl₂
      cases out with
      | error e => exact guards_return hs₂ fun _ hw => (hl.trans hl₂).trans hw.toLooks
      | ok d => exact guards_return hs₂ fun _ hw => (hl.trans hl₂).trans hw.toLooks

theorem guards_executeUnixEntry (root : Handle) (hs : w.Safe s) (hplanned : s.planned = some entry)
    (hmem : entry ∈ w.plan.entries) {isolation : Isolation}
    (hlink : isolation.noLinkSurvived = false) :
    w.guards (Concludes w s entry) (executeUnixEntry host tryClaim tryBegin root entry isolation)
      s := by
  have hdone (outcome : DeletionEntryOutcome) (houtcome : outcome ≠ .Deleted) (s₁ : SharedState)
      (hs₁ : w.Safe s₁) (hc : Cleans s s₁) :
      w.guards (Concludes w s entry)
        (pure (⟨outcome, entry, isolation⟩ : Executed) : Executor Executed) s₁ :=
    guards_return hs₁ fun s₂ hw => (hc.trans hw.toLooks.cleans).concludes rfl houtcome hlink
  unfold executeUnixEntry
  refine World.wp_seq (guards_openParent host root _ hs) ?_
  intro opened s₁ hs₁ hl₁
  cases opened with
  | error e =>
    dsimp only
    split
    · exact hdone _ (by simp) s₁ hs₁ hl₁.cleans
    · exact hdone _ (by simp) s₁ hs₁ hl₁.cleans
  | ok place =>
    refine guards_ask hs₁ (fun _ _ _ => rfl) fun s₂ claimed hw₂ hs₂ => ?_
    have hc₂ := (hl₁.trans hw₂.toLooks).cleans
    split
    · refine World.wp_seq (guards_createPlaceholder placeholderNameAttempts hs₂) ?_
      rintro created s₃ hs₃ ⟨hc₃, hcreated⟩
      have hbase₃ := hc₂.trans hc₃
      cases created with
      | error e => exact hdone _ (by simp) s₃ hs₃ hbase₃
      | ok placeholder =>
        obtain ⟨hn, ho⟩ := hcreated placeholder.1 placeholder.2 rfl
        refine guards_ask hs₃ (fun _ _ _ => rfl) fun s₄ begins hw₄ hs₄ => ?_
        have hbase₄ := hbase₃.trans hw₄.toLooks.cleans
        have hn₄ := hn.onward hw₄.toOnward
        have ho₄ := ho.onward hw₄.toOnward
        split
        · refine guards_exchange hs₄ (fun s₅ e hl₅ hs₅ => ?_) fun s₅ hc₅ hs₅ => ?_
          · have hbase₅ := hbase₄.trans hl₅.cleans
            exact guards_isolationFailed host
              hs₅ hbase₅
              (hn₄.onward hl₅.toOnward) (ho₄.onward hl₅.toOnward) hlink e
          · have hbase₅ := hbase₄.trans hc₅
            exact guards_executeIsolated host
              hs₅ hbase₅
              (hbase₅.planned.trans hplanned) hmem (hn₄.onward hc₅.toOnward)
              (ho₄.onward hc₅.toOnward) hlink
        · refine guards_ask hs₄ (fun _ _ _ => rfl) fun s₅ _ hw₅ hs₅ => ?_
          have hbase₅ := hbase₄.trans hw₅.toLooks.cleans
          refine World.wp_seq (guards_removeVerifiedPlaceholder host hs₅
            (hn₄.onward hw₅.toOnward) (ho₄.onward hw₅.toOnward)) ?_
          intro cleanup s₆ hs₆ hc₆
          have hbase₆ := hbase₅.trans hc₆
          cases cleanup with
          | none => exact hdone _ (by simp) s₆ hs₆ hbase₆
          | some e => exact hdone _ (by simp) s₆ hs₆ hbase₆
    · exact hdone _ (by simp) s₂ hs₂ hc₂

end

end Excise
