import Excise.Deletion.PlanContents
import Excise.Lib.TreeWalk

/-!
# A plan lists its whole tree

While the tree below the target stays as it is, every plan that is built lists each of its entries
once, a folder before what it holds, and the search for them ends.
-/

namespace Excise
set_option autoImplicit false

/-- The last component of the path. -/
def entryName (e : PlannedEntry) : OsString :=
  (e.relativePath.components.getLast?.map Component.bytes).getD []

/-- The names of a folder are those of its entries in the tree. -/
structure Lists (tree : List PlannedEntry) (folder : RelativePath)
    (names : List (Except IoError OsString)) : Prop where
  distinct : (names.filterMap Except.toOption).Nodup
  names_iff : ∀ name, Except.ok name ∈ names ↔
    ∃ e ∈ tree, e.relativePath.isDirectChildOf folder = true ∧ entryName e = name

/-- The tree below `target` does not change: what is read of it is always the same. -/
structure StillTree (world : PlanWorld) (target : RelativePath) (tree : List PlannedEntry) :
    Prop where
  distinct : (tree.map PlannedEntry.relativePath).Nodup
  below : ∀ e ∈ tree, e.relativePath.startsWith target = true
  parent : ∀ e ∈ tree, e.relativePath ≠ target →
    ∃ d ∈ tree, d.snapshot.kind = .Directory ∧
      e.relativePath.isDirectChildOf d.relativePath = true
  inspected : ∀ n path snapshot, path.startsWith target = true →
    world.inspect n path = .ok snapshot → ⟨path, snapshot⟩ ∈ tree
  listed : ∀ n, ∀ d ∈ tree, ∀ names, world.readDir n d.relativePath = .ok names →
    Lists tree d.relativePath names

/-! ## The tree -/

def childEntry (d e : PlannedEntry) : Prop :=
  e.relativePath.isDirectChildOf d.relativePath = true

def folderEntry (e : PlannedEntry) : Bool := decide (e.snapshot.kind = .Directory)

def aboveEntry (a e : PlannedEntry) : Prop :=
  e.relativePath.startsWith a.relativePath = true ∧ e.relativePath ≠ a.relativePath

theorem eq_of_path {tree : List PlannedEntry}
    (hdistinct : (tree.map PlannedEntry.relativePath).Nodup) {d e : PlannedEntry} (hd : d ∈ tree)
    (he : e ∈ tree) (h : d.relativePath = e.relativePath) : d = e :=
  List.inj_on_of_nodup_map hdistinct hd he h

theorem childEntry_iff {d e : PlannedEntry} : childEntry d e ↔
    ∃ c, e.relativePath.components = d.relativePath.components ++ [c] :=
  RelativePath.isDirectChildOf_iff

theorem depth_lt_of_childEntry {d e : PlannedEntry} (h : childEntry d e) :
    d.relativePath.depth < e.relativePath.depth := by
  obtain ⟨c, hc⟩ := childEntry_iff.mp h
  unfold RelativePath.depth
  rw [hc, List.length_append, List.length_singleton]
  exact Nat.lt_succ_self _

theorem childEntry_unique {d d' e : PlannedEntry} (h : childEntry d e) (h' : childEntry d' e) :
    d.relativePath = d'.relativePath := by
  obtain ⟨c, hc⟩ := childEntry_iff.mp h
  obtain ⟨c', hc'⟩ := childEntry_iff.mp h'
  exact RelativePath.ext_components (List.append_inj' (hc.symm.trans hc') rfl).1

variable {world : PlanWorld} {tree : List PlannedEntry} {target : RelativePath} {top : PlannedEntry}

theorem StillTree.top_alone (h : StillTree world target tree) (htop : top.relativePath = target)
    {d : PlannedEntry} (hd : d ∈ tree) : ¬childEntry d top := by
  intro hchild
  have hlt := depth_lt_of_childEntry hchild
  have hle : target.depth ≤ d.relativePath.depth :=
    ((RelativePath.startsWith_iff _ _).mp (h.below d hd)).length_le
  rw [htop] at hlt
  exact absurd hle (Nat.not_le_of_lt hlt)

theorem StillTree.shape (h : StillTree world target tree) (hmem : top ∈ tree)
    (htop : top.relativePath = target) : TreeWalk.Shape tree childEntry folderEntry top where
  distinct := h.distinct.of_map _
  top_mem := hmem
  parent := by
    intro e he hne
    have hpath : e.relativePath ≠ target := fun heq =>
      hne (eq_of_path h.distinct he hmem (heq.trans htop.symm))
    obtain ⟨d, hd, hkind, hchild⟩ := h.parent e he hpath
    exact ⟨d, hd, decide_eq_true hkind, hchild⟩
  only_parent := fun d hd d' hd' e hc hc' =>
    eq_of_path h.distinct hd hd' (childEntry_unique hc hc')
  top_alone := fun d hd => h.top_alone htop hd
  founded := Subrelation.wf depth_lt_of_childEntry
    (InvImage.wf (fun e : PlannedEntry => e.relativePath.depth) Nat.lt_wfRel.wf)

theorem StillTree.above (h : StillTree world target tree) (htop : top.relativePath = target) :
    TreeWalk.Above tree childEntry top aboveEntry where
  none := by
    rintro a ha ⟨hstarts, hne⟩
    rw [htop] at hstarts hne
    exact hne (RelativePath.startsWith_antisymm hstarts (h.below a ha))
  through := by
    rintro a ha d hd e ⟨hstarts, hne⟩ hchild
    obtain ⟨c, hc⟩ := childEntry_iff.mp hchild
    have hpre := (RelativePath.startsWith_iff _ _).mp hstarts
    rw [hc] at hpre
    rcases List.prefix_concat_iff.mp hpre with heq | hpre
    · exact absurd (RelativePath.ext_components (hc.trans heq.symm)) hne
    · by_cases hsame : a.relativePath = d.relativePath
      · exact Or.inl (eq_of_path h.distinct ha hd hsame)
      · exact Or.inr ⟨(RelativePath.startsWith_iff _ _).mpr hpre, Ne.symm hsame⟩

/-! ## Steps that list nothing -/

namespace PlanWalk
variable {host : PlanHost} {request : PlanRequest} {α β : Type}

/-- The same entries listed, the same directories waiting, the same sum. -/
structure SameLists (s s' : WalkState) : Prop where
  planned : s'.storage.planned = s.storage.planned
  pending : s'.pending = s.pending
  apparentBytes : s'.apparentBytes = s.apparentBytes

theorem SameLists.refl (s : WalkState) : SameLists s s := ⟨rfl, rfl, rfl⟩

theorem SameLists.trans {s s₁ s₂ : WalkState} (h : SameLists s s₁) (h₁ : SameLists s₁ s₂) :
    SameLists s s₂ :=
  ⟨h₁.planned.trans h.planned, h₁.pending.trans h.pending,
    h₁.apparentBytes.trans h.apparentBytes⟩

/-- A step that lists nothing, and what its answer is known to be. -/
def Passive (c : WalkM α) (known : α → Prop) : Prop :=
  ∀ s, match c s with
    | .ok a s' => known a ∧ SameLists s s'
    | .error _ _ => True

variable {known : α → Prop} {known' : β → Prop}

theorem Passive.bind {c : WalkM α} {f : α → WalkM β} (hc : Passive c known)
    (hf : ∀ a, known a → Passive (f a) known') : Passive (c >>= f) known' := by
  intro s
  have hs := hc s
  show match EStateM.bind c f s with | .ok a s' => _ | .error _ _ => _
  unfold EStateM.bind
  cases hrun : c s with
  | error e s₁ => trivial
  | ok a s₁ =>
    rw [hrun] at hs
    have hs₁ := hf a hs.1 s₁
    dsimp only
    cases hnext : f a s₁ with
    | error e s₂ => trivial
    | ok b s₂ =>
      rw [hnext] at hs₁
      exact ⟨hs₁.1, hs.2.trans hs₁.2⟩

theorem Passive.pure {a : α} (h : known a) : Passive (Pure.pure a : WalkM α) known :=
  fun s => ⟨h, .refl s⟩

theorem Passive.then {P : WalkState → Prop} {Q : β → WalkState → Prop} {c : WalkM α}
    {f : α → WalkM β} (hc : Passive c known) (hP : ∀ s s', SameLists s s' → P s → P s')
    (hf : ∀ a, known a → Triple P (f a) Q fun _ _ => True) :
    Triple P (c >>= f) Q fun _ _ => True := by
  refine Triple.bind (Q := fun a s => known a ∧ P s) ?_ fun a => Triple.of_fact (fun _ h => h.1)
    fun ha => (hf a ha).weaken (fun _ h => h.2) (fun _ _ h => h) fun _ _ h => h
  intro s hs
  have hstep := hc s
  cases hrun : c s with
  | error e s₁ => trivial
  | ok a s₁ =>
    rw [hrun] at hstep
    exact ⟨hstep.1, hP s s₁ hstep.2 hs⟩

theorem passive_systemCall : Passive systemCall fun _ => True := fun _ => ⟨trivial, rfl, rfl, rfl⟩

theorem passive_ofExcept (x : Except PlanningError α) : Passive (ofExcept x) fun a => x = .ok a := by
  intro s
  unfold ofExcept
  cases x with
  | ok a => exact ⟨rfl, .refl s⟩
  | error e => trivial

theorem passive_refuse (e : PlanningError) : Passive (refuse e : WalkM α) known := fun _ => trivial

theorem Passive.weaken {c : WalkM α} {known' : α → Prop} (hc : Passive c known)
    (h : ∀ a, known a → known' a) : Passive c known' := by
  intro s
  have hs := hc s
  cases hrun : c s with
  | error e s' => trivial
  | ok a s' =>
    rw [hrun] at hs
    exact ⟨h a hs.1, hs.2⟩

/-- Only that the step lists nothing. -/
abbrev Silent (c : WalkM α) : Prop := Passive c fun _ => True

theorem silent_ofExcept (x : Except PlanningError α) : Silent (ofExcept x) :=
  (passive_ofExcept x).weaken fun _ _ => trivial

theorem silent_ensureNotCancelled : Silent (ensureNotCancelled world) :=
  Passive.bind passive_systemCall fun _ _ => silent_ofExcept _

theorem silent_openRoot : Silent (openRoot world) :=
  Passive.bind passive_systemCall fun _ _ => silent_ofExcept _

theorem silent_openParent (path : RelativePath) : Silent (openParent host world path) :=
  Passive.bind passive_systemCall fun _ _ => silent_ofExcept _

theorem silent_mountRoot (path : RelativePath) : Silent (mountRoot world path) :=
  Passive.bind passive_systemCall fun _ _ => Passive.pure trivial

/-- A snapshot that was taken is one the file system gave. -/
def Inspects (world : PlanWorld) (path : RelativePath)
    (answer : Except DeletionPlanError PlannedSnapshot) : Prop :=
  ∀ snapshot, answer = .ok snapshot → ∃ n, world.inspect n path = .ok snapshot

theorem passive_inspectChild (path : RelativePath) :
    Passive (inspectChild host world path) (Inspects world path) := by
  refine Passive.bind passive_systemCall fun n _ => Passive.pure ?_
  intro snapshot hanswer
  exact ⟨n, (mapError_eq_ok hanswer)⟩

theorem passive_inspectEntry (path : RelativePath) :
    Passive (inspectEntry host world path) (Inspects world path) := by
  refine Passive.bind (passive_inspectChild path) fun answer hanswer => Passive.pure ?_
  exact fun snapshot h => hanswer snapshot (mapError_eq_ok h)

theorem silent_refuseMounted (path : RelativePath) :
    Silent (refuseMounted host world request path) := by
  unfold refuseMounted
  split
  · exact Passive.pure trivial
  · refine Passive.bind (silent_mountRoot path) fun _ _ => ?_
    exact Passive.bind (silent_ofExcept _) fun _ _ => silent_ofExcept _

theorem silent_checkMountedTarget (target : PlanTarget) (path : RelativePath) :
    Silent (checkMountedTarget host world target path) := by
  refine Passive.bind (silent_mountRoot path) fun mounted _ => ?_
  cases mounted with
  | error e =>
    dsimp only
    split
    · exact Passive.pure trivial
    · exact passive_refuse _
  | ok mounted =>
    cases mounted with
    | false => exact Passive.pure trivial
    | true =>
      dsimp only
      split
      · exact passive_refuse _
      · refine Passive.bind (passive_inspectEntry path) fun answer _ => ?_
        cases answer with
        | error e => exact passive_refuse _
        | ok actual => exact passive_refuse _

/-- The target is inspected, and its snapshot is what the file system gave. -/
theorem passive_inspectTarget (target : PlanTarget) :
    Passive (inspectTarget host world target request) fun snapshot =>
      ∃ n, world.inspect n request.relative = .ok snapshot := by
  refine Passive.bind silent_openRoot fun _ _ => ?_
  refine Passive.bind (silent_openParent _) fun _ _ => ?_
  have hmount : Passive (refuseMountedTarget host world target request) fun _ => True := by
    unfold refuseMountedTarget
    split
    · exact silent_checkMountedTarget target _
    · exact Passive.pure trivial
  refine Passive.bind hmount fun _ _ => ?_
  refine Passive.bind (passive_inspectEntry _) fun answer hanswer => ?_
  refine Passive.bind (passive_ofExcept _) fun snapshot hsnapshot => ?_
  refine Passive.bind (silent_ofExcept _) fun _ _ => Passive.pure ?_
  exact hanswer snapshot (mapError_eq_ok hsnapshot)

theorem silent_visitPlan (visit : Nat → PlannedEntry → Except PlanningError Unit) :
    Silent (visitPlan host request visit) := by
  intro s
  unfold visitPlan
  cases s.storage.entries.tryForEach host request.relative visit with
  | ok entries => exact ⟨trivial, rfl, rfl, rfl⟩
  | error e => trivial

theorem silent_get_bind {f : WalkState → WalkM α} (hf : ∀ s, Silent (f s)) :
    Silent (get >>= f) := fun s => hf s s

theorem silent_compareReview (target : PlanTarget) :
    Silent (compareReview host target request) := by
  unfold compareReview
  dsimp only
  split
  · exact Passive.pure trivial
  · refine silent_get_bind fun s => ?_
    exact Passive.bind (silent_ofExcept _) fun _ _ => silent_visitPlan _

theorem silent_revalidatePlan : Silent (revalidatePlan host world request) :=
  Passive.bind silent_openRoot fun _ _ => silent_get_bind fun _ => silent_visitPlan _

/-! ## Steps that list something -/

/-- What is listed, what the sum covers, and what waits. -/
structure Listing (host : PlanHost) (listed summed waiting : List PlannedEntry) (s : WalkState) :
    Prop where
  planned : s.storage.planned = listed
  apparentBytes : s.apparentBytes =
    min ((summed.map fun e => e.snapshot.apparentBytes).sum) (satMax 128)
  pending : s.pending.Holds host waiting

variable {listed summed waiting : List PlannedEntry}

theorem Listing.same {s s' : WalkState} (hsame : SameLists s s')
    (h : Listing host listed summed waiting s) : Listing host listed summed waiting s' :=
  ⟨hsame.planned.trans h.planned, hsame.apparentBytes.trans h.apparentBytes,
    hsame.pending ▸ h.pending⟩

theorem triple_addApparent (entry : PlannedEntry) :
    Triple (Listing host listed summed waiting) (addApparent entry.snapshot.apparentBytes)
      (fun _ => Listing host listed (summed ++ [entry]) waiting) fun _ _ => True := by
  rintro s ⟨hplanned, hsum, hpending⟩
  refine ⟨hplanned, ?_, hpending⟩
  show satAdd 128 s.apparentBytes _ = _
  rw [hsum, List.map_append, List.sum_append, List.map_singleton, List.sum_singleton]
  unfold satAdd
  omega

theorem push_planned {s s' : PlanningStorage} {entry : PlannedEntry} {maximumBytes : Nat}
    {allowSpill : Bool} {context : RelativePath}
    (h : s.push host entry maximumBytes allowSpill context = .ok s') :
    s'.planned = s.planned ++ [entry] := by
  unfold PlanningStorage.push at h
  dsimp only at h
  split at h
  · cases h
  · obtain ⟨_, -, h⟩ := bind_eq_ok h
    obtain ⟨_, -, h⟩ := bind_eq_ok h
    cases h
    rfl

theorem triple_pushEntry (entry : PlannedEntry) :
    Triple (Listing host listed summed waiting) (pushEntry host request entry)
      (fun _ => Listing host (listed ++ [entry]) summed waiting) fun _ _ => True := by
  rintro s ⟨hplanned, hsum, hpending⟩
  unfold pushEntry
  cases hpush : s.storage.push host entry request.maximumBytes request.directoryTarget
      request.relative with
  | error e => trivial
  | ok storage => exact ⟨by rw [← hplanned]; exact push_planned hpush, hsum, hpending⟩

theorem triple_pushPending (hquiet : host.pendingSpill.host.Quiet) (entry : PlannedEntry) :
    Triple (Listing host listed summed waiting) (pushPending host request entry)
      (fun _ => Listing host listed summed (waiting ++ [entry])) fun _ _ => True := by
  rintro s ⟨hplanned, hsum, hpending⟩
  unfold pushPending
  cases hpush : s.pending.push host entry with
  | error e => trivial
  | ok pending => exact ⟨hplanned, hsum, hpending.push hquiet hpush⟩

/-- One entry, listed and, if it is a folder, kept to be read. -/
theorem triple_plan (hquiet : host.pendingSpill.host.Quiet) (entry : PlannedEntry) :
    Triple (Listing host listed summed waiting)
      (do
        addApparent entry.snapshot.apparentBytes
        pushEntry host request entry
        if entry.snapshot.kind = .Directory then pushPending host request entry)
      (fun _ => Listing host (listed ++ [entry]) (summed ++ [entry])
        (waiting ++ [entry].filter folderEntry)) fun _ _ => True := by
  refine Triple.bind (triple_addApparent entry) fun _ => ?_
  refine Triple.bind (triple_pushEntry entry) fun _ => ?_
  by_cases hkind : entry.snapshot.kind = .Directory
  · have hfilter : [entry].filter folderEntry = [entry] :=
      List.filter_cons_of_pos (decide_eq_true hkind)
    rw [if_pos hkind, hfilter]
    exact triple_pushPending hquiet entry
  · have hfilter : [entry].filter folderEntry = [] :=
      List.filter_cons_of_neg (mt of_decide_eq_true hkind)
    rw [if_neg hkind, hfilter, List.append_nil]
    exact Triple.pure fun _ h => h

/-! ## Reading a folder -/

variable {read seen : List PlannedEntry} {d : PlannedEntry} {pathOfTarget : RelativePath}

/-- Between two folders of the walk. -/
def AtFolder (host : PlanHost) (tree : List PlannedEntry) (top : PlannedEntry)
    (read waiting listed : List PlannedEntry) (s : WalkState) : Prop :=
  TreeWalk.Walked tree childEntry folderEntry top read waiting listed ∧
    Listing host listed listed waiting s

/-- In the middle of a folder. -/
def InFolder (host : PlanHost) (tree : List PlannedEntry) (top : PlannedEntry)
    (read : List PlannedEntry) (d : PlannedEntry) (seen waiting listed : List PlannedEntry)
    (s : WalkState) : Prop :=
  TreeWalk.Reading tree childEntry folderEntry top read d seen waiting listed ∧
    Listing host listed listed waiting s

theorem joinChild_eq_ok {folder path : RelativePath} {name : OsString}
    (h : joinChild folder name = .ok path) :
    ∃ c : Component, c.bytes = name ∧ path.components = folder.components ++ [c] := by
  unfold joinChild at h
  split at h
  · cases h
    exact ⟨_, rfl, rfl⟩
  · cases h

theorem entryName_joined {e : PlannedEntry} {folder : RelativePath} {c : Component}
    (h : e.relativePath.components = folder.components ++ [c]) : entryName e = c.bytes := by
  unfold entryName
  rw [h, List.getLast?_concat]
  rfl

theorem eq_of_entryName (hstill : StillTree world pathOfTarget tree) {e e' : PlannedEntry}
    (he : e ∈ tree) (he' : e' ∈ tree) (hchild : childEntry d e) (hchild' : childEntry d e')
    (hname : entryName e = entryName e') : e = e' := by
  obtain ⟨c, hc⟩ := childEntry_iff.mp hchild
  obtain ⟨c', hc'⟩ := childEntry_iff.mp hchild'
  rw [entryName_joined hc, entryName_joined hc'] at hname
  refine eq_of_path hstill.distinct he he' (RelativePath.ext_components ?_)
  rw [hc, hc', component_ext hname]

/-- A name of the folder that was not seen before. -/
theorem triple_planChild (hstill : StillTree world pathOfTarget tree)
    (hshape : TreeWalk.Shape tree childEntry folderEntry top)
    (hquiet : host.pendingSpill.host.Quiet) (hd : d ∈ tree) {child : Except IoError OsString}
    (hnew : ∀ e ∈ seen, child ≠ .ok (entryName e)) :
    Triple (InFolder host tree top read d seen waiting listed)
      (planChild host world request d.relativePath child)
      (fun _ s => ∃ e, child = .ok (entryName e) ∧
        InFolder host tree top read d (seen ++ [e]) (waiting ++ [e].filter folderEntry)
          (listed ++ [e]) s) fun _ _ => True := by
  have hsame : ∀ s s', SameLists s s' → InFolder host tree top read d seen waiting listed s →
      InFolder host tree top read d seen waiting listed s' := fun s s' h hs => ⟨hs.1, hs.2.same h⟩
  refine silent_ensureNotCancelled.then hsame fun _ _ => ?_
  refine (passive_ofExcept _).then hsame fun name hname => ?_
  refine (passive_ofExcept _).then hsame fun path hpath => ?_
  refine (passive_inspectChild _).then hsame fun answer hanswer => ?_
  refine (passive_ofExcept _).then hsame fun snapshot hsnapshot => ?_
  obtain ⟨c, rfl, hc⟩ := joinChild_eq_ok hpath
  obtain ⟨n, hinspect⟩ := hanswer snapshot (mapError_eq_ok hsnapshot)
  have hstarts : path.startsWith pathOfTarget = true := by
    refine RelativePath.startsWith_trans ?_ (hstill.below d hd)
    rw [RelativePath.startsWith_iff, hc]
    exact List.prefix_append _ _
  have hmem : ⟨path, snapshot⟩ ∈ tree := hstill.inspected n path snapshot hstarts hinspect
  have hchild : childEntry d ⟨path, snapshot⟩ := childEntry_iff.mpr ⟨c, hc⟩
  have hentry : child = .ok (entryName ⟨path, snapshot⟩) := by
    rw [entryName_joined hc]
    exact mapError_eq_ok hname
  refine Triple.of_fact (fun s hs => hs.1) fun hreading => ?_
  refine (triple_plan hquiet ⟨path, snapshot⟩).weaken (fun _ hs => hs.2)
    (fun _ s hs => ⟨_, hentry, ?_, hs⟩) fun _ _ h => h
  exact hreading.list hshape hmem hchild fun hseen => hnew _ hseen hentry

theorem triple_planChildren (hstill : StillTree world pathOfTarget tree)
    (hshape : TreeWalk.Shape tree childEntry folderEntry top)
    (hquiet : host.pendingSpill.host.Quiet) (hd : d ∈ tree)
    {children : List (Except IoError OsString)} (hlists : Lists tree d.relativePath children)
    (rest : List (Except IoError OsString)) :
    ∀ {seen waiting listed : List PlannedEntry},
      children = (seen.map fun e => .ok (entryName e)) ++ rest →
      Triple (InFolder host tree top read d seen waiting listed)
        (planChildren host world request d.relativePath rest)
        (fun _ s => ∃ waiting listed, AtFolder host tree top (read ++ [d]) waiting listed s)
        fun _ _ => True := by
  induction rest with
  | nil =>
    rintro seen waiting listed hsplit s ⟨hreading, hlisting⟩
    refine ⟨waiting, listed, hreading.close fun e he hchild => ?_, hlisting⟩
    have hmem := (hlists.names_iff (entryName e)).mpr ⟨e, he, hchild, rfl⟩
    rw [hsplit, List.append_nil] at hmem
    obtain ⟨e', he', hname⟩ := List.mem_map.mp hmem
    obtain ⟨hlisted, hchild'⟩ := (hreading.seen_iff e').mp he'
    rw [eq_of_entryName hstill he (hreading.subset hlisted) hchild hchild'
      (Except.ok.inj hname).symm]
    exact he'
  | cons child rest ih =>
    intro seen waiting listed hsplit
    have hnew : ∀ e ∈ seen, child ≠ .ok (entryName e) := by
      rintro e he rfl
      have hdistinct := hlists.distinct
      rw [hsplit, List.filterMap_append, List.filterMap_cons] at hdistinct
      refine (List.nodup_append.mp hdistinct).2.2 (entryName e) ?_ (entryName e)
        List.mem_cons_self rfl
      exact List.mem_filterMap.mpr ⟨.ok (entryName e), List.mem_map.mpr ⟨e, he, rfl⟩, rfl⟩
    refine Triple.bind (triple_planChild hstill hshape hquiet hd hnew) fun _ => ?_
    rintro s ⟨e, rfl, hs⟩
    refine ih ?_ s hs
    rw [hsplit, List.map_append, List.append_assoc]
    rfl

theorem triple_planDirectory (hstill : StillTree world pathOfTarget tree)
    (hshape : TreeWalk.Shape tree childEntry folderEntry top)
    (hquiet : host.pendingSpill.host.Quiet) (hd : d ∈ tree) :
    Triple (InFolder host tree top read d [] waiting listed)
      (planDirectory host world request d)
      (fun _ s => ∃ waiting listed, AtFolder host tree top (read ++ [d]) waiting listed s)
      fun _ _ => True := by
  have hsame : ∀ s s', SameLists s s' → InFolder host tree top read d [] waiting listed s →
      InFolder host tree top read d [] waiting listed s' := fun s s' h hs => ⟨hs.1, hs.2.same h⟩
  refine silent_ensureNotCancelled.then hsame fun _ _ => ?_
  refine (silent_openParent _).then hsame fun _ _ => ?_
  refine (silent_refuseMounted _).then hsame fun _ _ => ?_
  refine (passive_inspectEntry _).then hsame fun answer _ => ?_
  refine (silent_ofExcept _).then hsame fun actual _ => ?_
  refine (silent_ofExcept _).then hsame fun _ _ => ?_
  refine (silent_ofExcept _).then hsame fun _ _ => ?_
  refine passive_systemCall.then hsame fun n _ => ?_
  refine (passive_ofExcept _).then hsame fun children hchildren => ?_
  exact triple_planChildren hstill hshape hquiet hd
    (hstill.listed n d hd children (mapError_eq_ok hchildren)) children rfl

/-! ## The whole walk -/

/-- No folder waits, or the one to read next is taken. -/
def TakenNext (host : PlanHost) (tree : List PlannedEntry) (top : PlannedEntry)
    (read waiting listed : List PlannedEntry) : Option PlannedEntry → WalkState → Prop
  | none, s => AtFolder host tree top read waiting listed s ∧ waiting = []
  | some d, s => d ∈ tree ∧ ∃ rest, InFolder host tree top read d [] rest listed s

/-- A walk that ends has read every folder; one that is stopped has read as many as it may. -/
theorem triple_walk (hstill : StillTree world pathOfTarget tree)
    (hshape : TreeWalk.Shape tree childEntry folderEntry top)
    (hquiet : host.pendingSpill.host.Quiet)
    (hcoding : ∀ e ∈ tree, host.decodeSpilledEntry (encodeSpilledEntry host e) = .ok e)
    (fuel : Nat) : ∀ {read waiting listed : List PlannedEntry},
      Triple (AtFolder host tree top read waiting listed) (walk host world request fuel)
        (fun ended s => ∃ read' waiting' listed', AtFolder host tree top read' waiting' listed' s ∧
          (if ended then waiting' = [] else read.length + fuel ≤ read'.length))
        fun _ _ => True := by
  induction fuel with
  | zero => exact fun s hs => ⟨_, _, _, hs, Nat.le_refl _⟩
  | succ fuel ih =>
    intro read waiting listed
    refine Triple.bind (Q := TakenNext host tree top read waiting listed) ?_ fun next => ?_
    · rintro s ⟨hwalked, hlisting⟩
      unfold popPending
      cases hpop : s.pending.pop host request.relative with
      | error e => trivial
      | ok r =>
        obtain ⟨next, pending⟩ := r
        have hwaiting : waiting ⊆ tree := fun e he => hwalked.subset
          (List.mem_filter.mp (hwalked.folders.subset (List.mem_append_right _ he))).1
        have hspec := hlisting.pending.pop hquiet (fun e he => hcoding e (hwaiting he)) hpop
        cases next with
        | none => exact ⟨⟨hwalked, hlisting.planned, hlisting.apparentBytes, hspec.2⟩, hspec.1⟩
        | some d =>
          obtain ⟨rest, hperm, hrest⟩ := hspec
          exact ⟨hwaiting (hperm.symm.subset List.mem_cons_self), rest, hwalked.take hperm,
            hlisting.planned, hlisting.apparentBytes, hrest⟩
    · cases next with
      | none => exact Triple.pure fun s hs => ⟨_, _, _, hs.1, hs.2⟩
      | some d =>
        rintro s ⟨hd, rest, hs⟩
        refine Triple.bind (triple_planDirectory hstill hshape hquiet hd) (fun _ => ?_) s hs
        rintro s' ⟨waiting', listed', hs'⟩
        refine (@ih (read ++ [d]) _ _).weaken (fun _ h => h) (fun ended s'' hs'' => ?_)
          (fun _ _ h => h) s' hs'
        obtain ⟨read', waiting'', listed'', hat, hend⟩ := hs''
        refine ⟨read', waiting'', listed'', hat, ?_⟩
        cases ended with
        | true => exact hend
        | false =>
          rw [List.length_append, List.length_singleton] at hend
          rw [Nat.add_right_comm] at hend
          exact hend

theorem listing_start (maximumBytes : Nat) : Listing host [] [] [] (start maximumBytes) :=
  ⟨rfl, rfl, ⟨[], []⟩, .Resident, List.Perm.refl _⟩

/-- The tree is listed, unless there are more folders than may be read. -/
theorem triple_planTree {snapshot : PlannedSnapshot}
    (hstill : StillTree world request.relative tree)
    (htop : ⟨request.relative, snapshot⟩ ∈ tree) (hquiet : host.pendingSpill.host.Quiet)
    (hcoding : ∀ e ∈ tree, host.decodeSpilledEntry (encodeSpilledEntry host e) = .ok e)
    (fuel : Nat) :
    Triple (Listing host [] [] []) (planTree host world request snapshot fuel)
      (fun ended s => ∃ read waiting listed,
        AtFolder host tree ⟨request.relative, snapshot⟩ read waiting listed s ∧
          (if ended then waiting = [] else fuel ≤ read.length)) fun _ _ => True := by
  have hshape := hstill.shape htop rfl
  have hstart := TreeWalk.Walked.start hshape
  unfold planTree
  refine Triple.bind (triple_addApparent ⟨request.relative, snapshot⟩) fun _ => ?_
  refine Triple.bind (triple_pushEntry ⟨request.relative, snapshot⟩) fun _ => ?_
  by_cases hkind : snapshot.kind = .Directory
  · have hfilter : [(⟨request.relative, snapshot⟩ : PlannedEntry)].filter folderEntry =
        [⟨request.relative, snapshot⟩] := List.filter_cons_of_pos (decide_eq_true hkind)
    rw [hfilter] at hstart
    rw [if_pos hkind]
    refine Triple.bind (triple_pushPending hquiet _) fun _ s hs => ?_
    refine (triple_walk hstill hshape hquiet hcoding fuel).weaken (fun _ h => h) (fun ended s' h' => ?_)
      (fun _ _ h => h) s ⟨hstart, hs⟩
    obtain ⟨read, waiting, listed, hat, hend⟩ := h'
    rw [List.length_nil, Nat.zero_add] at hend
    exact ⟨read, waiting, listed, hat, hend⟩
  · have hfilter : [(⟨request.relative, snapshot⟩ : PlannedEntry)].filter folderEntry = [] :=
      List.filter_cons_of_neg (mt of_decide_eq_true hkind)
    rw [hfilter] at hstart
    rw [if_neg hkind]
    exact Triple.pure fun s hs => ⟨[], [], _, ⟨hstart, hs⟩, rfl⟩

/-- The lists of a plan. -/
structure Complete (tree : List PlannedEntry) (plan : BuiltPlan) : Prop where
  once : plan.planned.Perm tree
  foldersFirst : plan.planned.Pairwise fun earlier later =>
    earlier.relativePath.startsWith later.relativePath = false
  apparentBytes : plan.apparentBytes =
    min ((tree.map fun e => e.snapshot.apparentBytes).sum) (satMax 128)

theorem complete_of_walked {top : PlannedEntry} {plan : BuiltPlan} {s : WalkState}
    (hstill : StillTree world pathOfTarget tree) (htop : top.relativePath = pathOfTarget)
    (hmem : top ∈ tree) (hat : AtFolder host tree top read [] listed s)
    (hplanned : plan.planned = s.storage.planned) (hsum : plan.apparentBytes = s.apparentBytes) :
    Complete tree plan := by
  obtain ⟨hwalked, hlisting⟩ := hat
  have hperm : listed.Perm tree := hwalked.finished (hstill.shape hmem htop)
  rw [hlisting.planned] at hplanned
  refine ⟨hplanned ▸ hperm, ?_, ?_⟩
  · rw [hplanned]
    have habove := hwalked.parentsFirst.pairwise (hstill.above htop) hwalked.subset
      hwalked.distinct
    have hpaths : listed.Pairwise fun e e' => e.relativePath ≠ e'.relativePath :=
      List.pairwise_map.mp ((hperm.map PlannedEntry.relativePath).symm.nodup hstill.distinct)
    refine (habove.and hpaths).imp fun {earlier later} h => ?_
    exact Bool.eq_false_iff.mpr fun hstarts => h.1 ⟨hstarts, h.2⟩
  · rw [hsum, hlisting.apparentBytes, (hperm.map fun e => e.snapshot.apparentBytes).sum_eq]

/-- There is a complete plan, or more folders than may be read. -/
def Ends (tree : List PlannedEntry) (fuel : Nat) : Option BuiltPlan → Prop
  | none => fuel ≤ tree.length
  | some plan => Complete tree plan

/-- The plan of a tree that stays as it is. -/
theorem triple_planTarget {target : PlanTarget} {reduced : Bool}
    (hstill : StillTree world request.relative tree) (hquiet : host.pendingSpill.host.Quiet)
    (hcoding : ∀ e ∈ tree, host.decodeSpilledEntry (encodeSpilledEntry host e) = .ok e)
    (fuel : Nat) :
    Triple (Listing host [] [] []) (planTarget host world target request reduced fuel)
      (fun plan _ => Ends tree fuel plan) fun _ _ => True := by
  refine (passive_inspectTarget target).then (fun s s' h hs => hs.same h) fun snapshot hsnapshot => ?_
  obtain ⟨n, hinspect⟩ := hsnapshot
  have htop : ⟨request.relative, snapshot⟩ ∈ tree :=
    hstill.inspected n _ _ (RelativePath.startsWith_refl _) hinspect
  refine Triple.bind (triple_planTree hstill htop hquiet hcoding fuel) fun ended => ?_
  rintro s ⟨read, waiting, listed, hat, hend⟩
  cases ended with
  | false =>
    have hle := hat.1.read_length_le
    exact Nat.le_trans hend (Nat.le_trans (Nat.le_add_right _ _) hle)
  | true =>
    have hnone : waiting = [] := hend
    subst hnone
    have hsame : ∀ s s', SameLists s s' →
        AtFolder host tree ⟨request.relative, snapshot⟩ read [] listed s →
        AtFolder host tree ⟨request.relative, snapshot⟩ read [] listed s' :=
      fun s s' h hs => ⟨hs.1, hs.2.same h⟩
    refine (silent_compareReview target).then (Q := fun plan _ => Ends tree fuel plan) hsame
      (fun _ _ => ?_) s hat
    refine silent_revalidatePlan.then hsame fun _ _ => ?_
    exact fun s' hs' => complete_of_walked hstill rfl htop hs' rfl rfl

end PlanWalk

/-! ## Plans -/

variable {host : PlanHost}

/-- The entries of a plan are stored as they were planned. -/
theorem lasting_holds (hquiet : host.entriesSpill.host.Quiet) (request : PlanRequest) :
    @PlanWalk.Lasting host request fun s => PlanEntries.Holds host s.planned s.entries where
  push := by
    intro s s' entry hs hpush
    have hplanned := PlanWalk.push_planned hpush
    unfold PlanningStorage.push at hpush
    dsimp only at hpush
    split at hpush
    · cases hpush
    · obtain ⟨_, -, hpush⟩ := bind_eq_ok hpush
      obtain ⟨entries, hentries, hpush⟩ := bind_eq_ok hpush
      cases hpush
      exact hs.push hquiet (mapError_eq_ok hentries)
  pass := fun hs hpass => hs.pass hquiet hpass

theorem buildPlan_holds {target : PlanTarget} {reduced : Bool} {maximumBytes fuel : Nat}
    {plan : BuiltPlan} (hquiet : host.entriesSpill.host.Quiet)
    (h : buildPlan host world target reduced maximumBytes fuel = .ok (some plan)) :
    PlanEntries.Holds host plan.planned plan.entries := by
  obtain ⟨s, hrun⟩ := buildPlan_runs h
  exact (PlanWalk.planTarget_retains (lasting_holds hquiet _) target reduced fuel).ok .InMemory hrun
    plan rfl

theorem buildPlan_complete {target : PlanTarget} {reduced : Bool} {maximumBytes fuel : Nat}
    {plan : Option BuiltPlan} (hstill : StillTree world ⟨target.pathToFile⟩ tree)
    (hquiet : host.pendingSpill.host.Quiet)
    (hcoding : ∀ e ∈ tree, host.decodeSpilledEntry (encodeSpilledEntry host e) = .ok e)
    (h : buildPlan host world target reduced maximumBytes fuel = .ok plan) :
    PlanWalk.Ends tree fuel plan := by
  obtain ⟨s, hrun⟩ := buildPlan_runs h
  exact (PlanWalk.triple_planTarget hstill hquiet hcoding fuel).ok
    (PlanWalk.listing_start maximumBytes) hrun

/-- A plan that is built of a tree that stays as it is lists each of its entries once, a folder
before what it holds; reading the plan back gives the entries in this order, whether or not they
were moved to disk; and there is a plan or an error as soon as every folder may be read. -/
theorem plan_lists_tree_once (host : PlanHost) (world : PlanWorld) (target : PlanTarget)
    (reduced : Bool) (maximumBytes : Nat) {tree : List PlannedEntry}
    (hstill : StillTree world ⟨target.pathToFile⟩ tree)
    (hentries : host.entriesSpill.host.Quiet) (hpending : host.pendingSpill.host.Quiet)
    (hcoding : ∀ e ∈ tree, host.decodeSpilledEntry (encodeSpilledEntry host e) = .ok e) :
    (∀ fuel, tree.length < fuel →
      buildPlan host world target reduced maximumBytes fuel ≠ .ok none) ∧
    ∀ fuel plan, buildPlan host world target reduced maximumBytes fuel = .ok (some plan) →
      PlanWalk.Complete tree plan ∧ plan.entries.len = tree.length ∧
      ∀ visit, (∃ entries, plan.entries.tryForEach host ⟨target.pathToFile⟩ visit =
          (PlanEntries.visitResident ⟨target.pathToFile⟩ visit 0 plan.planned).map
            fun _ => entries) ∨
        host.entriesSpill.host.Failing ∧ ∃ e, plan.entries.tryForEach host ⟨target.pathToFile⟩ visit =
          .error (planStorageIo host ⟨target.pathToFile⟩ e) := by
  constructor
  · intro fuel hfuel hnone
    exact Nat.not_le_of_lt hfuel (buildPlan_complete hstill hpending hcoding hnone)
  · intro fuel plan hplan
    have hcomplete : PlanWalk.Complete tree plan :=
      buildPlan_complete hstill hpending hcoding hplan
    have hholds := buildPlan_holds hentries hplan
    refine ⟨hcomplete, hholds.len.trans hcomplete.once.length_eq, fun visit => ?_⟩
    exact hholds.shows hentries
      (fun e he => hcoding e (hcomplete.once.subset he)) ⟨target.pathToFile⟩ visit

/-! ### A folder whose plan is moved to disk -/

/-- A file system that holds exactly these objects. -/
theorem stillWorld_still {objects : List PlannedEntry} {target : RelativePath}
    (hdistinct : (objects.map PlannedEntry.relativePath).Nodup)
    (hbelow : ∀ e ∈ objects, e.relativePath.startsWith target = true)
    (hparent : ∀ e ∈ objects, e.relativePath ≠ target → ∃ d ∈ objects,
      d.snapshot.kind = .Directory ∧ e.relativePath.isDirectChildOf d.relativePath = true) :
    StillTree (stillWorld objects) target objects where
  distinct := hdistinct
  below := hbelow
  parent := hparent
  inspected := by
    intro n path snapshot _ h
    dsimp only [stillWorld] at h
    split at h
    · rename_i e hfind
      cases h
      have hpath := List.find?_some hfind
      obtain rfl : e.relativePath = path := of_decide_eq_true hpath
      exact List.mem_of_find?_eq_some hfind
    · cases h
  listed := by
    intro n d _ names h
    cases h
    have hname (e : PlannedEntry) (c : Component)
        (hlast : e.relativePath.components.getLast? = some c) : entryName e = c.bytes := by
      unfold entryName
      rw [hlast]
      rfl
    constructor
    · rw [List.filterMap_filterMap]
      refine List.pairwise_filterMap.mpr ((List.pairwise_map.mp hdistinct).imp ?_)
      rintro e e' hne name hmem name' hmem' rfl
      rw [Option.bind_eq_some_iff] at hmem hmem'
      obtain ⟨x, hx, hxname⟩ := hmem
      obtain ⟨y, hy, hyname⟩ := hmem'
      rw [Option.ite_none_right_eq_some, Option.map_eq_some_iff] at hx hy
      obtain ⟨hchild, c, hc, rfl⟩ := hx
      obtain ⟨hchild', c', hc', rfl⟩ := hy
      obtain rfl : c.bytes = name := Option.some.inj hxname
      obtain ⟨b, hb⟩ := RelativePath.isDirectChildOf_iff.mp hchild
      obtain ⟨b', hb'⟩ := RelativePath.isDirectChildOf_iff.mp hchild'
      rw [hb, List.getLast?_concat] at hc
      rw [hb', List.getLast?_concat] at hc'
      rw [← Option.some.inj hc] at hyname
      rw [← Option.some.inj hc'] at hyname
      have hsame : b'.bytes = b.bytes := Option.some.inj hyname
      exact hne (RelativePath.ext_components (by rw [hb, hb', component_ext hsame]))
    · intro name
      constructor
      · intro hmem
        obtain ⟨e, he, hx⟩ := List.mem_filterMap.mp hmem
        rw [Option.ite_none_right_eq_some, Option.map_eq_some_iff] at hx
        obtain ⟨hchild, c, hc, hok⟩ := hx
        cases hok
        exact ⟨e, he, hchild, hname e c hc⟩
      · rintro ⟨e, he, hchild, rfl⟩
        obtain ⟨c, hc⟩ := RelativePath.isDirectChildOf_iff.mp hchild
        have hlast : e.relativePath.components.getLast? = some c := by
          rw [hc, List.getLast?_concat]
        refine List.mem_filterMap.mpr ⟨e, he, ?_⟩
        rw [if_pos hchild, hlast, hname e c hlast]
        rfl

theorem readingHost_reads {known : List PlannedEntry}
    (hdistinct : (known.map (encodeSpilledEntry calmHost)).Nodup) {e : PlannedEntry}
    (he : e ∈ known) :
    (readingHost known).decodeSpilledEntry (encodeSpilledEntry (readingHost known) e) = .ok e := by
  have hencode : encodeSpilledEntry (readingHost known) e = encodeSpilledEntry calmHost e := rfl
  rw [hencode]
  unfold readingHost
  dsimp only
  cases hfind : known.find? fun e' => encodeSpilledEntry calmHost e' == encodeSpilledEntry calmHost e
    with
  | none =>
    have hnone := List.find?_eq_none.mp hfind e he
    exact absurd (beq_self_eq_true _) hnone
  | some e' =>
    have hsame := List.find?_some hfind
    rw [List.inj_on_of_nodup_map hdistinct (List.mem_of_find?_eq_some hfind) he
      (beq_iff_eq.mp hsame)]

theorem smallTree_still : StillTree (stillWorld smallTree) ⟨smallTarget.pathToFile⟩ smallTree :=
  stillWorld_still (by decide +kernel) (List.all_eq_true.mp rfl) fun e he hne => by
    rcases List.mem_cons.mp he with rfl | he
    · exact absurd rfl hne
    · exact ⟨_, List.mem_cons_self, rfl, by rw [List.mem_singleton.mp he]; rfl⟩

theorem plan_lists_tree_once_spilled :
    ∃ plan, buildPlan (readingHost smallTree) (stillWorld smallTree) smallTarget false 0 9 =
        .ok (some plan) ∧ plan.entries.isSpilled = true ∧ PlanWalk.Complete smallTree plan := by
  obtain ⟨plan, hplan, hspilled⟩ := @eq_ok_of_plansSpilled (buildPlan
    (readingHost smallTree) (stillWorld smallTree) smallTarget false 0 9) (by decide +kernel)
  refine ⟨plan, hplan, hspilled, ?_⟩
  exact ((plan_lists_tree_once (readingHost smallTree) (stillWorld smallTree) smallTarget false 0
    smallTree_still (fun _ _ => rfl) (fun _ _ => rfl)
    (fun _ he => readingHost_reads (by decide +kernel) he)).2 9 plan hplan).1

end Excise
