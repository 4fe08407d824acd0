import Excise.Storage.TemporaryStorage

/-!
# What the budget counts

In every run the counter is the sum of the live reservations and stays within the limit, nothing
is released that was not reserved, and a backend between two calls has reserved its length.
-/

namespace Excise
set_option autoImplicit false

namespace TemporaryStorageState
variable {s s' : TemporaryStorageState} {stopSeen : Bool} {own bytes b : Nat}

theorem reserve_ok (h : s.reserve stopSeen bytes = .ok s') :
    s'.used = s.used + bytes ∧ s'.used ≤ s'.limit ∧ s'.limit = s.limit := by
  unfold reserve at h
  split at h
  · cases h
  · dsimp only at h
    split at h
    · cases h
    · split at h
      · cases h
      · rename_i hlimit
        cases h
        exact ⟨rfl, Nat.le_of_not_lt hlimit, rfl⟩

theorem release_some (h : bytes ≤ s.used) :
    ∃ s', s.release bytes = some s' ∧ s'.used + bytes = s.used ∧ s'.limit = s.limit := by
  refine ⟨_, if_neg (Nat.not_lt.mpr h), ?_, rfl⟩
  show s.used - bytes + bytes = s.used
  omega

theorem growTo_ok (hs : s.used ≤ s.limit) (h : s.growTo stopSeen own bytes = .ok (s', b)) :
    b = max own bytes ∧ s'.used + own = s.used + b ∧ s'.used ≤ s'.limit ∧ s'.limit = s.limit := by
  unfold growTo at h
  split at h
  · rename_i hle
    cases h
    exact ⟨(Nat.max_eq_left hle).symm, rfl, hs, rfl⟩
  · rename_i hlt
    cases hr : s.reserve stopSeen (bytes - own) with
    | error e =>
      rw [hr] at h
      cases h
    | ok t =>
      rw [hr] at h
      cases h
      obtain ⟨hused, hlimit, hsame⟩ := reserve_ok hr
      exact ⟨by omega, by omega, hlimit, hsame⟩

theorem shrinkTo_some (hs : s.used ≤ s.limit) (hown : own ≤ s.used) :
    ∃ s', s.shrinkTo own bytes = some (s', min own bytes) ∧
      s'.used + own = s.used + min own bytes ∧ s'.used ≤ s'.limit ∧ s'.limit = s.limit := by
  unfold shrinkTo
  by_cases hle : own ≤ bytes
  · rw [if_pos hle, Nat.min_eq_left hle]
    exact ⟨s, rfl, rfl, hs, rfl⟩
  · obtain ⟨s', hr, hused, hlimit⟩ := release_some (show own - bytes ≤ s.used by omega)
    rw [if_neg hle, hr, Nat.min_eq_right (by omega)]
    exact ⟨s', rfl, by omega, by omega, hlimit⟩

end TemporaryStorageState

/-! ## One owner's step -/

/-- What is reserved for a file: its length between two calls, and the larger of the two lengths
while `set_len` waits for the file. -/
def BoundedFile.Holds (file : BoundedFile) (bytes : Nat) : Prop :=
  match file.phase with
  | .idle => bytes = file.length
  | .growing len => bytes = len ∧ file.length < len
  | .shrinking len => bytes = file.length ∧ len < file.length

theorem BoundedFile.holds_of_phase {file : BoundedFile} {phase : SetLenPhase} {bytes : Nat}
    (h : file.Holds bytes) (hphase : file.phase = phase) :
    BoundedFile.Holds ⟨file.length, phase⟩ bytes := by
  subst hphase
  exact h

def Holder.Balanced (h : Holder) : Prop := ∀ file, h.file = some file → file.Holds h.bytes

theorem Holder.balanced_of_file {h : Holder} {file : BoundedFile} (hfile : h.file = some file)
    (hholds : file.Holds h.bytes) : h.Balanced := by
  intro f hf
  rw [hfile] at hf
  cases hf
  exact hholds

theorem Holder.balanced_of_none {h : Holder} (hfile : h.file = none) : h.Balanced := by
  intro f hf
  rw [hfile] at hf
  cases hf

/-- The storage and the holder `h` move by the same amount, and nothing panics. -/
structure Settles (s : TemporaryStorageState) (h : Holder)
    (r : TemporaryStorageState × Holder × StorageAnswer) : Prop where
  owner : r.2.1.owner = h.owner
  used : r.1.used + h.bytes = s.used + r.2.1.bytes
  bounded : r.1.used ≤ r.1.limit
  limit : r.1.limit = s.limit
  balanced : r.2.1.Balanced
  calm : r.2.2 ≠ .panicked

namespace Holder
variable {s : TemporaryStorageState} {h : Holder}

@[simp] theorem noteCapacityError_owner (e : StorageError) :
    (h.noteCapacityError e).owner = h.owner := by
  unfold noteCapacityError
  split <;> rfl

@[simp] theorem noteCapacityError_bytes (e : StorageError) :
    (h.noteCapacityError e).bytes = h.bytes := by
  unfold noteCapacityError
  split <;> rfl

@[simp] theorem noteCapacityError_file (e : StorageError) :
    (h.noteCapacityError e).file = h.file := by
  unfold noteCapacityError
  split <;> rfl

theorem balanced_noteCapacityError (hbalanced : h.Balanced) (e : StorageError) :
    (h.noteCapacityError e).Balanced := by
  intro file hfile
  rw [noteCapacityError_file] at hfile
  rw [noteCapacityError_bytes]
  exact hbalanced file hfile

theorem settles_same (hs : s.used ≤ s.limit) (hbalanced : h.Balanced) {a : StorageAnswer}
    (ha : a ≠ .panicked) : Settles s h (s, h, a) := ⟨rfl, rfl, hs, rfl, hbalanced, ha⟩

theorem settles_noted (hs : s.used ≤ s.limit) (hbalanced : h.Balanced) (e : StorageError) :
    Settles s h (s, h.noteCapacityError e, .refused e) where
  owner := noteCapacityError_owner e
  used := by rw [noteCapacityError_bytes]
  bounded := hs
  limit := rfl
  balanced := balanced_noteCapacityError hbalanced e
  calm := by simp

theorem settles_newBackend (hs : s.used ≤ s.limit) (hbalanced : h.Balanced)
    (metadata : Except StorageError Nat) (stopSeen : Bool) :
    Settles s h (h.newBackend s metadata stopSeen) := by
  unfold newBackend
  split
  · exact settles_same hs hbalanced (by simp)
  · rename_i length
    split
    · exact settles_same hs hbalanced (by simp)
    · rename_i hempty
      split
      · exact settles_noted hs hbalanced _
      · rename_i t bytes hgrow
        obtain ⟨rfl, hused, hbounded, hlimit⟩ := TemporaryStorageState.growTo_ok hs hgrow
        refine ⟨rfl, hused, hbounded, hlimit, balanced_of_file rfl ?_, by simp⟩
        show max h.bytes length = length
        omega

theorem settles_setLen (hs : s.used ≤ s.limit) (hbalanced : h.Balanced) {file : BoundedFile}
    (hfile : h.file = some file) (hidle : file.phase = .idle) (len : Nat)
    (metadata : Except StorageError Nat) (stopSeen : Bool) :
    Settles s h (h.setLen s file len metadata stopSeen) := by
  have hbytes : h.bytes = file.length := BoundedFile.holds_of_phase (hbalanced file hfile) hidle
  unfold setLen
  split
  · exact settles_same hs hbalanced (by simp)
  · rw [if_neg (not_not_intro hbytes)]
    split
    · rename_i hlt
      split
      · exact settles_noted hs hbalanced _
      · rename_i t bytes hgrow
        obtain ⟨rfl, hused, hbounded, hlimit⟩ := TemporaryStorageState.growTo_ok hs hgrow
        refine ⟨rfl, hused, hbounded, hlimit, balanced_of_file rfl ?_, by simp⟩
        show max h.bytes len = len ∧ file.length < len
        omega
    · split
      · rename_i hlt
        exact ⟨rfl, rfl, hs, rfl, balanced_of_file rfl ⟨hbytes, hlt⟩, by simp⟩
      · refine ⟨rfl, rfl, hs, rfl, balanced_of_file rfl ?_, by simp⟩
        unfold BoundedFile.Holds
        dsimp only
        rw [hidle]
        show h.bytes = len
        omega

theorem settles_setLenGrown (hs : s.used ≤ s.limit) (hown : h.bytes ≤ s.used)
    (hbalanced : h.Balanced) {file : BoundedFile} (hfile : h.file = some file) {len : Nat}
    (hphase : file.phase = .growing len) (result : Except StorageError Unit) :
    Settles s h (h.setLenGrown s file len result) := by
  have hgrown : h.bytes = len ∧ file.length < len := BoundedFile.holds_of_phase (hbalanced file hfile) hphase
  unfold setLenGrown
  split
  · exact ⟨rfl, rfl, hs, rfl, balanced_of_file rfl hgrown.1, by simp⟩
  · obtain ⟨t, ht, hused, hbounded, hlimit⟩ :=
      @TemporaryStorageState.shrinkTo_some s h.bytes file.length hs hown
    rw [ht]
    refine ⟨rfl, hused, hbounded, hlimit, balanced_of_file rfl ?_, by simp⟩
    show min h.bytes file.length = file.length
    omega

theorem settles_setLenShrunk (hs : s.used ≤ s.limit) (hown : h.bytes ≤ s.used)
    (hbalanced : h.Balanced) {file : BoundedFile} (hfile : h.file = some file) {len : Nat}
    (hphase : file.phase = .shrinking len) (result : Except StorageError Unit) :
    Settles s h (h.setLenShrunk s file len result) := by
  have hheld : h.bytes = file.length ∧ len < file.length :=
    BoundedFile.holds_of_phase (hbalanced file hfile) hphase
  unfold setLenShrunk
  split
  · exact ⟨rfl, rfl, hs, rfl, balanced_of_file rfl hheld.1, by simp⟩
  · obtain ⟨t, ht, hused, hbounded, hlimit⟩ :=
      @TemporaryStorageState.shrinkTo_some s h.bytes len hs hown
    rw [ht]
    refine ⟨rfl, hused, hbounded, hlimit, balanced_of_file rfl ?_, by simp⟩
    show min h.bytes len = len
    omega

end Holder

/-! ## All owners -/

/-- The sum of the live reservations. -/
def StorageSession.reserved (s : StorageSession) : Nat := (s.holders.map Holder.bytes).sum

structure Accounted (limit : Nat) (s : StorageSession) : Prop where
  owners : (s.holders.map Holder.owner).Nodup
  fresh : ∀ h ∈ s.holders, h.owner < s.nextOwner
  used : s.storage.used = s.reserved
  bounded : s.storage.used ≤ s.storage.limit
  limit_eq : s.storage.limit = limit
  balanced : ∀ h ∈ s.holders, h.Balanced

namespace StorageSession
variable {limit : Nat} {s : StorageSession} {owner : Nat} {h : Holder}

theorem holder_owner (hh : s.holder owner = some h) : h.owner = owner := by
  have hfound := List.find?_some hh
  exact of_decide_eq_true hfound

theorem holder_mem (hh : s.holder owner = some h) : h ∈ s.holders := List.mem_of_find?_eq_some hh

theorem bytes_le_used (hs : Accounted limit s) (hh : s.holder owner = some h) :
    h.bytes ≤ s.storage.used := by
  rw [hs.used]
  have hsum := Keyed.sum_eraseP (w := Holder.bytes) hh
  unfold reserved
  omega

/-- A call keeps the accounts and does not panic. -/
def Kept (limit : Nat) (r : StorageSession × StorageAnswer) : Prop :=
  Accounted limit r.1 ∧ r.2 ≠ .panicked

theorem kept_absent (hs : Accounted limit s) : Kept limit (s, .absent) := ⟨hs, by simp⟩

theorem kept_settle (hs : Accounted limit s) (hh : s.holder owner = some h)
    {r : TemporaryStorageState × Holder × StorageAnswer} (hr : Settles s.storage h r) :
    Kept limit (s.settle r) := by
  refine ⟨?_, hr.calm⟩
  have howner : r.2.1.owner = owner := hr.owner.trans (holder_owner hh)
  have hfind : s.holders.find? (fun x => x.owner = r.2.1.owner) = some h := by
    rw [howner]
    exact hh
  have hmem {x : Holder} : x ∈ (s.settle r).1.holders ↔
      x = r.2.1 ∨ (x ∈ s.holders ∧ x.owner ≠ h.owner) :=
    Keyed.mem_updateFirst hs.owners hfind
  constructor
  · show ((Keyed.updateFirst _ _ s.holders).map Holder.owner).Nodup
    rw [Keyed.map_updateFirst_of_mem fun x _ hx => (of_decide_eq_true hx).symm]
    exact hs.owners
  · intro x hx
    rcases hmem.mp hx with rfl | ⟨hx, -⟩
    · rw [hr.owner]
      exact hs.fresh h (holder_mem hh)
    · exact hs.fresh x hx
  · have hsum := Keyed.sum_updateFirst (w := Holder.bytes) (f := fun _ => r.2.1) hfind
    have hused := hr.used
    rw [hs.used] at hused
    show r.1.used = ((Keyed.updateFirst _ _ s.holders).map Holder.bytes).sum
    unfold reserved at hused
    omega
  · exact hr.bounded
  · exact hr.limit.trans hs.limit_eq
  · intro x hx
    rcases hmem.mp hx with rfl | ⟨hx, -⟩
    · exact hr.balanced
    · exact hs.balanced x hx

theorem kept_reservation (hs : Accounted limit s) (bytes : Nat) (stopSeen : Bool) :
    Kept limit (s.reservation bytes stopSeen) := by
  unfold reservation
  split
  · exact ⟨hs, by simp⟩
  rename_i t ht
  obtain ⟨hused, hbounded, hlimit⟩ := TemporaryStorageState.reserve_ok ht
  refine ⟨⟨?_, ?_, ?_, hbounded, hlimit.trans hs.limit_eq, ?_⟩, by simp⟩
  · show ((s.holders ++ [_]).map Holder.owner).Nodup
    rw [List.map_append, List.map_singleton]
    refine hs.owners.append (List.nodup_singleton _) ?_
    intro x hx hnew
    obtain ⟨y, hy, rfl⟩ := List.mem_map.mp hx
    exact absurd (List.mem_singleton.mp hnew) (Nat.ne_of_lt (hs.fresh y hy))
  · intro x hx
    rcases List.mem_append.mp hx with hx | hx
    · exact Nat.lt_succ_of_lt (hs.fresh x hx)
    · rw [List.mem_singleton.mp hx]
      exact Nat.lt_succ_self _
  · show t.used = ((s.holders ++ [_]).map Holder.bytes).sum
    rw [List.map_append, List.map_singleton, List.sum_append, List.sum_singleton, hused, hs.used]
    rfl
  · intro x hx
    rcases List.mem_append.mp hx with hx | hx
    · exact hs.balanced x hx
    · rw [List.mem_singleton.mp hx]
      exact Holder.balanced_of_none rfl

theorem kept_growTo (hs : Accounted limit s) (hh : s.holder owner = some h)
    (hfile : h.file = none) (bytes : Nat) (stopSeen : Bool) :
    Kept limit (s.growTo h bytes stopSeen) := by
  unfold growTo
  split
  · exact ⟨hs, by simp⟩
  · rename_i t b hgrow
    obtain ⟨-, hused, hbounded, hlimit⟩ := TemporaryStorageState.growTo_ok hs.bounded hgrow
    exact kept_settle (r := (t, { h with bytes := b }, .done)) hs hh
      ⟨rfl, hused, hbounded, hlimit, Holder.balanced_of_none hfile, by simp⟩

theorem kept_shrinkTo (hs : Accounted limit s) (hh : s.holder owner = some h)
    (hfile : h.file = none) (bytes : Nat) :
    Kept limit (s.shrinkTo h bytes) := by
  obtain ⟨t, ht, hused, hbounded, hlimit⟩ :=
    @TemporaryStorageState.shrinkTo_some s.storage h.bytes bytes hs.bounded (bytes_le_used hs hh)
  unfold shrinkTo
  rw [ht]
  exact kept_settle (r := (t, { h with bytes := min h.bytes bytes }, .done)) hs hh
    ⟨rfl, hused, hbounded, hlimit, Holder.balanced_of_none hfile, by simp⟩

theorem kept_drop (hs : Accounted limit s) (hh : s.holder owner = some h) :
    Kept limit (s.drop h) := by
  obtain ⟨t, ht, hused, hlimit⟩ := TemporaryStorageState.release_some (bytes_le_used hs hh)
  have hfind : s.holders.find? (fun x => x.owner = h.owner) = some h := by
    rw [holder_owner hh]
    exact hh
  unfold drop
  rw [ht]
  dsimp only
  split
  swap
  · exact kept_absent hs
  have hmem {x : Holder} (hx : x ∈ s.holders.eraseP fun x => x.owner = h.owner) :
      x ∈ s.holders := ((Keyed.mem_eraseP hs.owners hfind).mp hx).1
  refine ⟨⟨Keyed.nodup_eraseP hs.owners, fun x hx => hs.fresh x (hmem hx), ?_, ?_,
    hlimit.trans hs.limit_eq, fun x hx => hs.balanced x (hmem hx)⟩, by simp⟩
  · have hsum := Keyed.sum_eraseP (w := Holder.bytes) hfind
    have hall := hs.used
    show t.used = ((s.holders.eraseP _).map Holder.bytes).sum
    unfold reserved at hall
    omega
  · have hbounded := hs.bounded
    show t.used ≤ t.limit
    omega

/-! ## The steps of a session -/

section Calls
variable {P : StorageSession × StorageAnswer → Prop}

theorem withHolder_rule {f : Holder → StorageSession × StorageAnswer} (habsent : P (s, .absent))
    (hcall : ∀ h, s.holder owner = some h → P (f h)) : P (s.withHolder owner f) := by
  unfold withHolder
  cases hh : s.holder owner with
  | none => exact habsent
  | some h => exact hcall h hh

theorem withReservation_rule {f : Holder → StorageSession × StorageAnswer}
    (habsent : P (s, .absent)) (hcall : ∀ h, s.holder owner = some h → h.file = none → P (f h)) :
    P (s.withReservation owner f) := by
  refine withHolder_rule habsent fun h hh => ?_
  split
  · exact hcall h hh ‹_›
  · exact habsent

theorem withFile_rule {f : Holder → BoundedFile → StorageSession × StorageAnswer}
    (habsent : P (s, .absent))
    (hcall : ∀ h file, s.holder owner = some h → h.file = some file → P (f h file)) :
    P (s.withFile owner f) := by
  refine withHolder_rule habsent fun h hh => ?_
  split
  · exact hcall h _ hh ‹_›
  · exact habsent

theorem withIdleFile_rule {f : Holder → BoundedFile → StorageSession × StorageAnswer}
    (habsent : P (s, .absent))
    (hcall : ∀ h file, s.holder owner = some h → h.file = some file → file.phase = .idle →
      P (f h file)) :
    P (s.withIdleFile owner f) := by
  refine withFile_rule habsent fun h file hh hfile => ?_
  split
  · exact hcall h file hh hfile ‹_›
  · exact habsent

end Calls

theorem kept_fileSetLen (hs : Accounted limit s) (hh : s.holder owner = some h)
    {file : BoundedFile} (hfile : h.file = some file) (result : Except StorageError Unit) :
    Kept limit (s.fileSetLen h file result) := by
  have hbalanced := hs.balanced h (holder_mem hh)
  have hown := bytes_le_used hs hh
  unfold fileSetLen
  split
  · exact kept_absent hs
  · rename_i len hphase
    exact kept_settle hs hh
      (Holder.settles_setLenGrown hs.bounded hown hbalanced hfile hphase result)
  · rename_i len hphase
    exact kept_settle hs hh
      (Holder.settles_setLenShrunk hs.bounded hown hbalanced hfile hphase result)

theorem kept_ofExcept (hs : Accounted limit s) (r : Except StorageError Unit) :
    Kept limit (s, .ofExcept r) := by
  refine ⟨hs, ?_⟩
  cases r <;> simp [StorageAnswer.ofExcept]

theorem kept_step (hs : Accounted limit s) (call : StorageCall) : Kept limit (s.step call) := by
  have habsent := kept_absent hs
  cases call with
  | stop => exact ⟨⟨hs.owners, hs.fresh, hs.used, hs.bounded, hs.limit_eq, hs.balanced⟩, by simp [step]⟩
  | reservation bytes stopSeen => exact kept_reservation hs bytes stopSeen
  | growTo owner bytes stopSeen =>
    exact withReservation_rule habsent fun h hh hfile => kept_growTo hs hh hfile bytes stopSeen
  | shrinkTo owner bytes =>
    exact withReservation_rule habsent fun h hh hfile => kept_shrinkTo hs hh hfile bytes
  | drop owner => exact withHolder_rule habsent fun h hh => kept_drop hs hh
  | newBackend owner metadata stopSeen =>
    exact withReservation_rule habsent fun h hh _ => kept_settle hs hh
      (Holder.settles_newBackend hs.bounded (hs.balanced h (holder_mem hh)) metadata stopSeen)
  | setLen owner len metadata stopSeen =>
    exact withIdleFile_rule habsent fun h file hh hfile hidle => kept_settle hs hh
      (Holder.settles_setLen hs.bounded (hs.balanced h (holder_mem hh)) hfile hidle len metadata
        stopSeen)
  | fileSetLen owner result =>
    exact withFile_rule habsent fun h file hh hfile => kept_fileSetLen hs hh hfile result
  | read owner offset count seek readExact =>
    exact withIdleFile_rule habsent fun _ _ _ _ _ => kept_ofExcept hs _
  | write owner offset count seek writeAll =>
    exact withIdleFile_rule habsent fun _ _ _ _ _ => kept_ofExcept hs _

theorem accounted_run (limit : Nat) (capacityName increaseFlag : String)
    (calls : List StorageCall) :
    Accounted limit (machine.run (new (.withLimitBytesNamed limit capacityName increaseFlag)) calls) := by
  refine machine.run_invariant (I := Accounted limit) ?_ (fun s call hs => (kept_step hs call).1) calls
  exact ⟨List.nodup_nil, by simp [new], rfl, Nat.zero_le _, rfl, by simp [new]⟩

/-! ## Refused calls and ended calls -/

/-- Everything but the note that the capacity was exhausted. -/
def accounts (s : StorageSession) : TemporaryStorageState × List (Nat × Nat × Option BoundedFile) :=
  (s.storage, s.holders.map fun h => (h.owner, h.bytes, h.file))

theorem refused_reservation {bytes : Nat} {stopSeen : Bool} {e : StorageError}
    (hr : (s.step (.reservation bytes stopSeen)).2 = .refused e) :
    (s.step (.reservation bytes stopSeen)).1 = s := by
  show (s.reservation bytes stopSeen).1 = s
  have hr : (s.reservation bytes stopSeen).2 = .refused e := hr
  unfold reservation at hr ⊢
  split
  · rfl
  · rename_i hok
    rw [hok] at hr
    cases hr

theorem refused_growTo {bytes : Nat} {stopSeen : Bool} {e : StorageError}
    (hr : (s.step (.growTo owner bytes stopSeen)).2 = .refused e) :
    (s.step (.growTo owner bytes stopSeen)).1 = s := by
  refine withReservation_rule (P := fun r => r.2 = .refused e → r.1 = s) (fun _ => rfl) ?_ hr
  intro h _ _ hr
  unfold growTo at hr ⊢
  split
  · rfl
  · rename_i hok
    rw [hok] at hr
    cases hr

theorem accounts_settle (hs : Accounted limit s) (hh : s.holder owner = some h) {x : Holder}
    {a : StorageAnswer} (howner : x.owner = h.owner) (hbytes : x.bytes = h.bytes)
    (hfile : x.file = h.file) : (s.settle (s.storage, x, a)).1.accounts = s.accounts := by
  show (s.storage, (Keyed.updateFirst _ _ s.holders).map _) = _
  rw [Keyed.map_updateFirst_of_mem]
  · rfl
  · intro y hy hfound
    have hsame : y = h :=
      Keyed.eq_of_key_eq hs.owners hy (holder_mem hh) ((of_decide_eq_true hfound).trans howner)
    rw [hsame, howner, hbytes, hfile]

/-- A `set_len` that is refused before it reaches the file. -/
theorem refused_setLen (hs : Accounted limit s) {len : Nat} {metadata : Except StorageError Nat}
    {stopSeen : Bool} {e : StorageError}
    (hr : (s.step (.setLen owner len metadata stopSeen)).2 = .refused e) :
    (s.step (.setLen owner len metadata stopSeen)).1.accounts = s.accounts := by
  refine withIdleFile_rule (P := fun r => r.2 = .refused e → r.1.accounts = s.accounts)
    (fun _ => rfl) ?_ hr
  intro h file hh hfile _ hr
  have hnoted : ∀ (x : Holder) (a : StorageAnswer), x.owner = h.owner → x.bytes = h.bytes →
      x.file = h.file → (s.settle (s.storage, x, a)).1.accounts = s.accounts :=
    fun x a => accounts_settle hs hh
  have hr : (h.setLen s.storage file len metadata stopSeen).2.2 = .refused e := hr
  unfold Holder.setLen at hr ⊢
  split
  · exact hnoted h _ rfl rfl rfl
  · rename_i hverified
    rw [hverified] at hr
    dsimp only at hr
    split
    · exact hnoted h _ rfl rfl rfl
    · rename_i hsame
      rw [if_neg hsame] at hr
      split
      · rename_i hlt
        rw [if_pos hlt] at hr
        split
        · exact hnoted _ _ (Holder.noteCapacityError_owner _) (Holder.noteCapacityError_bytes _)
            (Holder.noteCapacityError_file _)
        · rename_i hok
          rw [hok] at hr
          cases hr
      · rename_i hle
        rw [if_neg hle] at hr
        split at hr
        · cases hr
        · cases hr

/-- The backend of `owner` is between two calls and has reserved its recorded length. -/
def Rests (s : StorageSession) (owner : Nat) : Prop :=
  ∃ h file, s.holder owner = some h ∧ h.file = some file ∧ file.phase = .idle ∧
    h.bytes = file.length

end StorageSession

/-- The backend whose call it is. -/
def StorageCall.backend : StorageCall → Option Nat
  | .setLen owner .. | .fileSetLen owner _ | .read owner .. | .write owner .. => some owner
  | _ => none

def StorageAnswer.ends : StorageAnswer → Bool
  | .done | .refused _ => true
  | _ => false

namespace Holder
variable {s : TemporaryStorageState} {h : Holder} {file : BoundedFile}

theorem setLen_idle (hfile : h.file = some file) (hidle : file.phase = .idle) (len : Nat)
    (metadata : Except StorageError Nat) (stopSeen : Bool) :
    (h.setLen s file len metadata stopSeen).2.2.ends = true →
      ∃ f, (h.setLen s file len metadata stopSeen).2.1.file = some f ∧ f.phase = .idle := by
  have hsame : ∃ f, h.file = some f ∧ f.phase = .idle := ⟨file, hfile, hidle⟩
  unfold setLen
  intro hends
  split
  · exact hsame
  · rename_i hverified
    rw [hverified] at hends
    dsimp only at hends
    split
    · exact hsame
    · rename_i hbytes
      rw [if_neg hbytes] at hends
      split
      · rename_i hlt
        rw [if_pos hlt] at hends
        split
        · rw [noteCapacityError_file]
          exact hsame
        · rename_i hok
          rw [hok] at hends
          cases hends
      · rename_i hle
        rw [if_neg hle] at hends
        split
        · rename_i hlt
          rw [if_pos hlt] at hends
          cases hends
        · exact ⟨_, rfl, hidle⟩

theorem setLenGrown_idle (len : Nat) (result : Except StorageError Unit) :
    (h.setLenGrown s file len result).2.2.ends = true →
      ∃ f, (h.setLenGrown s file len result).2.1.file = some f ∧ f.phase = .idle := by
  unfold setLenGrown
  intro hends
  split
  · exact ⟨_, rfl, rfl⟩
  · split
    · rename_i hnone
      rw [hnone] at hends
      cases hends
    · exact ⟨_, rfl, rfl⟩

theorem setLenShrunk_idle (len : Nat) (result : Except StorageError Unit) :
    (h.setLenShrunk s file len result).2.2.ends = true →
      ∃ f, (h.setLenShrunk s file len result).2.1.file = some f ∧ f.phase = .idle := by
  unfold setLenShrunk
  intro hends
  split
  · exact ⟨_, rfl, rfl⟩
  · split
    · rename_i hnone
      rw [hnone] at hends
      cases hends
    · exact ⟨_, rfl, rfl⟩

end Holder

namespace StorageSession
variable {limit : Nat} {s : StorageSession} {owner : Nat} {h : Holder}

theorem rests_of_idle (hs : Accounted limit s) (hh : s.holder owner = some h) {file : BoundedFile}
    (hfile : h.file = some file) (hidle : file.phase = .idle) : s.Rests owner :=
  ⟨h, file, hh, hfile, hidle,
    BoundedFile.holds_of_phase (hs.balanced h (holder_mem hh) file hfile) hidle⟩

theorem holder_settle (hs : Accounted limit s) (hh : s.holder owner = some h)
    {r : TemporaryStorageState × Holder × StorageAnswer} (hr : Settles s.storage h r) :
    (s.settle r).1.holder owner = some r.2.1 := by
  have hkept := (kept_settle hs hh hr).1
  have howner : r.2.1.owner = owner := hr.owner.trans (holder_owner hh)
  have hfind : s.holders.find? (fun x => x.owner = r.2.1.owner) = some h := by
    rw [howner]
    exact hh
  have hmem : r.2.1 ∈ (s.settle r).1.holders :=
    (Keyed.mem_updateFirst hs.owners hfind).mpr (Or.inl rfl)
  have hfound := Keyed.find?_key hkept.owners hmem
  rwa [howner] at hfound

theorem rests_settle (hs : Accounted limit s) (hh : s.holder owner = some h)
    {r : TemporaryStorageState × Holder × StorageAnswer} (hr : Settles s.storage h r)
    (hidle : r.2.2.ends = true → ∃ f, r.2.1.file = some f ∧ f.phase = .idle) :
    (s.settle r).2.ends = true → (s.settle r).1.Rests owner := by
  intro hends
  obtain ⟨f, hfile, hphase⟩ := hidle hends
  exact rests_of_idle (kept_settle hs hh hr).1 (holder_settle hs hh hr) hfile hphase

theorem rests_of_step (hs : Accounted limit s) {call : StorageCall}
    (hcall : call.backend = some owner) :
    (s.step call).2.ends = true → (s.step call).1.Rests owner := by
  cases call with
  | setLen owner len metadata stopSeen =>
    cases hcall
    refine withIdleFile_rule (P := fun r => r.2.ends = true → r.1.Rests owner)
      (fun hends => by cases hends) ?_
    intro h file hh hfile hidle
    exact rests_settle hs hh (Holder.settles_setLen hs.bounded (hs.balanced h (holder_mem hh)) hfile
      hidle len metadata stopSeen) (Holder.setLen_idle hfile hidle len metadata stopSeen)
  | fileSetLen owner result =>
    cases hcall
    refine withFile_rule (P := fun r => r.2.ends = true → r.1.Rests owner)
      (fun hends => by cases hends) ?_
    intro h file hh hfile
    have hbalanced := hs.balanced h (holder_mem hh)
    have hown := bytes_le_used hs hh
    unfold fileSetLen
    split
    · intro hends
      cases hends
    · rename_i len hphase
      exact rests_settle hs hh
        (Holder.settles_setLenGrown hs.bounded hown hbalanced hfile hphase result)
        (Holder.setLenGrown_idle len result)
    · rename_i len hphase
      exact rests_settle hs hh
        (Holder.settles_setLenShrunk hs.bounded hown hbalanced hfile hphase result)
        (Holder.setLenShrunk_idle len result)
  | read owner offset count seek readExact =>
    cases hcall
    exact withIdleFile_rule (P := fun r => r.2.ends = true → r.1.Rests owner)
      (fun hends => by cases hends) fun h file hh hfile hidle _ => rests_of_idle hs hh hfile hidle
  | write owner offset count seek writeAll =>
    cases hcall
    exact withIdleFile_rule (P := fun r => r.2.ends = true → r.1.Rests owner)
      (fun hends => by cases hends) fun h file hh hfile hidle _ => rests_of_idle hs hh hfile hidle
  | stop => cases hcall
  | reservation bytes stopSeen => cases hcall
  | growTo owner bytes stopSeen => cases hcall
  | shrinkTo owner bytes => cases hcall
  | drop owner => cases hcall
  | newBackend owner metadata stopSeen => cases hcall

end StorageSession

/-- The budget after every run: the counter is the sum of the live reservations and within the
limit, no call releases more than that, a refused reserve or growth changes nothing, and an ended
call of a backend leaves its reservation at its recorded length. -/
theorem temporary_storage_budget (limit : Nat) (capacityName increaseFlag : String)
    (calls : List StorageCall) :
    let s := StorageSession.machine.run
      (.new (.withLimitBytesNamed limit capacityName increaseFlag)) calls
    s.storage.used = s.reserved ∧ s.storage.used ≤ limit ∧
    (∀ call, (s.step call).2 ≠ .panicked) ∧
    (∀ bytes stopSeen e, (s.step (.reservation bytes stopSeen)).2 = .refused e →
      (s.step (.reservation bytes stopSeen)).1 = s) ∧
    (∀ owner bytes stopSeen e, (s.step (.growTo owner bytes stopSeen)).2 = .refused e →
      (s.step (.growTo owner bytes stopSeen)).1 = s) ∧
    (∀ owner len metadata stopSeen e,
      (s.step (.setLen owner len metadata stopSeen)).2 = .refused e →
      (s.step (.setLen owner len metadata stopSeen)).1.accounts = s.accounts) ∧
    ∀ call owner, call.backend = some owner → (s.step call).2.ends = true →
      (s.step call).1.Rests owner := by
  intro s
  have hs : Accounted limit s := StorageSession.accounted_run limit capacityName increaseFlag calls
  have hbounded := hs.bounded
  rw [hs.limit_eq] at hbounded
  exact ⟨hs.used, hbounded, fun call => (StorageSession.kept_step hs call).2,
    fun _ _ _ => StorageSession.refused_reservation, fun _ _ _ _ => StorageSession.refused_growTo,
    fun _ _ _ _ _ => StorageSession.refused_setLen hs, fun _ _ => StorageSession.rests_of_step hs⟩

end Excise
