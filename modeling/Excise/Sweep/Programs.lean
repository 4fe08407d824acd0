import Excise.Sweep.Scratch

/-!
# What a process runs

The sweep of `sweep/unix.rs`, then a session: `SessionLock::establish`, its work, and
`SessionDirectory::tear_down` with the removal that `tempfile` does last.
-/

namespace Excise.Sweep
set_option autoImplicit false

inductive SweepError where
  | os (errno : Errno)
  | tooDeep
  | nothingRemoved
  | refilled
  | mountPoint
  deriving DecidableEq

def SweepError.message : SweepError → String
  | .os _ => ""
  | .tooDeep => "a session directory is never this deep"
  | .nothingRemoved => "nothing could be removed"
  | .refilled => "a directory refilled as fast as it emptied"
  | .mountPoint => "a session directory holds a mount point"

def call (c : ScratchCall) : ScratchProgram (scratchCalls.Answer c) :=
  Program.ask (S := scratchCalls) c

/-! ## Removing what is inside -/

/-- An entry that is already gone counts as removed. -/
def removed : Except Errno Unit → Except SweepError Unit
  | .ok () | .error .NOENT => .ok ()
  | .error errno => .error (.os errno)

def unlink (dir : Nat) (name : OsString) : ScratchProgram (Except SweepError Unit) := do
  let outcome ← call (.unlink dir name)
  pure (removed outcome)

def unlinkDir (dir : Nat) (name : OsString) : ScratchProgram (Except SweepError Unit) := do
  let outcome ← call (.unlinkDir dir name)
  pure (removed outcome)

/-- Up to `batchSize` entries of a directory, other than those to keep. -/
def readBatch (dir : Nat) (keep : List OsString) :
    ScratchProgram (Except SweepError (List (OsString × FileType))) := do
  let listing ← call (.readEntries dir)
  match listing with
  | .error errno => pure (.error (.os errno))
  | .ok entries => pure (.ok ((entries.filter fun e => e.1 ∉ keep).take batchSize))

/-- The type an entry was listed with, or a fresh look at it; `none` when it is gone. -/
def entryType (dir : Nat) (name : OsString) (listed : FileType) :
    ScratchProgram (Except SweepError (Option FileType)) :=
  if listed = .Unknown then do
    let stat ← call (.statEntry dir name)
    match stat with
    | .ok fileType => pure (.ok (some fileType))
    | .error .NOENT => pure (.ok none)
    | .error errno => pure (.error (.os errno))
  else pure (.ok (some listed))

/-- The child of a directory on the session's file system, emptied by `descend` and removed. -/
def removeChild (descend : Nat → ScratchProgram (Except SweepError Unit)) (dir : Nat)
    (name : OsString) (root : Stat) (child : Nat) : ScratchProgram (Except SweepError Unit) := do
  let stat ← call (.stat child)
  match stat with
  | .error errno =>
    call (.closeEntry child)
    pure (.error (.os errno))
  | .ok stat =>
    if stat.dev ≠ root.dev then do
      call (.closeEntry child)
      pure (.error .mountPoint)
    else do
      let outcome ← descend child
      call (.closeEntry child)
      match outcome with
      | .error error => pure (.error error)
      | .ok () => unlinkDir dir name

def removeEntry (descend : Nat → ScratchProgram (Except SweepError Unit)) (dir : Nat)
    (name : OsString) (listed : FileType) (root : Stat) :
    ScratchProgram (Except SweepError Unit) := do
  let fileType ← entryType dir name listed
  match fileType with
  | .error error => pure (.error error)
  | .ok none => pure (.ok ())
  | .ok (some fileType) =>
    if fileType ≠ .Directory then unlink dir name
    else do
      let child ← call (.openEntry dir name)
      match child with
      | .ok child => removeChild descend dir name root child
      | .error .NOENT => pure (.ok ())
      | .error .NOTDIR => unlink dir name
      | .error errno => pure (.error (.os errno))

/-- Whether anything of a batch was removed, and the last failure. -/
def removeBatch (descend : Nat → ScratchProgram (Except SweepError Unit)) (dir : Nat)
    (root : Stat) : List (OsString × FileType) → Bool → Option SweepError →
    ScratchProgram (Bool × Option SweepError)
  | [], progress, failure => pure (progress, failure)
  | e :: batch, progress, failure => do
    let outcome ← removeEntry descend dir e.1 e.2 root
    match outcome with
    | .ok () => removeBatch descend dir root batch true failure
    | .error error => removeBatch descend dir root batch progress (some error)

def removePasses (descend : Nat → ScratchProgram (Except SweepError Unit)) (dir : Nat)
    (root : Stat) (keep : List OsString) : Nat → ScratchProgram (Except SweepError Unit)
  | 0 => pure (.error .refilled)
  | passes + 1 => do
    let batch ← readBatch dir keep
    match batch with
    | .error error => pure (.error error)
    | .ok [] => pure (.ok ())
    | .ok batch => do
      let outcome ← removeBatch descend dir root batch false none
      if outcome.1 then removePasses descend dir root keep passes
      else pure (.error (outcome.2.getD .nothingRemoved))

/-- `left` is how much deeper than this directory the removal may go: `maxDepth + 1` minus the
source's `depth`. -/
def removeContents : Nat → Nat → Stat → List OsString → ScratchProgram (Except SweepError Unit)
  | 0, _, _, _ => pure (.error .tooDeep)
  | left + 1, dir, root, keep =>
    removePasses (fun child => removeContents left child root []) dir root keep maxPasses

/-! ## The sweep -/

def isPrivateToUser (stat : Stat) (kind : FileType) (user : Nat) : Bool :=
  stat.fileType = kind && stat.uid = user && stat.mode &&& 0o077 = 0

/-- The end of `remove_if_dead`: only the directory that was examined, not whatever the name
refers to by now. -/
def removeSession (sessionStat : Stat) (name : OsString) :
    ScratchProgram (Except SweepError Bool) := do
  let current ← call (.statName name)
  match current with
  | .error .NOENT => pure (.ok false)
  | .error errno => pure (.error (.os errno))
  | .ok current =>
    if current.dev ≠ sessionStat.dev ∨ current.ino ≠ sessionStat.ino then pure (.ok false)
    else do
      let outcome ← call (.removeName name)
      match outcome with
      | .ok () => pure (.ok true)
      | .error .NOENT => pure (.ok false)
      | .error errno => pure (.error (.os errno))

/-- From the lock on: everything but the lock file, then the lock file, then the directory. -/
def removeLocked (session file : Nat) (sessionStat : Stat) (name : OsString) :
    ScratchProgram (Except SweepError Bool) := do
  let emptied ← removeContents (maxDepth + 1) session sessionStat [lockFileName]
  call (.unlock file)
  match emptied with
  | .error error => do
    call (.closeEntry session)
    pure (.error error)
  | .ok () => do
    let unlinked ← unlink session lockFileName
    match unlinked with
    | .error error => do
      call (.closeEntry session)
      pure (.error error)
    | .ok () => do
      call (.closeSession session name)
      removeSession sessionStat name

/-- The lock file of a candidate: its marker is read before its lock is taken. -/
def removeMarked (session file : Nat) (sessionStat : Stat) (name : OsString) (user : Nat) :
    ScratchProgram (Except SweepError Bool) := do
  let lockStat ← call (.statLock file)
  match lockStat with
  | .error errno => do
    call (.closeEntry session)
    pure (.error (.os errno))
  | .ok lockStat =>
    if !isPrivateToUser lockStat .RegularFile user || lockStat.size ≠ ownerMarker.length then do
      call (.closeEntry session)
      pure (.ok false)
    else do
      let contents ← call (.readLock file)
      match contents with
      | .error errno => do
        call (.closeEntry session)
        pure (.error (.os errno))
      | .ok contents =>
        if contents ≠ ownerMarker then do
          call (.closeEntry session)
          pure (.ok false)
        else do
          let locked ← call (.tryLock file)
          match locked with
          | .error errno => do
            call (.closeEntry session)
            pure (.error (.os errno))
          | .ok false => do
            call (.closeEntry session)
            pure (.ok false)
          | .ok true => removeLocked session file sessionStat name

def removeIfDead (parentStat : Stat) (name : OsString) (user : Nat) :
    ScratchProgram (Except SweepError Bool) := do
  let session ← call (.openSession name)
  match session with
  | .error errno => pure (.error (.os errno))
  | .ok session => do
    let sessionStat ← call (.stat session)
    match sessionStat with
    | .error errno => do
      call (.closeEntry session)
      pure (.error (.os errno))
    | .ok sessionStat =>
      if !isPrivateToUser sessionStat .Directory user || sessionStat.dev ≠ parentStat.dev then do
        call (.closeEntry session)
        pure (.ok false)
      else do
        let file ← call (.openLock session)
        match file with
        | .ok file => removeMarked session file sessionStat name user
        | .error .NOENT => do
          call (.closeEntry session)
          pure (.ok false)
        | .error errno => do
          call (.closeEntry session)
          pure (.error (.os errno))

def candidates (limit : Nat) : ScratchProgram (List OsString) := do
  let entries ← call .readParent
  pure (((entries.filter fun e =>
    e.2 ∈ [FileType.Directory, .Unknown] && sessionPrefix.isPrefixOf e.1).map Prod.fst).take limit)

def sweepEach (parentStat : Stat) (user : Nat) : List OsString → Nat → ScratchProgram Nat
  | [], count => pure count
  | name :: names, count => do
    let outcome ← removeIfDead parentStat name user
    sweepEach parentStat user names (if outcome = .ok true then count + 1 else count)

def sweep (user limit : Nat) : ScratchProgram Nat := do
  let opened ← call .openParent
  match opened with
  | .error _ => pure 0
  | .ok () => do
    let parentStat ← call .statParent
    match parentStat with
    | .error _ => pure 0
    | .ok parentStat => do
      let names ← candidates limit
      sweepEach parentStat user names 0

/-! ## The session -/

/-- `write_all`: every write takes some of what is left; `fuel` is the length of it. -/
def writeAll (file : Nat) : Nat → List UInt8 → ScratchProgram Bool
  | _, [] => pure true
  | 0, _ :: _ => pure false
  | fuel + 1, bytes => do
    let outcome ← call (.write file bytes)
    match outcome with
    | .error _ => pure false
    | .ok 0 => pure false
    | .ok count => writeAll file fuel (bytes.drop count)

/-- `SessionLock::establish(..).ok()`: the file is created empty, locked, and only then marked. -/
def establish (root : Nat) : ScratchProgram (Option Nat) := do
  let file ← call (.createLock root)
  match file with
  | .error _ => pure none
  | .ok file => do
    let locked ← call (.tryLock file)
    match locked with
    | .ok true => do
      let marked ← writeAll file ownerMarker.length ownerMarker
      if marked then pure (some file)
      else do
        call (.unlock file)
        pure none
    | _ => pure none

/-- What a session does in its own directories, by their order of creation. -/
inductive Work where
  | makeDir (parent : Nat) (name : OsString)
  | createFile (parent : Nat) (name : OsString)
  | unlink (parent : Nat) (name : OsString)
  | unlinkDir (parent : Nat) (name : OsString)

def work (dirs : List Nat) : List Work → ScratchProgram (List Nat)
  | [] => pure dirs
  | .makeDir k name :: rest =>
    match dirs[k]? with
    | none => work dirs rest
    | some dir => do
      let made ← call (.makeDir dir name)
      match made with
      | .ok child => work (dirs ++ [child]) rest
      | .error _ => work dirs rest
  | .createFile k name :: rest =>
    match dirs[k]? with
    | none => work dirs rest
    | some dir => do
      let _ ← call (.createFile dir name)
      work dirs rest
  | .unlink k name :: rest =>
    match dirs[k]? with
    | none => work dirs rest
    | some dir => do
      let _ ← call (.unlink dir name)
      work dirs rest
  | .unlinkDir k name :: rest =>
    match dirs[k]? with
    | none => work dirs rest
    | some dir => do
      let _ ← call (.unlinkDir dir name)
      work dirs rest

/-- What a removal of the session's own directory makes of `Work`: it creates nothing. -/
def Work.removes : Work → Bool
  | .unlink _ _ | .unlinkDir _ _ => true
  | .makeDir _ _ | .createFile _ _ => false

def releaseLock : Option Nat → ScratchProgram Unit
  | some file => call (.release file)
  | none => pure ()

/-- The lock is released first; the directory goes last. -/
def tearDown (root : Nat) (dirs : List Nat) (lock : Option Nat) (removals : List Work) :
    ScratchProgram Unit := do
  releaseLock lock
  let _ ← work dirs (removals.filter Work.removes)
  let _ ← call (.removeRoot root)
  pure ()

structure Plan where
  user : Nat
  limit : Nat
  work : List Work
  removals : List Work

/-- A start sweeps before it creates its own session. -/
def process (plan : Plan) : ScratchProgram Unit := do
  let _ ← sweep plan.user plan.limit
  let root ← call .makeSession
  match root with
  | .error _ => pure ()
  | .ok root => do
    let lock ← establish root
    let dirs ← work [root] plan.work
    tearDown root dirs lock plan.removals

end Excise.Sweep
