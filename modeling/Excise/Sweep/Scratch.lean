import Excise.Lib.Processes
import Excise.Path

/-!
# Session directories and the startup sweep

The scratch parent as the Unix calls of `session_lock.rs`, `storage.rs` and `sweep/unix.rs` see
it, and the programs that make them: the sweep every start runs, setting up a session, its work
and its end. A call is one step; what the file system may decide (names, numbers, failures) is
the step's `Chance`.
-/

namespace Excise.Sweep
set_option autoImplicit false

/-! ## The scratch parent -/

inductive FileType where
  | Directory
  | RegularFile
  | Unknown
  deriving DecidableEq

inductive Errno where
  | NOENT
  | EXIST
  | NOTDIR
  | NOTEMPTY
  | fault (code : Nat)
  deriving DecidableEq

structure Stat where
  fileType : FileType
  uid : Nat
  mode : Nat
  dev : Nat
  ino : Nat
  size : Nat

/-- The lock file is the one file whose contents matter. -/
inductive Node where
  | lock
  | file
  | dir (id : Nat)
  deriving DecidableEq

/-- A directory of the session of process `owner`; its top one stands in the parent as `name`. -/
structure Directory where
  owner : Nat
  top : Bool
  name : OsString
  stat : Stat
  entries : List (OsString × Node)

/-- How far a process is with its session. -/
inductive Phase where
  | fresh
  | working
  | released
  | dead
  deriving DecidableEq

/-- A directory that a sweep let go of, under its name; `looked` that the name was found to refer to
it still. -/
structure LeftName where
  name : OsString
  directory : Nat
  looked : Bool

/-- `contents` and `holder` are those of a session's lock file. `closing` and `window` say where
a sweep stands between letting go of a directory, or unlinking its lock file, and removing it
from the parent; `stripped` that a session removed its own lock file. -/
structure Scratch where
  parent : List (OsString × Nat)
  dirs : Nat → Directory
  nextDir : Nat
  contents : Nat → List UInt8
  holder : Nat → Option Nat
  phase : Nat → Phase
  opened : List (Nat × Nat)
  stripped : Nat → Bool
  closing : Nat → Option LeftName
  window : Nat → Option Nat

def noDirectory : Directory := ⟨0, false, [], ⟨.Directory, 0, 0, 0, 0, 0⟩, []⟩

def Scratch.empty : Scratch where
  parent := []
  dirs := fun _ => noDirectory
  nextDir := 0
  contents := fun _ => []
  holder := fun _ => none
  phase := fun _ => .fresh
  opened := []
  stripped := fun _ => false
  closing := fun _ => none
  window := fun _ => none

/-- `session.lock`. -/
def lockFileName : OsString :=
  [0x73, 0x65, 0x73, 0x73, 0x69, 0x6f, 0x6e, 0x2e, 0x6c, 0x6f, 0x63, 0x6b]

/-- `excise scan-store session 1` and a newline. -/
def ownerMarker : List UInt8 :=
  [0x65, 0x78, 0x63, 0x69, 0x73, 0x65, 0x20, 0x73, 0x63, 0x61, 0x6e, 0x2d, 0x73, 0x74, 0x6f, 0x72,
    0x65, 0x20, 0x73, 0x65, 0x73, 0x73, 0x69, 0x6f, 0x6e, 0x20, 0x31, 0x0a]

/-- `.excise-scan-`. -/
def sessionPrefix : OsString :=
  [0x2e, 0x65, 0x78, 0x63, 0x69, 0x73, 0x65, 0x2d, 0x73, 0x63, 0x61, 0x6e, 0x2d]

def maxDepth : Nat := 8

def batchSize : Nat := 256

def maxPasses : Nat := 4096

/-! ## Calls -/

inductive ScratchCall where
  | openParent
  | statParent
  | readParent
  | openSession (name : OsString)
  | stat (dir : Nat)
  | openLock (dir : Nat)
  | statLock (file : Nat)
  | readLock (file : Nat)
  | tryLock (file : Nat)
  | readEntries (dir : Nat)
  | statEntry (dir : Nat) (name : OsString)
  | openEntry (dir : Nat) (name : OsString)
  | closeEntry (dir : Nat)
  | unlink (dir : Nat) (name : OsString)
  | unlinkDir (dir : Nat) (name : OsString)
  | unlock (file : Nat)
  | closeSession (dir : Nat) (name : OsString)
  | statName (name : OsString)
  | removeName (name : OsString)
  | makeSession
  | createLock (dir : Nat)
  | write (file : Nat) (bytes : List UInt8)
  | release (file : Nat)
  | makeDir (dir : Nat) (name : OsString)
  | createFile (dir : Nat) (name : OsString)
  | removeRoot (dir : Nat)
  deriving DecidableEq

def scratchCalls : Signature where
  Call := ScratchCall
  Answer
    | .openParent | .unlink _ _ | .unlinkDir _ _ | .removeName _ | .createFile _ _
    | .removeRoot _ => Except Errno Unit
    | .statParent | .stat _ | .statLock _ | .statName _ => Except Errno Stat
    | .readParent => List (OsString × FileType)
    | .openSession _ | .openLock _ | .openEntry _ _ | .makeSession | .createLock _ | .makeDir _ _
    | .write _ _ => Except Errno Nat
    | .readLock _ => Except Errno (List UInt8)
    | .tryLock _ => Except Errno Bool
    | .readEntries _ => Except Errno (List (OsString × FileType))
    | .statEntry _ _ => Except Errno FileType
    | .closeEntry _ | .unlock _ | .closeSession _ _ | .release _ => Unit

abbrev ScratchProgram := Program scratchCalls

/-- What the system decides in one step: a failure of the call, whether a listing leaves out
file types, and the attributes, the number and the random suffix of something new. -/
structure Chance where
  fault : Option Nat
  untyped : Bool
  stat : Stat
  suffix : OsString
  count : Nat

namespace Scratch
variable (s : Scratch)

def lookup (name : OsString) : Option Nat := s.parent.lookup name

def entry (dir : Nat) (name : OsString) : Option Node := (s.dirs dir).entries.lookup name

def setDir (dir : Nat) (directory : Directory) : Scratch :=
  { s with dirs := Function.update s.dirs dir directory }

def setEntries (dir : Nat) (entries : List (OsString × Node)) : Scratch :=
  s.setDir dir { s.dirs dir with entries := entries }

def addDir (directory : Directory) : Scratch :=
  { s.setDir s.nextDir directory with nextDir := s.nextDir + 1 }

def dropEntry (dir : Nat) (name : OsString) : Scratch :=
  s.setEntries dir ((s.dirs dir).entries.filter fun e => e.1 ≠ name)

def unbind (name : OsString) : Scratch := { s with parent := s.parent.filter fun e => e.1 ≠ name }

/-- Whether something still refers to a directory with this number. -/
def inodeInUse (ino : Nat) : Bool :=
  (s.parent.map Prod.snd ++ s.opened.map Prod.snd).any fun d => (s.dirs d).stat.ino = ino

/-- A sweep is through with a name, one way or the other. -/
def leave (pid : Nat) : Scratch :=
  { s with
    closing := Function.update s.closing pid none
    window := Function.update s.window pid none }

/-- The name still refers to the directory, as it seems. -/
def look (pid : Nat) : Scratch :=
  { s with
    closing := Function.update s.closing pid
      ((s.closing pid).map fun left => { left with looked := true }) }

def nodeType : Node → FileType
  | .lock | .file => .RegularFile
  | .dir _ => .Directory

def listed (untyped : Bool) (entries : List (OsString × Node)) : List (OsString × FileType) :=
  entries.map fun e => (e.1, if untyped then .Unknown else nodeType e.2)

/-- The removal of a lock file is remembered: a session's own doing, or a sweep under way. -/
def noteLock (pid dir : Nat) : Node → Scratch
  | .lock =>
    if (s.dirs dir).owner = pid then { s with stripped := Function.update s.stripped pid true }
    else { s with window := Function.update s.window pid (some dir) }
  | .file | .dir _ => s

/-- `unlinkat` inside a directory that is held open. -/
def unlinkAt (pid dir : Nat) (name : OsString) : Scratch × Except Errno Unit :=
  match s.entry dir name with
  | none => (s, .error .NOENT)
  | some (.dir _) => (s, .error (.fault 0))
  | some node => ((s.noteLock pid dir node).dropEntry dir name, .ok ())

def unlinkDirAt (dir : Nat) (name : OsString) : Scratch × Except Errno Unit :=
  match s.entry dir name with
  | none => (s, .error .NOENT)
  | some (.dir child) =>
    if (s.dirs child).entries = [] then (s.dropEntry dir name, .ok ()) else (s, .error .NOTEMPTY)
  | some _ => (s, .error .NOTDIR)

/-- The last look at a name: from here a sweep goes on only with the directory it examined. -/
def statNameAt (pid : Nat) (name : OsString) : Scratch × Except Errno Stat :=
  match s.lookup name with
  | none => (s.leave pid, .error .NOENT)
  | some d =>
    if (s.closing pid).any fun left =>
        (s.dirs left.directory).stat.ino = (s.dirs d).stat.ino &&
          (s.dirs left.directory).stat.dev = (s.dirs d).stat.dev then
      (s.look pid, .ok (s.dirs d).stat)
    else (s.leave pid, .ok (s.dirs d).stat)

/-- `rmdir` of a name in the parent: whatever it refers to, if that is empty. -/
def removeNameAt (pid : Nat) (name : OsString) : Scratch × Except Errno Unit :=
  match s.lookup name with
  | none => (s.leave pid, .error .NOENT)
  | some d =>
    if (s.dirs d).entries = [] then ((s.unbind name).leave pid, .ok ())
    else (s.leave pid, .error .NOTEMPTY)

def makeSessionAt (pid : Nat) (e : Chance) : Scratch × Except Errno Nat :=
  let name := sessionPrefix ++ e.suffix
  if s.phase pid ≠ .fresh then (s, .error (.fault 0))
  else if (s.lookup name).isSome || s.inodeInUse e.stat.ino then (s, .error .EXIST)
  else
    ({ s.addDir ⟨pid, true, name, e.stat, []⟩ with
        parent := s.parent ++ [(name, s.nextDir)]
        phase := Function.update s.phase pid .working },
      .ok s.nextDir)

def makeDirAt (dir : Nat) (name : OsString) (e : Chance) : Scratch × Except Errno Nat :=
  if (s.entry dir name).isSome then (s, .error .EXIST)
  else
    ((s.addDir ⟨(s.dirs dir).owner, false, name, e.stat, []⟩).setEntries dir
        ((s.dirs dir).entries ++ [(name, .dir s.nextDir)]),
      .ok s.nextDir)

end Scratch

/-- A call that fails leaves everything as it is. -/
def faulty {α : Type} (s : Scratch) (e : Chance) (next : Scratch × Except Errno α) :
    Scratch × Except Errno α :=
  match e.fault with
  | some code => (s, .error (.fault code))
  | none => next

def perform (pid : Nat) (c : ScratchCall) (e : Chance) (s : Scratch) :
    Scratch × scratchCalls.Answer c :=
  match c with
  | .openParent => faulty s e (s, .ok ())
  | .statParent => faulty s e (s, .ok e.stat)
  | .readParent => (s, (s.parent.map fun entry =>
      (entry.1, if e.untyped then .Unknown else .Directory)).take (e.fault.getD s.parent.length))
  | .openSession name => faulty s e <|
    match s.lookup name with
    | none => (s, .error .NOENT)
    | some d => ({ s with opened := (pid, d) :: s.opened }, .ok d)
  | .stat d => faulty s e (s, .ok (s.dirs d).stat)
  | .openLock d => faulty s e <|
    match s.entry d lockFileName with
    | some .lock => (s, .ok (s.dirs d).owner)
    | some _ => (s, .error (.fault 0))
    | none => (s, .error .NOENT)
  | .statLock q => faulty s e (s, .ok { e.stat with size := (s.contents q).length })
  | .readLock q => faulty s e (s, .ok (s.contents q))
  | .tryLock q => faulty s e <|
    match s.holder q with
    | some _ => (s, .ok false)
    | none => ({ s with holder := Function.update s.holder q (some pid) }, .ok true)
  | .readEntries d => faulty s e (s, .ok (Scratch.listed e.untyped (s.dirs d).entries))
  | .statEntry d name => faulty s e <|
    match s.entry d name with
    | none => (s, .error .NOENT)
    | some node => (s, .ok (Scratch.nodeType node))
  | .openEntry d name => faulty s e <|
    match s.entry d name with
    | none => (s, .error .NOENT)
    | some (.dir child) => ({ s with opened := (pid, child) :: s.opened }, .ok child)
    | some _ => (s, .error .NOTDIR)
  | .closeEntry d => ({ s with opened := s.opened.erase (pid, d) }, ())
  | .unlink d name => faulty s e (s.unlinkAt pid d name)
  | .unlinkDir d name => faulty s e (s.unlinkDirAt d name)
  | .unlock q => (if s.holder q = some pid then
      { s with holder := Function.update s.holder q none } else s, ())
  | .closeSession d name =>
    ({ s with
        opened := s.opened.erase (pid, d)
        closing := Function.update s.closing pid (some ⟨name, d, false⟩) }, ())
  | .statName name =>
    match e.fault with
    | some code => (s.leave pid, .error (.fault code))
    | none => s.statNameAt pid name
  | .removeName name =>
    match e.fault with
    | some code => (s.leave pid, .error (.fault code))
    | none => s.removeNameAt pid name
  | .makeSession => faulty s e (s.makeSessionAt pid e)
  | .createLock d => faulty s e <|
    if (s.entry d lockFileName).isSome then (s, .error .EXIST)
    else (s.setEntries d ((s.dirs d).entries ++ [(lockFileName, .lock)]), .ok (s.dirs d).owner)
  | .write q bytes => faulty s e <|
    let written := bytes.take e.count
    ({ s with contents := Function.update s.contents q (s.contents q ++ written) },
      .ok written.length)
  | .release q =>
    ({ s with
        holder := if s.holder q = some pid then Function.update s.holder q none else s.holder
        phase := Function.update s.phase pid .released }, ())
  | .makeDir d name => faulty s e (s.makeDirAt d name e)
  | .createFile d name => faulty s e <|
    if (s.entry d name).isSome then (s, .error .EXIST)
    else (s.setEntries d ((s.dirs d).entries ++ [(name, .file)]), .ok ())
  | .removeRoot d => faulty s e <|
    if s.lookup (s.dirs d).name ≠ some d then (s, .error .NOENT)
    else if (s.dirs d).entries = [] then (s.unbind (s.dirs d).name, .ok ())
    else (s, .error .NOTEMPTY)

/-- The system closes what a dead process held and drops its locks. -/
def crash (pid : Nat) (s : Scratch) : Scratch :=
  { s.leave pid with
    holder := fun q => if s.holder q = some pid then none else s.holder q
    opened := s.opened.filter fun o => o.1 ≠ pid
    phase := Function.update s.phase pid .dead }

def scratchSystem : Shared scratchCalls Scratch Chance := ⟨perform, crash⟩

end Excise.Sweep
