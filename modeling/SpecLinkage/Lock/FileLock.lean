import SpecLinkage.Lock.Metadata

/-! # Locks on files

A lock is an exclusive lock on a file, which the holder marks with a record about itself.
A holder whose record is older than a threshold counts as dead: its file is removed, and
the lock is taken on a new file at the same path.

Taking a lock is a sequence of steps on the disk, between which other processes may act:

    opening → locking → emptying → writing → acquired
                 ↓ busy
             inspecting → confirming → removing → opening
                 ↓ alive      ↓ changed
              waiting → sleeping → opening

`FileLock.step` is one such step, and `FileLock.acquire` runs the steps when nobody acts in
between.

`FileLock.step_final`: an attempt that has ended stays as it is.
`FileLock.now_lt_of_sleeping`: a pause ends later than it begins. -/

namespace SpecLinkage

/-- Who is in the way of an attempt. -/
inductive LockHolder
  /-- The holder on record, as seen at a time. -/
  | recorded (m : LockMetadata) (now : Nat)
  /-- Someone who has left no record. -/
  | unknown
  /-- Another thread of the same process. -/
  | thread
  deriving DecidableEq, Repr

/-- The holder in words. -/
def LockHolder.describe : LockHolder → String
  | recorded m now => m.describe now
  | unknown => "unknown holder"
  | thread => "another thread"

/-- Why a lock could not be taken or given back. -/
inductive LockError
  /-- Someone else held the lock until the time was over. -/
  | timeout (path : String) (waited : Nat) (holder : LockHolder)
  /-- The lock file could not be used. -/
  | access (e : AccessError)
  /-- The lock was not held. -/
  | notHeld
  deriving DecidableEq, Repr

def LockError.message : LockError → String
  | timeout path waited holder =>
    "Timed out after " ++ toString waited ++ "ms waiting for lock " ++ path ++
      " (held by " ++ holder.describe ++ ")"
  | access e => "Lock IO error: " ++ e.message
  | notHeld => "Lock is not held"

/-- A lock on a file. -/
structure FileLock where
  /-- The lock file. -/
  path : String
  /-- Milliseconds between two attempts. -/
  pollInterval : Nat := 500
  /-- Age in milliseconds from which on a holder counts as dead. -/
  staleAfter : Nat := 300000
  deriving DecidableEq, Repr

/-- How far an attempt to take a lock has come. -/
inductive LockPhase
  /-- About to open the lock file. -/
  | opening
  /-- About to lock the open file. -/
  | locking (f : OpenFile)
  /-- The file is locked; about to empty it. -/
  | emptying (f : OpenFile) (m : LockMetadata)
  /-- The file is locked and empty; about to write the record. -/
  | writing (f : OpenFile) (m : LockMetadata)
  /-- The file is locked by someone else; about to read who it is. -/
  | inspecting
  /-- The holder is old; about to see whether it is still the same. -/
  | confirming (m : LockMetadata)
  /-- The holder is still the same; about to remove its file. -/
  | removing (m : LockMetadata)
  /-- Someone alive has the lock; about to look at the clock. -/
  | waiting (m : Option LockMetadata)
  /-- Pausing until a time. -/
  | sleeping (wake : Nat)
  /-- The lock is taken. -/
  | acquired (f : OpenFile)
  /-- The attempt has failed. -/
  | failed (e : LockError)
  deriving DecidableEq, Repr

/-- Whether an attempt has ended. -/
def LockPhase.isFinal : LockPhase → Bool
  | acquired _ | failed _ => true
  | _ => false

namespace FileLock

def forStore (storePath : String) : FileLock where
  path := storePath ++ ".lock"

/-- The holder on record. -/
def holder? (l : FileLock) (d : Disk) : Option LockMetadata := LockMetadata.read? d.tree l.path

/-- The phase after the holder has been read: a dead one is to be removed. -/
def judge (l : FileLock) (now : Nat) : Option LockMetadata → LockPhase
  | none => .waiting none
  | some m => if m.age now < l.staleAfter then .waiting (some m) else .confirming m

/-- One step of an attempt that began at `start` and may last for `timeout`
milliseconds. -/
def step (l : FileLock) (me : Identity) (start timeout : Nat) :
    LockPhase → Disk → LockPhase × Disk
  | .opening, d =>
    match d.openFile l.path with
    | (.error e, d) => (.failed (.access e), d)
    | (.ok f, d) => (.locking f, d)
  | .locking f, d =>
    match d.tryLock f with
    | some d => (.emptying f (.ofIdentity me d.now), d)
    | none => (.inspecting, d)
  | .emptying f m, d => (.writing f m, d.overwrite f .empty)
  | .writing f m, d => (.acquired f, d.overwrite f m.text.toUTF8)
  | .inspecting, d => (l.judge d.now (l.holder? d), d)
  | .confirming m, d => (if l.holder? d = some m then .removing m else .waiting (some m), d)
  | .removing _, d =>
    match d.tree.removeFile l.path with
    | .ok t => (.opening, { d with tree := t })
    | .error .missing => (.opening, d)
    | .error e => (.failed (.access e), d)
  | .waiting m, d =>
    let waited := d.now - start
    if waited ≥ timeout then
      let holder := match m with
        | some m => .recorded m d.now
        | none => .unknown
      (.failed (.timeout l.path waited holder), d)
    else (.sleeping (d.now + max 1 (min l.pollInterval (timeout - waited))), d)
  | .sleeping wake, d => (if d.now < wake then .sleeping wake else .opening, d)
  | .acquired f, d => (.acquired f, d)
  | .failed e, d => (.failed e, d)

/-- Run an attempt to its end while nobody else acts; pauses let the clock go on. -/
def run (l : FileLock) (me : Identity) (start timeout : Nat) :
    (fuel : Nat) → LockPhase → Disk → LockPhase × Disk
  | 0, p, d => (p, d)
  | fuel + 1, p, d =>
    if p.isFinal then (p, d)
    else
      let d := match p with
        | .sleeping wake => d.waitUntil wake
        | _ => d
      let (p, d) := l.step me start timeout p d
      run l me start timeout fuel p d

/-- Try to take the lock for at most `timeout` milliseconds.  Each round that does not end
the attempt takes a millisecond or more, so the steps suffice. -/
def acquire (l : FileLock) (me : Identity) (timeout : Nat) (d : Disk) :
    Except LockError OpenFile × Disk :=
  match l.run me d.now timeout (8 * (timeout + 3)) .opening d with
  | (.acquired f, d) => (.ok f, d)
  | (.failed e, d) => (.error e, d)
  | (_, d) => (.error (.timeout l.path timeout .unknown), d)

/-- Give the lock back: the file is emptied and freed, but stays. -/
def release (f : OpenFile) (d : Disk) : Disk := (d.overwrite f .empty).close f

/-! ## Lemmas -/

/-- An attempt that has ended stays as it is. -/
theorem step_final (l : FileLock) (me : Identity) (start timeout : Nat) (p : LockPhase) (d : Disk)
    (h : p.isFinal = true) : l.step me start timeout p d = (p, d) := by
  cases p <;> simp [LockPhase.isFinal] at h <;> rfl

/-- A pause ends later than it begins, so an attempt does not stand still. -/
theorem now_lt_of_sleeping (l : FileLock) (me : Identity) {start timeout wake : Nat}
    {m : Option LockMetadata} {d d' : Disk}
    (h : l.step me start timeout (.waiting m) d = (.sleeping wake, d')) : d.now < wake := by
  simp only [step] at h
  split at h
  · cases h
  · obtain ⟨hw, -⟩ := Prod.mk.inj h
    obtain rfl := LockPhase.sleeping.inj hw
    omega

end FileLock

end SpecLinkage
