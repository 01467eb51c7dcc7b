import SpecLinkage.Lock.FileLock

/-! # Advisory locks

A lock guards a sequence of reading, changing and writing.  Locks on files exclude other
processes too; locks in memory exclude threads of one process.  Both fail in the same way
when they cannot be taken in time or are given back without being held.

* `Lock.release_of_not_held`: giving back a lock that is not held fails and changes
  nothing. -/

namespace SpecLinkage

/-- A lock with its state. -/
inductive Lock
  | memory (held : Bool)
  /-- A lock on a file, with the open file while it is held. -/
  | file (lock : FileLock) (held : Option OpenFile)
  deriving DecidableEq, Repr

namespace Lock

def isHeld : Lock → Bool
  | memory held => held
  | file _ held => held.isSome

/-- Take the lock, waiting for at most `timeout` milliseconds. -/
def acquire (me : Identity) (timeout : Nat) : Lock → Disk → Except LockError Lock × Disk
  | memory true, d =>
    (.error (.timeout "<memory>" timeout .thread), d.waitUntil (d.now + timeout))
  | memory false, d => (.ok (memory true), d)
  | file l held, d =>
    match l.acquire me timeout d with
    | (.error e, d) => (.error e, d)
    | (.ok f, d) =>
      (.ok (file l (some f)), match held with
        | some old => d.close old
        | none => d)

/-- Give the lock back. -/
def release : Lock → Disk → Except LockError Lock × Disk
  | memory true, d => (.ok (memory false), d)
  | memory false, d => (.error .notHeld, d)
  | file l (some f), d => (.ok (file l none), FileLock.release f d)
  | file _ none, d => (.error .notHeld, d)

/-- Let go of the lock without giving it back, as a process does that ends: the file is
freed, the record stays. -/
def abandon : Lock → Disk → Lock × Disk
  | memory _, d => (memory false, d)
  | file l (some f), d => (file l none, d.close f)
  | file l none, d => (file l none, d)

/-! ## Lemmas -/

/-- Giving back a lock that is not held fails and changes nothing. -/
theorem release_of_not_held (l : Lock) (d : Disk) (h : l.isHeld = false) :
    l.release d = (.error .notHeld, d) := by
  cases l with
  | memory held => cases held <;> simp_all [isHeld, release]
  | file l held => cases held <;> simp_all [isHeld, release]

end Lock

end SpecLinkage
