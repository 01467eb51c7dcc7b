import SpecLinkage.Lock.Basic
import SpecLinkage.Store.Basic

/-! # Updates under a lock

A workspace is what one process works with: the shared disk, its locks, and its copy of the
store.

An update takes a lock, reloads the store, runs a body, writes once if the body changed
something, and gives the lock back.  If the body or the write fails, the tags are those
from before the body.

* `Workspace.guarded` runs a body while a lock is held.
* `Workspace.update` is an update.
* `Workspace.update_of_locked`: without the lock nothing of the store happens. -/

namespace SpecLinkage

/-- What one process works with. -/
structure Workspace where
  me : Identity
  /-- The files, the locks on them and the time. -/
  disk : Disk := {}
  locks : SortedMap String Lock := {}
  store : Store := .inMemory

/-- Why an update failed. -/
inductive UpdateError
  /-- The lock could not be taken or given back. -/
  | lock (e : LockError)
  | store (e : StoreError)
  deriving DecidableEq, Repr

namespace Workspace

/-! ## Locks -/

/-- The lock of a name; a name that has not been given yet stands for a lock in memory. -/
def lock (w : Workspace) (name : String) : Lock := (w.locks.get? name).getD (.memory false)

/-- Keep the outcome of taking or giving back a lock. -/
def keepLock (w : Workspace) (name : String) :
    Except LockError Lock × Disk → Except LockError Unit × Workspace
  | (.error e, d) => (.error e, { w with disk := d })
  | (.ok l, d) => (.ok (), { w with disk := d, locks := w.locks.insert name l })

/-- Take a lock. -/
def acquire (name : String) (timeout : Nat) (w : Workspace) : Except LockError Unit × Workspace :=
  w.keepLock name ((w.lock name).acquire w.me timeout w.disk)

/-- Give a lock back. -/
def release (name : String) (w : Workspace) : Except LockError Unit × Workspace :=
  w.keepLock name ((w.lock name).release w.disk)

/-- Run a body while a lock is held.  The answer of the body comes with the outcome of
giving the lock back, which fails if the body has done so itself. -/
def guarded {α : Type} (name : String) (timeout : Nat) (body : Workspace → α × Workspace)
    (w : Workspace) : Except LockError (α × Except LockError Unit) × Workspace :=
  match w.acquire name timeout with
  | (.error e, w) => (.error e, w)
  | (.ok (), w) =>
    let (a, w) := body w
    let (r, w) := w.release name
    (.ok (a, r), w)

/-! ## The store -/

def keepStore {α : Type} (w : Workspace) (o : Store.Outcome α) : Except StoreError α × Workspace :=
  (o.result, { w with store := o.store, disk := { w.disk with tree := o.tree } })

def onStore {α : Type} (call : Store → FileTree → Store.Outcome α) (w : Workspace) :
    Except StoreError α × Workspace :=
  w.keepStore (call w.store w.disk.tree)

/-- The workspace with the store as the file has it. -/
def reload (w : Workspace) : Workspace := { w with store := w.store.reload w.disk.tree }

/-- The workspace at the start of an update: changes are only noted from now on. -/
def deferWrites (w : Workspace) : Workspace :=
  { w with store := { w.store with deferred := true, dirty := false } }

/-- Write what was noted, if the body went well and there is something to write. -/
def flush {α : Type} (result : Except StoreError α) (w : Workspace) :
    Except StoreError α × Workspace :=
  let w := { w with store := { w.store with deferred := false } }
  match result with
  | .error e => (.error e, w)
  | .ok a =>
    if w.store.dirty then
      match w.onStore Store.persist with
      | (.error e, w) => (.error e, w)
      | (.ok (), w) => (.ok a, w)
    else (.ok a, w)

/-- End an update: write, or bring back the given tags. -/
def settle {α : Type} (snapshot : List Tag) (result : Except StoreError α) (w : Workspace) :
    Except StoreError α × Workspace :=
  let (result, w) := flush result w
  let store := { w.store with dirty := false }
  match result with
  | .error e => (.error e, { w with store := store.restore snapshot })
  | .ok a => (.ok a, { w with store := store })

/-- Reload, run a body, and write once.  Besides its answer the body may leave a note, which
is kept whatever the outcome is. -/
def transact {ν α : Type} (body : Workspace → (ν × Except StoreError α) × Workspace)
    (w : Workspace) : (ν × Except StoreError α) × Workspace :=
  let w := w.reload
  let ((note, result), w') := body w.deferWrites
  let (result, w') := settle w.store.tags result w'
  ((note, result), w')

/-- The outcome of a body together with the outcome of giving the lock back: an error of the
lock wins. -/
def joinOutcomes {α : Type} : Except StoreError α → Except LockError Unit → Except UpdateError α
  | _, .error e => .error (.lock e)
  | .error e, .ok () => .error (.store e)
  | .ok a, .ok () => .ok a

/-- Run a body as one change of the store, under a lock. -/
def update {α : Type} (name : String) (timeout : Nat)
    (body : Workspace → Except StoreError α × Workspace) (w : Workspace) :
    Except UpdateError α × Workspace :=
  match w.guarded name timeout (transact fun w => (((), (body w).1), (body w).2)) with
  | (.error e, w) => (.error (.lock e), w)
  | (.ok ((_, result), released), w) => (joinOutcomes result released, w)

/-! ## Lemmas -/

/-- Without the lock nothing of the store happens. -/
theorem update_of_locked {α : Type} (name : String) (timeout : Nat)
    (body : Workspace → Except StoreError α × Workspace) (w : Workspace) {e : LockError}
    (h : (w.acquire name timeout).1 = .error e) :
    (w.update name timeout body).1 = .error (.lock e) ∧
      (w.update name timeout body).2.store = w.store := by
  unfold update guarded
  have hs : (w.acquire name timeout).2.store = w.store := by
    unfold acquire keepLock
    split <;> rfl
  rcases hw : w.acquire name timeout with ⟨r, w'⟩
  rw [hw] at h hs
  cases h
  exact ⟨rfl, hs⟩

end Workspace

end SpecLinkage
