import SpecLinkage.Disk.FileTree

/-! # A shared disk

A file tree as several processes use it at once: with exclusive locks on files and a
clock.

A lock belongs to an open file, not to a path.  It stays with the file when the name is
removed or given to another file, and it is freed when the descriptor is closed.

* `Disk.tryLock_isSome_iff`: a lock is granted exactly when no other descriptor has it.
* `Disk.owner?_close`: closing a descriptor frees its own lock and no other. -/

namespace SpecLinkage

/-- The number of an open file. -/
abbrev Descriptor := Nat

/-- A file opened under a descriptor. -/
structure OpenFile where
  id : FileId
  descriptor : Descriptor
  deriving DecidableEq, Repr

/-- Files, the exclusive locks on them, and the time. -/
structure Disk where
  tree : FileTree := {}
  /-- The descriptors that have a file locked. -/
  owners : SortedMap FileId Descriptor := {}
  /-- A number that no open file has yet. -/
  nextDescriptor : Descriptor := 0
  /-- Milliseconds since the epoch. -/
  now : Nat := 0

namespace Disk

/-- Open the file at a path, made empty if there is none, and the directories above it. -/
def openFile (d : Disk) (path : String) : Except AccessError OpenFile × Disk :=
  match d.tree.makeParent path with
  | .error e => (.error e, d)
  | .ok t =>
    match t.openOrCreate path with
    | .error e => (.error e, { d with tree := t })
    | .ok (id, t) =>
      (.ok ⟨id, d.nextDescriptor⟩, { d with tree := t, nextDescriptor := d.nextDescriptor + 1 })

/-- The descriptor that has a file locked. -/
def owner? (d : Disk) (id : FileId) : Option Descriptor := d.owners.get? id

/-- Lock an open file, unless another descriptor has it locked. -/
def tryLock (d : Disk) (f : OpenFile) : Option Disk :=
  match d.owner? f.id with
  | none => some { d with owners := d.owners.insert f.id f.descriptor }
  | some o => if o = f.descriptor then some d else none

/-- Close an open file, which frees its lock. -/
def close (d : Disk) (f : OpenFile) : Disk :=
  if d.owner? f.id = some f.descriptor then { d with owners := d.owners.erase f.id } else d

def overwrite (d : Disk) (f : OpenFile) (bytes : ByteArray) : Disk :=
  { d with tree := d.tree.setContent f.id bytes }

/-- Let the clock show at least the given time. -/
def waitUntil (d : Disk) (time : Nat) : Disk := { d with now := max d.now time }

/-! ## Lemmas -/

/-- A lock is granted exactly when no other descriptor has it. -/
theorem tryLock_isSome_iff (d : Disk) (f : OpenFile) :
    (d.tryLock f).isSome = true ↔ ∀ o, d.owner? f.id = some o → o = f.descriptor := by
  unfold tryLock
  cases h : d.owner? f.id with
  | none => simp
  | some o => by_cases ho : o = f.descriptor <;> simp [ho]

/-- Closing a descriptor frees its own lock and no other. -/
theorem owner?_close (d : Disk) (f : OpenFile) (id : FileId) :
    (d.close f).owner? id =
      if d.owner? id = some f.descriptor ∧ id = f.id then none else d.owner? id := by
  unfold close
  split
  · next h =>
    show (d.owners.erase f.id).get? id = _
    rw [SortedMap.get?_erase]
    by_cases hid : id = f.id
    · subst hid
      simp [h, Std.ReflCmp.compare_self]
    · have : compare id f.id ≠ .eq := fun e => hid (Std.LawfulEqCmp.eq_of_compare e)
      simp [hid, this, owner?]
  · next h =>
    by_cases hid : id = f.id
    · subst hid
      simp [h]
    · simp [hid]

end Disk

end SpecLinkage
