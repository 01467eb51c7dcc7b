import SpecLinkage.Proofs.Lock.Course

/-! # Handles at one lock file

Any number of handles take a lock on one file, give it back, or are dropped, one whole operation
after the other.  Each of them has an age of its own from which on it takes a holder for dead.  When
that happens the name is given to a new file, and the old holder does not know: it still has the old
file locked, which has no name any more.

* `Custody.step` is one operation, `Custody.run` a number of them.
* `Custody.IsHolder` is who has locked the file that is at the path now.
* `Custody.Sound` is the invariant, with one lemma for each kind of operation.
* `Custody.Lawful` is what the operations do in a state, and `Custody.lawful_run` says that they do
  it in every state that can be reached. -/

namespace SpecLinkage

/-! ## Locks on a disk -/

namespace Disk

theorem LocksNumbered.close {d : Disk} (h : d.LocksNumbered) (f : OpenFile) :
    (d.close f).LocksNumbered := by
  have hold : ∀ id o, (d.close f).owner? id = some o → d.owner? id = some o := by
    intro id o ho
    rw [owner?_close] at ho
    split at ho
    · cases ho
    · exact ho
  have hnext : (d.close f).nextDescriptor = d.nextDescriptor := by
    rw [Disk.close]
    split <;> rfl
  refine ⟨fun id o ho => ?_, fun id o ho => ?_⟩
  · rw [Lock.tree_close]
    exact h.files id o (hold id o ho)
  · rw [hnext]
    exact h.descriptors id o (hold id o ho)

/-- Closing a file does not free another one. -/
theorem owner?_close_of_ne (d : Disk) {f : OpenFile} {id : FileId} (h : id ≠ f.id) :
    (d.close f).owner? id = d.owner? id := by
  rw [owner?_close, if_neg fun hc => h hc.2]

theorem owner?_close_self {d : Disk} {f : OpenFile} (h : d.owner? f.id = some f.descriptor) :
    (d.close f).owner? f.id = none := by
  rw [owner?_close, if_pos ⟨h, rfl⟩]

theorem now_close (d : Disk) (f : OpenFile) : (d.close f).now = d.now := by
  rw [Disk.close]
  split <;> rfl

theorem now_closeOld (d : Disk) (held : Option OpenFile) : (d.closeOld held).now = d.now := by
  cases held
  · rfl
  · exact now_close _ _

theorem LocksNumbered.closeOld {d : Disk} (h : d.LocksNumbered) (held : Option OpenFile) :
    (d.closeOld held).LocksNumbered := by
  cases held with
  | none => exact h
  | some old => exact h.close old

theorem owner?_closeOld (d : Disk) {held : Option OpenFile} {id : FileId}
    (h : ∀ old, held = some old → id ≠ old.id) : (d.closeOld held).owner? id = d.owner? id := by
  cases held with
  | none => rfl
  | some old => exact owner?_close_of_ne d (h old rfl)

/-- From `d` to `d'` the contents of a file may have changed, and nothing else but the time. -/
structure Rewritten (id : FileId) (d d' : Disk) : Prop where
  nodes : ∀ loc, d'.tree.node? loc = d.tree.node? loc
  nextId : d'.tree.nextId = d.tree.nextId
  contents : ∀ id', id' ≠ id → d'.tree.content id' = d.tree.content id'
  owners : d'.owners = d.owners
  descriptors : d'.nextDescriptor = d.nextDescriptor

theorem Rewritten.refl (id : FileId) (d : Disk) : d.Rewritten id d :=
  ⟨fun _ => rfl, rfl, fun _ _ => rfl, rfl, rfl⟩

theorem rewritten_overwrite (d : Disk) (f : OpenFile) (bytes : ByteArray) :
    Rewritten f.id d (d.overwrite f bytes) where
  nodes _ := rfl
  nextId := rfl
  contents id' hid := by rw [overwrite, FileTree.content_setContent, if_neg hid]
  owners := rfl
  descriptors := rfl

theorem Rewritten.owner? {id : FileId} {d d' : Disk} (h : d.Rewritten id d') (id' : FileId) :
    d'.owner? id' = d.owner? id' := by
  rw [Disk.owner?, h.owners, Disk.owner?]

theorem Rewritten.locksNumbered {id : FileId} {d d' : Disk} (h : d.Rewritten id d')
    (hd : d.LocksNumbered) : d'.LocksNumbered := by
  refine ⟨fun id' o ho => ?_, fun id' o ho => ?_⟩
  · rw [h.nextId]
    exact hd.files id' o ((h.owner? id').symm.trans ho)
  · rw [h.descriptors]
    exact hd.descriptors id' o ((h.owner? id').symm.trans ho)

/-- Nobody has locked the file at a place, and the locks on other files are in order. -/
structure FreeAt (d : Disk) (place : Location) : Prop where
  numbered : d.LocksNumbered
  free : ∀ id, d.tree.node? place = some (.file id) → d.owner? id = none

end Disk

def Lock.openFile? : Lock → Option OpenFile
  | .memory _ => none
  | .file _ held => held

namespace FileLock

variable {l : FileLock} {d d' : Disk} {id : FileId}

/-- The lock file is still there when directories stay and the file keeps its place. -/
theorem Stands.mono (h : l.Stands d id)
    (hd : ∀ loc, d.tree.node? loc = some .directory → d'.tree.node? loc = some .directory)
    (hn : d'.tree.node? l.place = some (.file id)) : l.Stands d' id :=
  ⟨FileTree.makeParent_of_made h.made hd, FileTree.locate_mono h.located hd, hn⟩

/-- The holder is who is on record in the bytes of the file. -/
theorem Stands.holder?_eq (h : l.Stands d id) :
    l.holder? d = LockMetadata.ofBytes? (d.tree.content id) := by
  rw [holder?, LockMetadata.read?, FileTree.readText_of_locate h.located, h.placed,
    LockMetadata.ofBytes?]
  dsimp only
  rcases String.fromUTF8? (d.tree.content id) with _ | s <;> rfl

end FileLock

/-! ## Handles -/

/-- Who takes the lock through a handle, and how. -/
structure Claimant where
  me : Identity
  pollInterval : Nat
  /-- Age in milliseconds from which on it takes a holder for dead. -/
  staleAfter : Nat

def Claimant.lock (c : Claimant) (path : String) : FileLock := ⟨path, c.pollInterval, c.staleAfter⟩

/-- The disk and the handles on a lock file. -/
structure Custody (ι : Type) where
  disk : Disk
  /-- The files that the handles have locked and not given back, as far as they know. -/
  held : ι → Option OpenFile
  /-- When a handle has taken the lock. -/
  since : ι → Nat

/-- An operation of a handle, or time that passes. -/
inductive CustodyEvent (ι : Type)
  | acquire (i : ι) (timeout : Nat)
  | release (i : ι)
  /-- A handle is dropped without giving the lock back. -/
  | crash (i : ι)
  | wait (ms : Nat)

namespace Custody

variable {ι : Type}

/-- The handles before one of them has taken the lock. -/
def start (d : Disk) : Custody ι := ⟨d, fun _ => none, fun _ => 0⟩

/-- Whether a handle has locked the file that is at the path now. -/
def IsHolder (path : String) (s : Custody ι) (i : ι) : Prop :=
  ∃ f, s.held i = some f ∧ s.disk.tree.node? (DiskPath.resolve path) = some (.file f.id) ∧
    s.disk.owner? f.id = some f.descriptor

section Operations

variable (c : ι → Claimant) (path : String) (s : Custody ι) (i : ι)

/-- The lock of a handle. -/
def lock : Lock := .file ((c i).lock path) (s.held i)

/-- The record that a handle has written when it took the lock. -/
def record : LockMetadata := .ofIdentity (c i).me (s.since i)

/-- What comes of an attempt to take the lock. -/
def attempt (timeout : Nat) : Except LockError Lock × Disk :=
  (s.lock c path i).acquire (c i).me timeout s.disk

end Operations

section Steps

variable [DecidableEq ι]

/-- A handle has another lock than before. -/
def put (s : Custody ι) (i : ι) (l : Lock) (d : Disk) : Custody ι :=
  { s with disk := d, held := Function.update s.held i l.openFile? }

variable (c : ι → Claimant) (path : String)

def step (s : Custody ι) : CustodyEvent ι → Custody ι
  | .acquire i timeout =>
    match s.attempt c path i timeout with
    | (.error _, d) => { s with disk := d }
    | (.ok l, d) => { s.put i l d with since := Function.update s.since i d.now }
  | .release i =>
    match (s.lock c path i).release s.disk with
    | (.error _, d) => { s with disk := d }
    | (.ok l, d) => s.put i l d
  | .crash i => s.put i ((s.lock c path i).abandon s.disk).1 ((s.lock c path i).abandon s.disk).2
  | .wait ms => { s with disk := s.disk.waitUntil (s.disk.now + ms) }

def run (s : Custody ι) (es : List (CustodyEvent ι)) : Custody ι := es.foldl (step c path) s

end Steps

/-! ## The invariant -/

/-- Who believes to have the lock has a file locked that no other handle has, and that has no name
but the path.  If it is still there then it has the record of the handle in it. -/
structure Sound (c : ι → Claimant) (path : String) (s : Custody ι) : Prop where
  numbered : s.disk.LocksNumbered
  owned : ∀ i f, s.held i = some f → s.disk.owner? f.id = some f.descriptor
  apart : ∀ i j f g, s.held i = some f → s.held j = some g → f.id = g.id → i = j
  named : ∀ i f, s.held i = some f → s.disk.tree.OnlyAt f.id (DiskPath.resolve path)
  kept : ∀ id o, s.disk.tree.node? (DiskPath.resolve path) = some (.file id) →
    s.disk.owner? id = some o → ∃ i, s.held i = some ⟨id, o⟩
  marked : ∀ i f, s.held i = some f →
    s.disk.tree.node? (DiskPath.resolve path) = some (.file f.id) →
    ((c i).lock path).Stands s.disk f.id ∧
      s.disk.tree.content f.id = (s.record c i).text.toUTF8

variable {c : ι → Claimant} {path : String} {s : Custody ι} {i j : ι} {f : OpenFile} {d : Disk}

theorem sound_start (h : d.FreeAt (DiskPath.resolve path)) : (start d).Sound c path where
  numbered := h.numbered
  owned := by rintro i f ⟨⟩
  apart := by rintro i j f g ⟨⟩
  named := by rintro i f ⟨⟩
  kept id o hn ho := by
    have hfree := h.free id hn
    have hlocked : d.owner? id = some o := ho
    rw [hfree] at hlocked
    cases hlocked
  marked := by rintro i f ⟨⟩

/-- Who has locked the file at the path is one of the handles, and it is the only one. -/
theorem Sound.eq_of_isHolder (h : s.Sound c path) (hi : s.IsHolder path i)
    (hj : s.IsHolder path j) : i = j := by
  obtain ⟨f, hf, hfn, -⟩ := hi
  obtain ⟨g, hg, hgn, -⟩ := hj
  exact h.apart i j f g hf hg (FileTree.eq_of_node? hfn hgn)

/-- A handle that is not the holder has a file that is not at the path. -/
theorem Sound.node?_ne (h : s.Sound c path) (hf : s.held i = some f)
    (hi : ¬s.IsHolder path i) :
    s.disk.tree.node? (DiskPath.resolve path) ≠ some (.file f.id) :=
  fun hn => hi ⟨f, hf, hn, h.owned i f hf⟩

/-- The file of the holder, with its record. -/
theorem Sound.stands (h : s.Sound c path) (hi : s.IsHolder path i) (l : FileLock)
    (hl : l.path = path) :
    ∃ f, s.held i = some f ∧ l.Stands s.disk f.id ∧
      s.disk.tree.content f.id = (s.record c i).text.toUTF8 := by
  obtain ⟨f, hf, hn, -⟩ := hi
  obtain ⟨hstands, htext⟩ := h.marked i f hf hn
  subst hl
  exact ⟨f, hf, ⟨hstands.made, hstands.located, hstands.placed⟩, htext⟩

theorem Sound.locked_by (h : s.Sound c path) {id : FileId} {o : Descriptor}
    (hn : s.disk.tree.node? (DiskPath.resolve path) = some (.file id))
    (ho : s.disk.owner? id = some o) : ∃ i, s.IsHolder path i ∧ s.held i = some ⟨id, o⟩ := by
  obtain ⟨i, hi⟩ := h.kept id o hn ho
  exact ⟨i, ⟨_, hi, hn, ho⟩, hi⟩

theorem Sound.bytesAt?_of_isHolder (h : s.Sound c path) (hi : s.IsHolder path i) :
    s.disk.tree.bytesAt? (DiskPath.resolve path) = some (s.record c i).text.toUTF8 := by
  obtain ⟨f, -, hstands, htext⟩ := h.stands hi ((c i).lock path) rfl
  rw [← htext]
  exact FileTree.bytesAt?_of_node? hstands.placed

theorem Sound.holder?_of_isHolder (h : s.Sound c path) (hi : s.IsHolder path i)
    (hpid : (c i).me.pid < UInt32.size) (hsince : s.since i < UInt64.size) (j : ι) :
    ((c j).lock path).holder? s.disk = some (s.record c i) := by
  obtain ⟨f, -, hstands, htext⟩ := h.stands hi ((c j).lock path) rfl
  rw [hstands.holder?_eq, htext, LockMetadata.ofBytes?_text, if_pos ⟨hpid, hsince⟩]

/-! ## Operations -/

/-- An attempt that fails changes no file and no lock. -/
theorem Sound.idle (h : s.Sound c path) {l : FileLock} (hl : l.path = path)
    (hidle : l.Idle s.disk d) : ({ s with disk := d } : Custody ι).Sound c path where
  numbered := hidle.locksNumbered h.numbered
  owned i f hf := by
    show d.owner? f.id = _
    rw [Disk.owner?, hidle.owners]
    exact h.owned i f hf
  apart := h.apart
  named i f hf := by
    have honly := h.named i f hf
    exact ⟨Nat.lt_of_lt_of_le honly.numbered (Nat.le_of_eq hidle.grown.nextId.symm),
      fun loc hloc => honly.names loc (hidle.grown.files loc _ hloc)⟩
  kept id o hn ho := by
    refine h.kept id o (hidle.grown.files _ _ hn) ?_
    have ho : d.owner? id = some o := ho
    rwa [Disk.owner?, hidle.owners] at ho
  marked i f hf hn := by
    obtain ⟨hstands, htext⟩ := h.marked i f hf (hidle.grown.files _ _ hn)
    subst hl
    have hnew := hidle.stands ⟨hstands.made, hstands.located, hstands.placed⟩
    exact ⟨⟨hnew.made, hnew.located, hnew.placed⟩, (hidle.grown.content f.id).trans htext⟩

section Operations

variable [DecidableEq ι]

@[simp] theorem held_put_self (l : Lock) : (s.put i l d).held i = l.openFile? :=
  Function.update_self ..

theorem held_put_of_ne (h : j ≠ i) (l : Lock) : (s.put i l d).held j = s.held j :=
  Function.update_of_ne h ..

/-- The cases of a handle that has come to a lock. -/
theorem held_put_cases {l : Lock} {g : OpenFile} (h : (s.put i l d).held j = some g) :
    j = i ∧ l.openFile? = some g ∨ j ≠ i ∧ s.held j = some g := by
  by_cases hj : j = i
  · subst hj
    rw [held_put_self] at h
    exact .inl ⟨rfl, h⟩
  · rw [held_put_of_ne hj] at h
    exact .inr ⟨hj, h⟩

theorem step_release_none (h : s.held i = none) : s.step c path (.release i) = s := by
  simp only [step, lock, h, Lock.release]

theorem step_release (h : s.held i = some f) :
    s.step c path (.release i) =
      s.put i (.file ((c i).lock path) none) ((s.disk.overwrite f .empty).close f) := by
  simp only [step, lock, h, Lock.release, FileLock.release]

theorem step_crash (h : s.held i = some f) :
    s.step c path (.crash i) = s.put i (.file ((c i).lock path) none) (s.disk.close f) := by
  simp only [step, lock, h, Lock.abandon]

/-- A handle lets go of its file, whose contents may have changed. -/
theorem Sound.letGo (h : s.Sound c path) (hf : s.held i = some f)
    (hd : s.disk.Rewritten f.id d) (l : FileLock) :
    (s.put i (.file l none) (d.close f)).Sound c path := by
  have htree : (d.close f).tree = d.tree := Lock.tree_close _ _
  have hnode : ∀ loc, (d.close f).tree.node? loc = s.disk.tree.node? loc := by
    intro loc
    rw [htree]
    exact hd.nodes loc
  have howner : ∀ id, id ≠ f.id → (d.close f).owner? id = s.disk.owner? id := by
    intro id hid
    rw [Disk.owner?_close_of_ne d hid, hd.owner?]
  have hothers : ∀ j g, (s.put i (.file l none) (d.close f)).held j = some g →
      s.held j = some g ∧ g.id ≠ f.id := by
    intro j g hg
    rcases held_put_cases hg with ⟨-, hnone⟩ | ⟨hj, hg⟩
    · cases hnone
    · exact ⟨hg, fun hid => hj (h.apart j i g f hg hf hid)⟩
  refine ⟨(hd.locksNumbered h.numbered).close f, fun j g hg => ?_,
    fun j k g g' hg hg' hid => ?_, fun j g hg => ?_, fun id o hn ho => ?_, fun j g hg hn => ?_⟩
  · obtain ⟨hg, hid⟩ := hothers j g hg
    exact (howner g.id hid).trans (h.owned j g hg)
  · exact h.apart j k g g' (hothers j g hg).1 (hothers k g' hg').1 hid
  · have honly := h.named j g (hothers j g hg).1
    refine ⟨?_, fun loc hloc => honly.names loc ((hnode loc).symm.trans hloc)⟩
    show g.id < (d.close f).tree.nextId
    rw [htree, hd.nextId]
    exact honly.numbered
  · have hid : id ≠ f.id := by
      rintro rfl
      have hlocked : d.owner? f.id = some f.descriptor := by
        rw [hd.owner?]
        exact h.owned i f hf
      exact absurd ((Disk.owner?_close_self hlocked).symm.trans ho) (by rintro ⟨⟩)
    obtain ⟨j, hj⟩ := h.kept id o ((hnode _).symm.trans hn) ((howner id hid).symm.trans ho)
    have hji : j ≠ i := by
      rintro rfl
      rw [hf] at hj
      cases hj
      exact hid rfl
    exact ⟨j, (held_put_of_ne hji _).trans hj⟩
  · obtain ⟨hg, hid⟩ := hothers j g hg
    obtain ⟨hstands, htext⟩ := h.marked j g hg ((hnode _).symm.trans hn)
    refine ⟨hstands.mono (fun loc hloc => (hnode loc).trans hloc) hn, ?_⟩
    show (d.close f).tree.content g.id = _
    rw [htree, hd.contents g.id hid]
    exact htext

theorem Sound.release (h : s.Sound c path) (i : ι) : (s.step c path (.release i)).Sound c path := by
  rcases hf : s.held i with _ | f
  · rw [step_release_none hf]
    exact h
  · rw [step_release hf]
    exact h.letGo hf (Disk.rewritten_overwrite ..) _

theorem Sound.crash (h : s.Sound c path) (i : ι) : (s.step c path (.crash i)).Sound c path := by
  rcases hf : s.held i with _ | f
  · have hstep : s.step c path (.crash i) = s := by
      simp only [step, lock, hf, Lock.abandon, put, Lock.openFile?]
      rw [← hf, Function.update_eq_self]
    rw [hstep]
    exact h
  · rw [step_crash hf]
    exact h.letGo hf (.refl ..) _

/-- A handle has taken the lock, and the file that it had before is closed. -/
theorem Sound.locked (h : s.Sound c path) (hlocked : ((c i).lock path).Locked s.disk d f)
    (htext : d.tree.content f.id = (LockMetadata.ofIdentity (c i).me d.now).text.toUTF8) :
    ({ s.put i (.file ((c i).lock path) (some f)) (d.closeOld (s.held i)) with
      since := Function.update s.since i d.now } : Custody ι).Sound c path := by
  have hfresh : ∀ j g, s.held j = some g → g.id ≠ f.id :=
    fun j g hg => hlocked.id_ne (h.owned j g hg)
  have htree : (d.closeOld (s.held i)).tree = d.tree := Lock.tree_closeOld d _
  have hplaced : (d.closeOld (s.held i)).tree.node? (DiskPath.resolve path) =
      some (.file f.id) := by
    rw [htree]
    exact hlocked.stands.placed
  have howner : (d.closeOld (s.held i)).owner? f.id = some f.descriptor :=
    (d.owner?_closeOld fun g hg hid => hfresh i g hg hid.symm).trans hlocked.owner?_self
  have hsplit : ∀ j g, (s.put i (.file ((c i).lock path) (some f))
      (d.closeOld (s.held i))).held j = some g →
        j = i ∧ g = f ∨ j ≠ i ∧ s.held j = some g ∧ g.id ≠ f.id := by
    intro j g hg
    rcases held_put_cases hg with ⟨hj, hg⟩ | ⟨hj, hg⟩
    · exact .inl ⟨hj, (Option.some.inj hg).symm⟩
    · exact .inr ⟨hj, hg, hfresh j g hg⟩
  refine ⟨(hlocked.locksNumbered h.numbered).closeOld _, fun j g hg => ?_,
    fun j k g g' hg hg' hid => ?_, fun j g hg => ?_, fun id o hn ho => ?_, fun j g hg hn => ?_⟩
  · rcases hsplit j g hg with ⟨-, rfl⟩ | ⟨hj, hg, hid⟩
    · exact howner
    · have hopen : (d.closeOld (s.held i)).owner? g.id = d.owner? g.id :=
        d.owner?_closeOld fun old hold hsame => hj (h.apart j i g old hg hold hsame)
      exact (hopen.trans (hlocked.owner?_of_ne hid)).trans (h.owned j g hg)
  · rcases hsplit j g hg with ⟨rfl, rfl⟩ | ⟨-, hg, hne⟩
    · rcases hsplit k g' hg' with ⟨rfl, -⟩ | ⟨-, -, hne⟩
      · rfl
      · exact absurd hid.symm hne
    · rcases hsplit k g' hg' with ⟨-, rfl⟩ | ⟨-, hg', -⟩
      · exact absurd hid hne
      · exact h.apart j k g g' hg hg' hid
  · show FileTree.OnlyAt (d.closeOld (s.held i)).tree _ _
    rcases hsplit j g hg with ⟨-, rfl⟩ | ⟨-, hg, -⟩
    · exact FileTree.onlyAt_of_node? hplaced
    · rw [htree]
      exact hlocked.onlyAt (h.named j g hg)
  · cases hplaced.symm.trans hn
    cases howner.symm.trans ho
    exact ⟨i, held_put_self (d := d.closeOld (s.held i)) _⟩
  · rcases hsplit j g hg with ⟨rfl, rfl⟩ | ⟨-, -, hne⟩
    · refine ⟨hlocked.stands.mono (fun loc hloc => ?_) hplaced, ?_⟩
      · show (d.closeOld (s.held j)).tree.node? loc = _
        rw [htree]
        exact hloc
      · show (d.closeOld (s.held j)).tree.content g.id = (LockMetadata.ofIdentity (c j).me
          (Function.update s.since j d.now j)).text.toUTF8
        rw [htree, Function.update_self]
        exact htext
    · exact absurd (FileTree.eq_of_node? hn hplaced) hne

theorem step_acquire_ok {timeout : Nat}
    (h : ((c i).lock path).acquire (c i).me timeout s.disk = (.ok f, d)) :
    s.step c path (.acquire i timeout) =
      { s.put i (.file ((c i).lock path) (some f)) (d.closeOld (s.held i)) with
        since := Function.update s.since i d.now } := by
  simp only [step, attempt, lock, Lock.acquire_file, h, Disk.now_closeOld]

theorem step_acquire_error {timeout : Nat} {e : LockError}
    (h : ((c i).lock path).acquire (c i).me timeout s.disk = (.error e, d)) :
    s.step c path (.acquire i timeout) = { s with disk := d } := by
  simp only [step, attempt, lock, Lock.acquire_file, h]

theorem Sound.acquire (h : s.Sound c path) (i : ι) (timeout : Nat) :
    (s.step c path (.acquire i timeout)).Sound c path := by
  have hcourse := FileLock.course_acquire ((c i).lock path) (c i).me timeout h.numbered
  rcases ha : ((c i).lock path).acquire (c i).me timeout s.disk with ⟨e | f, d⟩ <;>
    rw [ha] at hcourse
  · rw [step_acquire_error ha]
    exact h.idle rfl hcourse.1
  · rw [step_acquire_ok ha]
    exact h.locked hcourse.1 hcourse.2

theorem Sound.step (h : s.Sound c path) (e : CustodyEvent ι) : (s.step c path e).Sound c path := by
  cases e with
  | acquire i timeout => exact h.acquire i timeout
  | release i => exact h.release i
  | crash i => exact h.crash i
  | wait ms =>
    have hidle : FileLock.Idle ⟨path, 0, 0⟩ s.disk (s.disk.waitUntil (s.disk.now + ms)) :=
      (FileLock.Idle.refl ..).waitUntil _
    exact h.idle rfl hidle

theorem Sound.run (h : s.Sound c path) (es : List (CustodyEvent ι)) :
    (s.run c path es).Sound c path := by
  induction es generalizing s with
  | nil => exact h
  | cons e es ih => exact ih (h.step e)

end Operations

/-! ## What the operations do -/

/-- From `s` to `s'` no file, no lock and no handle has changed; time may have passed. -/
structure Unchanged (s s' : Custody ι) : Prop where
  tree : s'.disk.tree = s.disk.tree
  owners : s'.disk.owners = s.disk.owners
  held : s'.held = s.held
  since : s'.since = s.since

/-- From `s` to `s'` neither the files at any place nor the lock on the file at the path has
changed. -/
structure Spared (path : String) (s s' : Custody ι) : Prop where
  nodes : ∀ loc, s'.disk.tree.node? loc = s.disk.tree.node? loc
  bytes : ∀ loc, s'.disk.tree.bytesAt? loc = s.disk.tree.bytesAt? loc
  owner : ∀ id, s.disk.tree.node? (DiskPath.resolve path) = some (.file id) →
    s'.disk.owner? id = s.disk.owner? id
  holders : ∀ j, s'.IsHolder path j ↔ s.IsHolder path j

variable [DecidableEq ι]

/-- What is true of a state, and what the next operation does in it. -/
structure Lawful (c : ι → Claimant) (path : String) (s : Custody ι) : Prop where
  /-- There is one holder at most. -/
  unique : ∀ i j, s.IsHolder path i → s.IsHolder path j → i = j
  /-- If somebody has locked the file at the path then it is the holder. -/
  locked : ∀ id o, s.disk.tree.node? (DiskPath.resolve path) = some (.file id) →
    s.disk.owner? id = some o → ∃ i, s.IsHolder path i ∧ s.held i = some ⟨id, o⟩
  /-- The file has the record of the holder in it and nothing else. -/
  marked : ∀ i, s.IsHolder path i →
    s.disk.tree.bytesAt? (DiskPath.resolve path) = some (s.record c i).text.toUTF8
  /-- Others read the record as it was written. -/
  read : ∀ i j, s.IsHolder path i → (c i).me.pid < UInt32.size → s.since i < UInt64.size →
    ((c j).lock path).holder? s.disk = some (s.record c i)
  /-- While there is a holder, an attempt succeeds only when its record is old, and otherwise
  nothing has changed when the time is over. -/
  contested : ∀ i j timeout, s.IsHolder path j →
    match s.attempt c path i timeout with
    | (.ok _, d) => (c i).staleAfter ≤ (s.record c j).age d.now ∧
      (s.step c path (.acquire i timeout)).IsHolder path i
    | (.error e, d) => ((c i).lock path).TimedOut s.disk.now timeout d e ∧
      s.Unchanged (s.step c path (.acquire i timeout))
  /-- Who is not the holder any more can give back what it has or be dropped, and does not touch
  what is at the path. -/
  displaced : ∀ i f, s.held i = some f → ¬s.IsHolder path i →
    (∃ l d, (s.lock c path i).release s.disk = (.ok l, d)) ∧
      s.Spared path (s.step c path (.release i)) ∧ s.Spared path (s.step c path (.crash i))
  /-- When the holder has given the lock back, the file is empty and there is no holder. -/
  released : ∀ i, s.IsHolder path i →
    (∃ l d, (s.lock c path i).release s.disk = (.ok l, d)) ∧
      (s.step c path (.release i)).disk.tree.bytesAt? (DiskPath.resolve path) = some .empty ∧
      (∀ j, ((c j).lock path).holder? (s.step c path (.release i)).disk = none) ∧
      ∀ j, ¬(s.step c path (.release i)).IsHolder path j
  /-- Who has nothing cannot give it back. -/
  notHeld : ∀ i, s.held i = none →
    (s.lock c path i).release s.disk = (.error .notHeld, s.disk) ∧ s.step c path (.release i) = s

/-- The holder is displaced only when its record is old. -/
theorem Sound.contested (h : s.Sound c path) (hj : s.IsHolder path j) (i : ι) (timeout : Nat) :
    match s.attempt c path i timeout with
    | (.ok _, d) => (c i).staleAfter ≤ (s.record c j).age d.now ∧
      (s.step c path (.acquire i timeout)).IsHolder path i
    | (.error e, d) => ((c i).lock path).TimedOut s.disk.now timeout d e ∧
      s.Unchanged (s.step c path (.acquire i timeout)) := by
  have hcourse := FileLock.course_acquire ((c i).lock path) (c i).me timeout h.numbered
  have hafter := h.acquire i timeout
  obtain ⟨g, hg, hstands, htext⟩ := h.stands hj ((c i).lock path) rfl
  rw [attempt, lock, Lock.acquire_file]
  rcases ha : ((c i).lock path).acquire (c i).me timeout s.disk with ⟨e | f, d⟩ <;>
    rw [ha] at hcourse
  · obtain ⟨hidle, hreason⟩ := hcourse
    refine ⟨hreason.resolve_right fun hno => hno g.id hstands, ?_⟩
    rw [step_acquire_error ha]
    exact ⟨hidle.same hstands.made, hidle.owners, rfl, rfl⟩
  · obtain ⟨hlocked, -⟩ := hcourse
    rw [step_acquire_ok ha] at hafter ⊢
    have hheld := held_put_self (s := s) (i := i) (d := d.closeOld (s.held i))
      (.file ((c i).lock path) (some f))
    refine ⟨?_, f, hheld, ?_, hafter.owned i f hheld⟩
    · obtain ⟨m, hm, hold⟩ := hlocked.reason g.id g.descriptor hstands.placed (h.owned j g hg)
      rw [FileTree.recordAt?_of_node? hstands.placed, htext] at hm
      rw [Disk.now_closeOld, ← LockMetadata.eq_of_ofBytes?_text hm]
      exact hold
    · show (d.closeOld (s.held i)).tree.node? _ = _
      rw [Lock.tree_closeOld]
      exact hlocked.stands.placed

/-- A handle that is not the holder lets go of a file that has no name any more. -/
theorem Sound.spared (h : s.Sound c path) (hf : s.held i = some f) (hi : ¬s.IsHolder path i)
    (hd : s.disk.Rewritten f.id d) (l : FileLock) :
    s.Spared path (s.put i (.file l none) (d.close f)) := by
  have hgone := h.node?_ne hf hi
  have hnode : ∀ loc, (d.close f).tree.node? loc = s.disk.tree.node? loc := by
    intro loc
    rw [Lock.tree_close]
    exact hd.nodes loc
  have howner : ∀ id, s.disk.tree.node? (DiskPath.resolve path) = some (.file id) →
      (d.close f).owner? id = s.disk.owner? id := by
    intro id hn
    have hid : id ≠ f.id := by
      rintro rfl
      exact hgone hn
    rw [Disk.owner?_close_of_ne d hid, hd.owner?]
  refine ⟨hnode, fun loc => FileTree.bytesAt?_eq (hnode loc) fun id hn => ?_, howner, fun j => ?_⟩
  · have hid : id ≠ f.id := by
      rintro rfl
      rw [(h.named i f hf).names loc hn] at hn
      exact hgone hn
    show (d.close f).tree.content id = _
    rw [Lock.tree_close, hd.contents id hid]
  · constructor
    · rintro ⟨g, hg, hn, ho⟩
      have hn := (hnode _).symm.trans hn
      rcases held_put_cases hg with ⟨-, hnone⟩ | ⟨-, hg⟩
      · cases hnone
      · exact ⟨g, hg, hn, (howner g.id hn).symm.trans ho⟩
    · rintro ⟨g, hg, hn, ho⟩
      have hji : j ≠ i := by
        rintro rfl
        exact hi ⟨g, hg, hn, ho⟩
      exact ⟨g, (held_put_of_ne hji _).trans hg, (hnode _).trans hn, (howner g.id hn).trans ho⟩

theorem Sound.displaced (h : s.Sound c path) (hf : s.held i = some f) (hi : ¬s.IsHolder path i) :
    s.Spared path (s.step c path (.release i)) ∧ s.Spared path (s.step c path (.crash i)) := by
  rw [step_release hf, step_crash hf]
  exact ⟨h.spared hf hi (Disk.rewritten_overwrite ..) _, h.spared hf hi (.refl ..) _⟩

theorem Sound.released (h : s.Sound c path) (hi : s.IsHolder path i) :
    (s.step c path (.release i)).disk.tree.bytesAt? (DiskPath.resolve path) = some .empty ∧
      (∀ j, ((c j).lock path).holder? (s.step c path (.release i)).disk = none) ∧
      ∀ j, ¬(s.step c path (.release i)).IsHolder path j := by
  have hstands : ∀ j, ∃ f, s.held i = some f ∧ ((c j).lock path).Stands s.disk f.id := by
    intro j
    obtain ⟨f, hf, hstands, -⟩ := h.stands hi ((c j).lock path) rfl
    exact ⟨f, hf, hstands⟩
  obtain ⟨f, hf, hn, ho⟩ := hi
  rw [step_release hf]
  have htree : ((s.disk.overwrite f .empty).close f).tree = (s.disk.overwrite f .empty).tree :=
    Lock.tree_close _ _
  have hempty : ((s.disk.overwrite f .empty).close f).tree.content f.id = .empty := by
    rw [htree, Disk.overwrite, FileTree.content_setContent, if_pos rfl]
  have hnode : ((s.disk.overwrite f .empty).close f).tree.node? (DiskPath.resolve path) =
      some (.file f.id) := by
    rw [htree]
    exact hn
  refine ⟨?_, fun j => ?_, ?_⟩
  · exact (FileTree.bytesAt?_of_node? hnode).trans (congrArg some hempty)
  · obtain ⟨g, hg, hstands⟩ := hstands j
    obtain rfl : g = f := Option.some.inj (hg.symm.trans hf)
    have hstays : ((c j).lock path).Stands ((s.disk.overwrite g .empty).close g) g.id := by
      refine hstands.mono (fun loc hloc => ?_) hnode
      rw [htree]
      exact hloc
    show ((c j).lock path).holder? ((s.disk.overwrite g .empty).close g) = none
    rw [hstays.holder?_eq, hempty, LockMetadata.ofBytes?_empty]
  · rintro j ⟨g, -, hgn, hgo⟩
    have hid : f.id = g.id := FileTree.eq_of_node? hnode hgn
    have hfreed : ((s.disk.overwrite f .empty).close f).owner? f.id = none :=
      Disk.owner?_close_self ho
    rw [hid] at hfreed
    exact absurd (hfreed.symm.trans hgo) (by rintro ⟨⟩)

theorem Sound.lawful (h : s.Sound c path) : s.Lawful c path where
  unique i j := h.eq_of_isHolder
  locked id o := h.locked_by
  marked i := h.bytesAt?_of_isHolder
  read i j hi hpid hsince := h.holder?_of_isHolder hi hpid hsince j
  contested i j timeout hj := h.contested hj i timeout
  displaced i f hf hi := ⟨⟨_, _, by rw [lock, hf]; rfl⟩, h.displaced hf hi⟩
  released i hi := by
    obtain ⟨f, hf, -⟩ := id hi
    exact ⟨⟨_, _, by rw [lock, hf]; rfl⟩, h.released hi⟩
  notHeld i hi := ⟨by rw [lock, hi]; rfl, step_release_none hi⟩

/-- In every state that handles can come to, whoever takes the lock, gives it back or is dropped, the
file at the path is locked by the one holder, has the record of the holder in it, and changes hands
only when the holder gives it back, is dropped or has had it for too long. -/
theorem lawful_run (c : ι → Claimant) (path : String) (d : Disk) (es : List (CustodyEvent ι))
    (h : d.FreeAt (DiskPath.resolve path)) : ((start d).run c path es).Lawful c path :=
  ((sound_start h).run es).lawful

/-- Handles that take a holder for dead after five seconds. -/
def patient (i : Nat) : Claimant := ⟨⟨i, "host"⟩, 500, 5000⟩

/-- A handle takes the lock from another one after six seconds, and a third one comes too early. -/
def displacing : List (CustodyEvent Nat) :=
  [.acquire 0 0, .wait 6000, .acquire 1 0, .wait 1000, .acquire 2 0]

/-- The first handle still has its file, but the file at the path is that of the second one. -/
theorem lawful_displacing :
    ({} : Disk).FreeAt (DiskPath.resolve "x.lock") ∧
      ((start {}).run patient "x.lock" displacing).held 0 = some ⟨0, 0⟩ ∧
      ((start {}).run patient "x.lock" displacing).held 1 = some ⟨1, 2⟩ ∧
      ((start {}).run patient "x.lock" displacing).held 2 = none ∧
      ((start {}).run patient "x.lock" displacing).disk.tree.node? ["x.lock"] =
        some (.file 1) ∧
      ((start {}).run patient "x.lock" displacing).Lawful patient "x.lock" := by
  have hfree : ({} : Disk).FreeAt (DiskPath.resolve "x.lock") :=
    ⟨⟨by rintro id o ⟨⟩, by rintro id o ⟨⟩⟩, fun _ _ => rfl⟩
  exact ⟨hfree, by decide +kernel, by decide +kernel, by decide +kernel, by decide +kernel,
    lawful_run patient "x.lock" {} displacing hfree⟩

end Custody

end SpecLinkage
