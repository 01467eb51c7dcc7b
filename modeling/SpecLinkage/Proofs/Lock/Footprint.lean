import SpecLinkage.Proofs.Disk.Places
import SpecLinkage.Lock.Basic

/-! # What a lock touches

Taking a lock and giving it back touch the file of the lock and no other.

* `Lock.IsAt` is the place of a lock; a lock in memory has none.
* `FileLock.Owned` is what a step of an attempt keeps: the files beyond the place of the lock are
  as before, and the open file has no name beyond it.
* `Lock.acquire_sameBeyond` and `Lock.release_sameBeyond` are the results. -/

namespace SpecLinkage

theorem Disk.tree_tryLock {d d' : Disk} {f : OpenFile} (h : d.tryLock f = some d') :
    d'.tree = d.tree := by
  rw [tryLock] at h
  split at h
  · cases h
    rfl
  · split at h <;> cases h
    rfl

/-! ## Attempts -/

def LockPhase.openFile? : LockPhase → Option OpenFile
  | locking f | emptying f _ | writing f _ | acquired f => some f
  | _ => none

namespace FileLock

def place (l : FileLock) : Location := DiskPath.resolve l.path

/-- What an attempt has done to the files so far, from a tree `t`. -/
structure Owned (l : FileLock) (t : FileTree) (p : LockPhase) (d : Disk) : Prop where
  same : FileTree.SameBeyond (· = l.place) t d.tree
  only : ∀ f, p.openFile? = some f → d.tree.OnlyAt f.id l.place

variable {l : FileLock} {t : FileTree} {me : Identity} {start timeout : Nat}

/-- Opening a lock file. -/
theorem openFile_sameBeyond {d d' : Disk} {path : String} {r : Except AccessError OpenFile}
    (h : d.openFile path = (r, d')) :
    FileTree.SameBeyond (· = DiskPath.resolve path) d.tree d'.tree ∧
      ∀ f, r = .ok f → d'.tree.OnlyAt f.id (DiskPath.resolve path) := by
  rw [Disk.openFile] at h
  rcases hm : d.tree.makeParent path with e | t₁ <;> rw [hm] at h
  · cases h
    exact ⟨.refl _ _, by rintro _ ⟨⟩⟩
  · have hmade : FileTree.SameBeyond (· = DiskPath.resolve path) d.tree t₁ :=
      FileTree.makeParent_sameBeyond hm
    rcases ho : t₁.openOrCreate path with e | ⟨id, t₂⟩ <;> simp only [ho] at h <;> cases h
    · exact ⟨hmade, by rintro _ ⟨⟩⟩
    · obtain ⟨hsame, honly⟩ := FileTree.openOrCreate_sameBeyond ho
      refine ⟨hmade.trans hsame, ?_⟩
      rintro f ⟨⟩
      exact honly

theorem Owned.step {p : LockPhase} {d : Disk} (h : l.Owned t p d) :
    l.Owned t (l.step me start timeout p d).1 (l.step me start timeout p d).2 := by
  cases p with
  | opening =>
    rcases ho : d.openFile l.path with ⟨e | f, d'⟩ <;> simp only [FileLock.step, ho] <;>
      obtain ⟨hsame, honly⟩ := openFile_sameBeyond ho
    · exact ⟨h.same.trans hsame, by rintro _ ⟨⟩⟩
    · refine ⟨h.same.trans hsame, ?_⟩
      rintro f' ⟨⟩
      exact honly f rfl
  | locking f =>
    rw [FileLock.step]
    rcases ht : d.tryLock f with _ | d'
    · exact ⟨h.same, by rintro _ ⟨⟩⟩
    · have htree : d'.tree = d.tree := Disk.tree_tryLock ht
      refine ⟨htree ▸ h.same, ?_⟩
      rintro f' ⟨⟩
      exact htree ▸ h.only f rfl
  | emptying f m =>
    have hw := FileTree.sameBeyond_setContent (h.only f rfl) .empty
    refine ⟨h.same.trans hw, ?_⟩
    rintro f' ⟨⟩
    exact (h.only f rfl).of_sameBeyond hw
  | writing f m =>
    have hw := FileTree.sameBeyond_setContent (h.only f rfl) m.text.toUTF8
    refine ⟨h.same.trans hw, ?_⟩
    rintro f' ⟨⟩
    exact (h.only f rfl).of_sameBeyond hw
  | inspecting =>
    refine ⟨h.same, ?_⟩
    show ∀ f, (l.judge d.now (l.holder? d)).openFile? = some f → _
    rcases l.holder? d with _ | m
    · rintro _ ⟨⟩
    · rw [judge]
      split <;> rintro _ ⟨⟩
  | confirming m =>
    rw [FileLock.step]
    refine ⟨h.same, ?_⟩
    split <;> rintro _ ⟨⟩
  | removing m =>
    rw [FileLock.step]
    split
    · next hr => exact ⟨h.same.trans (FileTree.removeFile_sameBeyond hr), by rintro _ ⟨⟩⟩
    · exact ⟨h.same, by rintro _ ⟨⟩⟩
    · exact ⟨h.same, by rintro _ ⟨⟩⟩
  | waiting m =>
    simp only [FileLock.step]
    split <;> exact ⟨h.same, by rintro _ ⟨⟩⟩
  | sleeping wake =>
    rw [FileLock.step]
    refine ⟨h.same, ?_⟩
    split <;> rintro _ ⟨⟩
  | acquired f => exact h
  | failed e => exact h

/-- The disk at which a step is taken: a pause lets the clock go on. -/
def awaited (p : LockPhase) (d : Disk) : Disk :=
  match p with
  | .sleeping wake => d.waitUntil wake
  | _ => d

theorem tree_awaited (p : LockPhase) (d : Disk) : (awaited p d).tree = d.tree := by
  cases p <;> rfl

theorem run_succ (l : FileLock) (me : Identity) (start timeout fuel : Nat) {p : LockPhase}
    (d : Disk) (h : p.isFinal = false) :
    l.run me start timeout (fuel + 1) p d =
      l.run me start timeout fuel (l.step me start timeout p (awaited p d)).1
        (l.step me start timeout p (awaited p d)).2 := by
  cases p with
  | acquired f => cases h
  | failed e => cases h
  | _ => rfl

theorem run_final (l : FileLock) (me : Identity) (start timeout fuel : Nat) {p : LockPhase}
    (d : Disk) (h : p.isFinal = true) : l.run me start timeout fuel p d = (p, d) := by
  cases fuel with
  | zero => rfl
  | succ fuel =>
    cases p with
    | acquired f => rfl
    | failed e => rfl
    | _ => cases h

/-- What pauses and steps keep is kept by a run. -/
theorem run_keeps {P : LockPhase → Disk → Prop} (hpause : ∀ p d, P p d → P p (awaited p d))
    (hstep : ∀ p d, P p d → P (l.step me start timeout p d).1 (l.step me start timeout p d).2)
    (fuel : Nat) {p : LockPhase} {d : Disk} (h : P p d) :
    P (l.run me start timeout fuel p d).1 (l.run me start timeout fuel p d).2 := by
  induction fuel generalizing p d with
  | zero => exact h
  | succ fuel ih =>
    cases hp : p.isFinal with
    | true =>
      rw [run_final l me start timeout _ d hp]
      exact h
    | false =>
      rw [run_succ l me start timeout fuel d hp]
      exact ih (hstep _ _ (hpause p d h))

theorem Owned.run (fuel : Nat) {p : LockPhase} {d : Disk} (h : l.Owned t p d) :
    l.Owned t (l.run me start timeout fuel p d).1 (l.run me start timeout fuel p d).2 := by
  refine run_keeps (P := l.Owned t) (fun p d h => ?_) (fun _ _ h => h.step) fuel h
  exact ⟨(tree_awaited p d).symm ▸ h.same, (tree_awaited p d).symm ▸ h.only⟩

/-- An attempt that takes the lock is a run to its end. -/
theorem run_of_acquire {d d' : Disk} {f : OpenFile} (h : l.acquire me timeout d = (.ok f, d')) :
    l.run me d.now timeout (8 * (timeout + 3)) .opening d = (.acquired f, d') := by
  rw [acquire] at h
  rcases hr : l.run me d.now timeout (8 * (timeout + 3)) .opening d with ⟨p, d''⟩
  rw [hr] at h
  cases p with
  | acquired g =>
    cases h
    rfl
  | _ => cases h

end FileLock

/-! ## Locks -/

/-- Close the file that was open before, if there was one. -/
def Disk.closeOld (d : Disk) : Option OpenFile → Disk
  | some old => d.close old
  | none => d

namespace Lock

/-- Whether a lock has its file at a place. -/
def IsAt : Lock → Location → Prop
  | memory _, _ => False
  | file l _, place => place = l.place

/-- Whether the open file of a lock has no name beyond the place of the lock. -/
def HoldsOwn (t : FileTree) : Lock → Prop
  | file l (some f) => t.OnlyAt f.id l.place
  | _ => True

theorem HoldsOwn.of_sameBeyond {S : Location → Prop} {t t' : FileTree} {l : Lock}
    (h : l.HoldsOwn t) (hs : FileTree.SameBeyond S t t') : l.HoldsOwn t' := by
  rcases l with held | ⟨l, _ | f⟩
  · trivial
  · trivial
  · exact FileTree.OnlyAt.of_sameBeyond h hs

theorem tree_close (d : Disk) (f : OpenFile) : (d.close f).tree = d.tree := by
  rw [Disk.close]
  split <;> rfl

theorem tree_closeOld (d : Disk) (held : Option OpenFile) : (d.closeOld held).tree = d.tree := by
  cases held
  · rfl
  · exact tree_close _ _

/-- Taking a lock again closes the file that was locked before. -/
theorem acquire_file (me : Identity) (timeout : Nat) (l : FileLock) (held : Option OpenFile)
    (d : Disk) : (Lock.file l held).acquire me timeout d =
      match l.acquire me timeout d with
      | (.error e, d) => (.error e, d)
      | (.ok f, d) => (.ok (.file l (some f)), d.closeOld held) := by
  cases held <;> rfl

/-- Taking a lock, or trying to, touches the place of the lock. -/
theorem acquire_sameBeyond (me : Identity) (timeout : Nat) (l : Lock) (d : Disk) :
    FileTree.SameBeyond l.IsAt d.tree (l.acquire me timeout d).2.tree ∧
      ∀ l', (l.acquire me timeout d).1 = .ok l' →
        l'.IsAt = l.IsAt ∧ l'.HoldsOwn (l.acquire me timeout d).2.tree := by
  rcases l with held | ⟨l, held⟩
  · cases held
    · refine ⟨.refl _ _, ?_⟩
      rintro l' ⟨⟩
      exact ⟨rfl, trivial⟩
    · exact ⟨.refl _ _, by rintro _ ⟨⟩⟩
  · have hrun : l.Owned d.tree (l.run me d.now timeout (8 * (timeout + 3)) .opening d).1
        (l.run me d.now timeout (8 * (timeout + 3)) .opening d).2 :=
      .run _ ⟨.refl _ _, by rintro _ ⟨⟩⟩
    rw [acquire_file, FileLock.acquire]
    rcases hr : l.run me d.now timeout (8 * (timeout + 3)) .opening d with ⟨p, d'⟩
    rw [hr] at hrun
    cases p with
    | acquired f =>
      have htree : (d'.closeOld held).tree = d'.tree := tree_closeOld _ _
      refine ⟨htree.symm ▸ hrun.same, ?_⟩
      rintro l' ⟨⟩
      exact ⟨rfl, htree.symm ▸ hrun.only f rfl⟩
    | _ => exact ⟨hrun.same, by rintro _ ⟨⟩⟩

/-- Giving a lock back touches the place of the lock. -/
theorem release_sameBeyond {l : Lock} {d : Disk} (h : l.HoldsOwn d.tree) :
    FileTree.SameBeyond l.IsAt d.tree (l.release d).2.tree := by
  rcases l with held | ⟨l, _ | f⟩
  · cases held <;> exact .refl _ _
  · exact .refl _ _
  · show FileTree.SameBeyond _ _ ((d.overwrite f .empty).close f).tree
    rw [tree_close]
    exact FileTree.sameBeyond_setContent h .empty

end Lock

end SpecLinkage
