import SpecLinkage.Proofs.Lock.Footprint

/-! # Attempts that fail

An attempt that is left alone comes to its end, and if it fails no file has changed, not even the
lock file.  The locks have to belong to files: then a lock file that was just made is free, and an
attempt that has made one cannot fail any more.

* `Disk.OwnersNumbered`: the locks belong to files.
* `FileLock.Within` is the invariant of an attempt, with a bound on the steps that are left:

      6 · (timeout - time that has gone by) + 9  steps from `opening`

* `FileLock.Within.step` is one step, `FileLock.Within.run` is an attempt, and
  `FileLock.isFinal_run` says that it ends.
* `Lock.acquire_error_untouched` is the result. -/

namespace SpecLinkage

/-- The locks belong to files that have been numbered. -/
def Disk.OwnersNumbered (d : Disk) : Prop := ∀ id o, d.owner? id = some o → id < d.tree.nextId

namespace FileLock

/-- Since `d₀` no file and no lock has changed; directories may have been made. -/
structure Untouched (d₀ d : Disk) : Prop where
  same : FileTree.SameBeyond (fun _ => False) d₀.tree d.tree
  owners : d.owners = d₀.owners

/-- Whether the directories above the lock file are there. -/
def ParentMade (l : FileLock) (d : Disk) : Prop := d.tree.makeParent l.path = .ok d.tree

/-- Whether the lock file, when it is opened, is free. -/
def OpensFree (l : FileLock) (d : Disk) : Prop :=
  match d.openFile l.path with
  | (.ok f, d') => d'.owner? f.id = none
  | (.error _, _) => False

def Exists (l : FileLock) (d : Disk) : Prop :=
  d.tree.locate l.path = .ok l.place ∧ ∃ id, d.tree.node? l.place = some (.file id)

def timeLeft (start timeout now : Nat) : Nat := start + timeout - now

/-- How an attempt from `d₀` stands that ends within `n` steps: as long as it can fail, nothing
has changed. -/
def Within (l : FileLock) (start timeout : Nat) (d₀ : Disk) (n : Nat) (d : Disk) :
    LockPhase → Prop
  | .opening =>
    Untouched d₀ d ∧ 6 * timeLeft start timeout d.now + 9 ≤ n ∨ l.OpensFree d ∧ 4 ≤ n
  | .locking f =>
    (Untouched d₀ d ∧ l.ParentMade d) ∧ 6 * timeLeft start timeout d.now + 8 ≤ n ∨
      d.owner? f.id = none ∧ 3 ≤ n
  | .emptying _ _ => 2 ≤ n
  | .writing _ _ => 1 ≤ n
  | .inspecting => (Untouched d₀ d ∧ l.ParentMade d) ∧ 6 * timeLeft start timeout d.now + 7 ≤ n
  | .confirming _ => (Untouched d₀ d ∧ l.ParentMade d) ∧ 6 * timeLeft start timeout d.now + 6 ≤ n
  | .removing _ => (Untouched d₀ d ∧ l.ParentMade d) ∧ l.Exists d ∧ 5 ≤ n
  | .waiting _ => (Untouched d₀ d ∧ l.ParentMade d) ∧ 6 * timeLeft start timeout d.now + 5 ≤ n
  | .sleeping wake => Untouched d₀ d ∧ 6 * timeLeft start timeout wake + 10 ≤ n
  | .acquired _ => True
  | .failed _ => Untouched d₀ d

variable {l : FileLock} {me : Identity} {start timeout n : Nat} {d₀ d : Disk}

/-! ## Opening and removing the lock file -/

theorem Untouched.ownersNumbered (h : Untouched d₀ d) (h₀ : d₀.OwnersNumbered) :
    d.OwnersNumbered := by
  intro id o ho
  rw [Disk.owner?, h.owners] at ho
  exact Nat.lt_of_lt_of_le (h₀ id o ho) h.same.nextId

/-- Opening the lock file fails without a change, or finds the file, or makes one that is free. -/
theorem Untouched.openFile (h : Untouched d₀ d) (h₀ : d₀.OwnersNumbered) :
    match d.openFile l.path with
    | (.error _, d') => Untouched d₀ d'
    | (.ok f, d') =>
      d'.now = d.now ∧ (Untouched d₀ d' ∧ l.ParentMade d' ∨ d'.owner? f.id = none) := by
  have hnum := h.ownersNumbered h₀
  rw [Disk.openFile]
  rcases hm : d.tree.makeParent l.path with e | t₁
  · exact h
  · have hmade : FileTree.SameBeyond (fun _ => False) d.tree t₁ := FileTree.makeParent_sameBeyond hm
    simp only
    rcases ho : t₁.openOrCreate l.path with e | ⟨id, t₂⟩
    · exact ⟨h.same.trans hmade, h.owners⟩
    · refine ⟨rfl, ?_⟩
      rw [FileTree.openOrCreate] at ho
      rcases hl : t₁.locate l.path with e | place <;> rw [hl] at ho
      · cases ho
      · rcases hn : t₁.node? place with _ | _ | id' <;> simp only [hn] at ho <;> cases ho
        · right
          -- the number is new, and locks belong to older files
          cases hfree : d.owner? t₁.nextId with
          | none => exact hfree
          | some o => exact absurd (hnum _ o hfree) (Nat.not_lt.2 hmade.nextId)
        · left
          exact ⟨⟨h.same.trans hmade, h.owners⟩,
            FileTree.makeParent_of_made hm fun _ hd => hd⟩

/-- When the lock file has been removed, a new one is made, and it is free. -/
theorem Untouched.removeFile (h : Untouched d₀ d) (h₀ : d₀.OwnersNumbered) (hp : l.ParentMade d)
    (hex : l.Exists d) :
    ∃ t, d.tree.removeFile l.path = .ok t ∧ l.OpensFree { d with tree := t } := by
  obtain ⟨hl, id, hn⟩ := hex
  have hrem : d.tree.removeFile l.path = .ok (d.tree.keepNames fun l' => l' != l.place) := by
    rw [FileTree.removeFile, hl]
    simp only [hn]
  refine ⟨_, hrem, ?_⟩
  have hsame := FileTree.removeFile_sameBeyond hrem
  have hl' := FileTree.locate_mono hl hsame.directories
  have hroot : l.place ≠ [] := by
    intro hroot
    rw [hroot] at hn
    cases hn
  have hgone : (d.tree.keepNames fun l' => l' != l.place).node? l.place = none := by
    rw [FileTree.node?_keepNames _ hroot, if_pos rfl]
  simp only [OpensFree, Disk.openFile, FileTree.makeParent_of_made hp hsame.directories,
    FileTree.openOrCreate, hl', hgone]
  show d.owner? d.tree.nextId = none
  cases hfree : d.owner? d.tree.nextId with
  | none => rfl
  | some o => exact absurd (h.ownersNumbered h₀ _ o hfree) (Nat.lt_irrefl _)

theorem exists_of_holder? {m : LockMetadata} (h : l.holder? d = some m) : l.Exists d := by
  rw [holder?, LockMetadata.read?, FileTree.readText, FileTree.readBytes, FileTree.find] at h
  rcases hl : d.tree.locate l.path with e | place <;> simp only [hl] at h
  · cases h
  · obtain rfl := FileTree.locate_eq_resolve hl
    rcases hn : d.tree.node? (DiskPath.resolve l.path) with _ | _ | id <;> simp only [hn] at h
    · cases h
    · cases h
    · exact ⟨hl, id, hn⟩

/-! ## Steps -/

theorem timeLeft_le {now now' : Nat} (h : now ≤ now') :
    timeLeft start timeout now' ≤ timeLeft start timeout now := by
  unfold timeLeft
  omega

theorem Untouched.waitUntil (h : Untouched d₀ d) (time : Nat) : Untouched d₀ (d.waitUntil time) :=
  ⟨h.same, h.owners⟩

/-- A step that does not end an attempt leaves one step less. -/
theorem Within.step {p : LockPhase} (h₀ : d₀.OwnersNumbered)
    (h : l.Within start timeout d₀ (n + 1) d p) (hp : p.isFinal = false) :
    l.Within start timeout d₀ n (l.step me start timeout p (awaited p d)).2
      (l.step me start timeout p (awaited p d)).1 := by
  cases p with
  | opening =>
    show l.Within start timeout d₀ n (l.step me start timeout .opening d).2
      (l.step me start timeout .opening d).1
    rw [FileLock.step]
    rcases h with ⟨hu, hn⟩ | ⟨hf, hn⟩
    · have ho := hu.openFile (l := l) h₀
      rcases hr : d.openFile l.path with ⟨e | f, d'⟩ <;> simp only [hr] at ho ⊢
      · exact ho
      · obtain ⟨hnow, hu' | hfree⟩ := ho
        · exact .inl ⟨hu', by rw [hnow]; omega⟩
        · exact .inr ⟨hfree, by omega⟩
    · rw [OpensFree] at hf
      rcases hr : d.openFile l.path with ⟨e | f, d'⟩ <;> simp only [hr] at hf ⊢
      exact .inr ⟨hf, by omega⟩
  | locking f =>
    show l.Within start timeout d₀ n (l.step me start timeout (.locking f) d).2
      (l.step me start timeout (.locking f) d).1
    rw [FileLock.step]
    rcases ht : d.tryLock f with _ | d'
    · show l.Within start timeout d₀ n d .inspecting
      rcases h with ⟨hu, hn⟩ | ⟨hfree, hn⟩
      · exact ⟨hu, by omega⟩
      · rw [Disk.tryLock, hfree] at ht
        cases ht
    · show 2 ≤ n
      rcases h with ⟨-, hn⟩ | ⟨-, hn⟩ <;> omega
  | emptying f m =>
    show 1 ≤ n
    exact Nat.le_of_succ_le_succ h
  | writing f m => exact trivial
  | inspecting =>
    obtain ⟨hu, hn⟩ := h
    show l.Within start timeout d₀ n d (l.judge d.now (l.holder? d))
    rcases l.holder? d with _ | m
    · exact ⟨hu, by omega⟩
    · rw [judge]
      split
      · exact ⟨hu, by omega⟩
      · exact ⟨hu, by omega⟩
  | confirming m =>
    obtain ⟨hu, hn⟩ := h
    show l.Within start timeout d₀ n d (if l.holder? d = some m then .removing m else
      .waiting (some m))
    split
    · next hm => exact ⟨hu, exists_of_holder? hm, by omega⟩
    · exact ⟨hu, by omega⟩
  | removing m =>
    obtain ⟨⟨hu, hmade⟩, hex, hn⟩ := h
    obtain ⟨t, ht, hopens⟩ := hu.removeFile h₀ hmade hex
    show l.Within start timeout d₀ n (l.step me start timeout (.removing m) d).2
      (l.step me start timeout (.removing m) d).1
    rw [FileLock.step, ht]
    exact .inr ⟨hopens, by omega⟩
  | waiting m =>
    obtain ⟨⟨hu, -⟩, hn⟩ := h
    show l.Within start timeout d₀ n (l.step me start timeout (.waiting m) d).2
      (l.step me start timeout (.waiting m) d).1
    simp only [FileLock.step]
    split
    · exact hu
    · next hwait =>
      refine ⟨hu, ?_⟩
      -- the pause is at least a millisecond of the time that is left
      unfold timeLeft at hn ⊢
      omega
  | sleeping wake =>
    obtain ⟨hu, hn⟩ := h
    have hwake : ¬(d.waitUntil wake).now < wake := Nat.not_lt.2 (Nat.le_max_right d.now wake)
    show l.Within start timeout d₀ n (d.waitUntil wake)
      (if (d.waitUntil wake).now < wake then .sleeping wake else .opening)
    rw [if_neg hwake]
    have hleft : timeLeft start timeout (d.waitUntil wake).now ≤ timeLeft start timeout wake :=
      timeLeft_le (Nat.not_lt.1 hwake)
    exact .inl ⟨hu.waitUntil wake, by omega⟩
  | acquired f => cases hp
  | failed e => cases hp

theorem Within.isFinal {p : LockPhase} (h : l.Within start timeout d₀ 0 d p) :
    p.isFinal = true := by
  cases p with
  | acquired f => rfl
  | failed e => rfl
  | opening => rcases h with ⟨-, h⟩ | ⟨-, h⟩ <;> omega
  | locking f => rcases h with ⟨-, h⟩ | ⟨-, h⟩ <;> omega
  | emptying f m => exact absurd h (Nat.not_succ_le_zero 1)
  | writing f m => exact absurd h (Nat.not_succ_le_zero 0)
  | removing m => exact absurd h.2.2 (by omega)
  | _ => exact absurd h.2 (by omega)

/-- An attempt with enough steps comes to its end. -/
theorem Within.run {p : LockPhase} (h₀ : d₀.OwnersNumbered) (n : Nat)
    (h : l.Within start timeout d₀ n d p) :
    (l.run me start timeout n p d).1.isFinal = true ∧
      ∃ k, l.Within start timeout d₀ k (l.run me start timeout n p d).2
        (l.run me start timeout n p d).1 := by
  induction n generalizing p d with
  | zero => exact ⟨h.isFinal, 0, h⟩
  | succ n ih =>
    cases hp : p.isFinal with
    | true =>
      rw [run_final l me start timeout _ d hp]
      exact ⟨hp, n + 1, h⟩
    | false =>
      rw [run_succ l me start timeout n d hp]
      exact ih (h.step h₀ hp)

/-- An attempt begins with steps enough. -/
theorem within_start (l : FileLock) (timeout : Nat) (d : Disk) :
    l.Within d.now timeout d (8 * (timeout + 3)) d .opening := by
  refine .inl ⟨⟨.refl _ _, rfl⟩, ?_⟩
  unfold timeLeft
  omega

/-- An attempt that is left alone comes to its end. -/
theorem isFinal_run (l : FileLock) (me : Identity) (timeout : Nat) (h : d.OwnersNumbered) :
    (l.run me d.now timeout (8 * (timeout + 3)) .opening d).1.isFinal = true :=
  ((within_start l timeout d).run h _).1

end FileLock

/-- If a lock cannot be taken then no file has changed. -/
theorem Lock.acquire_error_untouched {me : Identity} {timeout : Nat} {l : Lock} {d d' : Disk}
    {e : LockError} (h₀ : d.OwnersNumbered) (h : l.acquire me timeout d = (.error e, d')) :
    FileLock.Untouched d d' := by
  rcases l with held | ⟨l, held⟩
  · cases held <;> cases h
    exact ⟨.refl _ _, rfl⟩
  · obtain ⟨hfinal, k, hend⟩ :
        (l.run me d.now timeout (8 * (timeout + 3)) .opening d).1.isFinal = true ∧
          ∃ k, l.Within d.now timeout d k
            (l.run me d.now timeout (8 * (timeout + 3)) .opening d).2
            (l.run me d.now timeout (8 * (timeout + 3)) .opening d).1 :=
      (FileLock.within_start l timeout d).run h₀ _
    rw [acquire, FileLock.acquire] at h
    rcases hr : l.run me d.now timeout (8 * (timeout + 3)) .opening d with ⟨p, d''⟩
    rw [hr] at h hfinal hend
    cases p with
    | acquired f => cases h
    | failed e' =>
      cases h
      exact hend
    | _ => cases hfinal

end SpecLinkage
