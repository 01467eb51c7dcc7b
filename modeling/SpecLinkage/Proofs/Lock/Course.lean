import SpecLinkage.Proofs.Lock.Exclusion
import SpecLinkage.Proofs.Lock.Failure

/-! # The course of an attempt

What a whole attempt to take a lock does to the disk, when nobody acts in between.

* `FileLock.Idle`: no file and no lock has changed; directories may have been made.
* `FileLock.Locked`: the file at the place of the lock is locked under a new descriptor, and nothing
  else has changed.  If somebody else had it locked before, then the record in it was old, and the
  file is another one.
* `FileLock.Course` is what holds from the beginning of an attempt at `d₀` to each of its phases, up
  to the removal of the old file `Idle`, and from then on on the way to `Locked`.
* `FileLock.course_acquire` is the result: an attempt ends `Locked` with the record of who has taken
  the lock in the file, or it ends `Idle`, and then for a reason. -/

namespace SpecLinkage

/-! ## Directories -/

namespace FileTree

/-- From `t` to `t'` directories may have been made, and nothing else. -/
structure Grown (t t' : FileTree) : Prop where
  nodes : ∀ l n, t.node? l = some n → t'.node? l = some n
  files : ∀ l id, t'.node? l = some (.file id) → t.node? l = some (.file id)
  contents : t'.contents = t.contents
  nextId : t'.nextId = t.nextId

variable {t t' t'' : FileTree}

theorem Grown.refl (t : FileTree) : t.Grown t := ⟨fun _ _ h => h, fun _ _ h => h, rfl, rfl⟩

theorem Grown.trans (h : t.Grown t') (h' : t'.Grown t'') : t.Grown t'' where
  nodes l n hn := h'.nodes l n (h.nodes l n hn)
  files l id hn := h.files l id (h'.files l id hn)
  contents := h'.contents.trans h.contents
  nextId := h'.nextId.trans h.nextId

theorem Grown.content (h : t.Grown t') (id : FileId) : t'.content id = t.content id := by
  rw [FileTree.content, h.contents, FileTree.content]

theorem Grown.bytesAt? (h : t.Grown t') (l : Location) : t'.bytesAt? l = t.bytesAt? l := by
  rw [FileTree.bytesAt?, FileTree.bytesAt?]
  rcases hn : t'.node? l with _ | _ | id
  · rcases hn' : t.node? l with _ | n
    · rfl
    · rw [h.nodes l n hn'] at hn
      cases hn
  · rcases hn' : t.node? l with _ | _ | id
    · rfl
    · rfl
    · rw [h.nodes l _ hn'] at hn
      cases hn
  · rw [h.files l id hn]
    exact congrArg some (h.content id)

theorem grown_addDirectory {l : Location} (h : t.node? l = none) : t.Grown (t.addDirectory l) := by
  refine ⟨fun l' n hn => ?_, fun l' id hn => ?_, rfl, rfl⟩
  · have hne : l' ≠ l := by
      rintro rfl
      rw [h] at hn
      cases hn
    rw [node?_addDirectory, if_neg hne]
    exact hn
  · rw [node?_addDirectory] at hn
    split at hn
    · cases hn
    · exact hn

theorem grown_makeAlong {here : Location} {ps : List (List Char)}
    (h : t.makeAlong here ps = .ok t') : t.Grown t' := by
  induction ps generalizing t here with
  | nil =>
    cases h
    exact .refl _
  | cons p ps ih =>
    rw [makeAlong] at h
    split at h
    · exact ih h
    · split at h
      · exact ih h
      · dsimp only at h
        split at h
        · next hthere => exact (grown_addDirectory hthere).trans (ih h)
        · cases h
        · exact ih h

theorem grown_makeParent {path : String} (h : t.makeParent path = .ok t') : t.Grown t' := by
  rw [makeParent] at h
  split at h
  · cases h
    exact .refl t
  · exact grown_makeAlong h

end FileTree

/-! ## Locks on a disk -/

/-- The locks belong to files that have been numbered and to descriptors that have been given
out. -/
structure Disk.LocksNumbered (d : Disk) : Prop where
  files : d.OwnersNumbered
  descriptors : ∀ id o, d.owner? id = some o → o < d.nextDescriptor

/-- The holder that was seen at a time. -/
def LockHolder.seen (now : Nat) : Option LockMetadata → LockHolder
  | some m => .recorded m now
  | none => .unknown

namespace FileLock

/-- The lock file is there, and so are the directories that its path leads through. -/
structure Stands (l : FileLock) (d : Disk) (id : FileId) : Prop where
  made : l.ParentMade d
  located : d.tree.locate l.path = .ok l.place
  placed : d.tree.node? l.place = some (.file id)

/-- Since `d₀` no file and no lock has changed.  If the directories of the lock file were there,
then the file tree is the same. -/
structure Idle (l : FileLock) (d₀ d : Disk) : Prop where
  grown : d₀.tree.Grown d.tree
  same : l.ParentMade d₀ → d.tree = d₀.tree
  owners : d.owners = d₀.owners
  now : d₀.now ≤ d.now
  descriptors : d₀.nextDescriptor ≤ d.nextDescriptor

/-- Since `d₀` no lock has changed, and no file but the one at the place of the lock: if that was
locked, then it is still there or its record is old. -/
structure Pending (l : FileLock) (d₀ d : Disk) : Prop where
  owners : d.owners = d₀.owners
  now : d₀.now ≤ d.now
  descriptors : d₀.nextDescriptor ≤ d.nextDescriptor
  nextId : d₀.tree.nextId ≤ d.tree.nextId
  names : ∀ loc id, id < d₀.tree.nextId → d.tree.node? loc = some (.file id) →
    d₀.tree.node? loc = some (.file id)
  contents : ∀ id, id < d₀.tree.nextId → d.tree.content id = d₀.tree.content id
  reason : ∀ id o, d₀.tree.node? l.place = some (.file id) → d₀.owner? id = some o →
    d.tree.node? l.place = some (.file id) ∨
      ∃ m, d₀.tree.recordAt? l.place = some m ∧ l.staleAfter ≤ m.age d.now

/-- The lock file has been removed. -/
structure Cleared (l : FileLock) (d₀ d : Disk) : Prop where
  pending : l.Pending d₀ d
  made : l.ParentMade d
  located : d.tree.locate l.path = .ok l.place
  gone : d.tree.node? l.place = none

/-- The lock file is open under a new descriptor.  It is the one from before, or it is free. -/
structure Opened (l : FileLock) (d₀ d : Disk) (f : OpenFile) : Prop where
  pending : l.Pending d₀ d
  stands : l.Stands d f.id
  fresh : d₀.nextDescriptor ≤ f.descriptor
  given : f.descriptor < d.nextDescriptor
  found : l.Idle d₀ d ∨ d.owner? f.id = none

/-- The lock file is locked under a new descriptor.  It was free before, and if another file was
locked in its place then the record in that one was old. -/
structure Locked (l : FileLock) (d₀ d : Disk) (f : OpenFile) : Prop where
  stands : l.Stands d f.id
  given : f.descriptor < d.nextDescriptor
  free : d₀.owner? f.id = none
  owners : d.owners = d₀.owners.insert f.id f.descriptor
  now : d₀.now ≤ d.now
  descriptors : d₀.nextDescriptor ≤ d.nextDescriptor
  nextId : d₀.tree.nextId ≤ d.tree.nextId
  names : ∀ loc id, id < d₀.tree.nextId → d.tree.node? loc = some (.file id) →
    d₀.tree.node? loc = some (.file id)
  contents : ∀ id, id < d₀.tree.nextId → id ≠ f.id → d.tree.content id = d₀.tree.content id
  reason : ∀ id o, d₀.tree.node? l.place = some (.file id) → d₀.owner? id = some o →
    ∃ m, d₀.tree.recordAt? l.place = some m ∧ l.staleAfter ≤ m.age d.now

/-- The error of an attempt that began at `start` and was given up at `d`, because somebody was in
the way and there was no old record of that. -/
structure TimedOut (l : FileLock) (start timeout : Nat) (d : Disk) (e : LockError) : Prop where
  error : e = .timeout l.path (d.now - start) (.seen d.now (l.holder? d))
  late : timeout ≤ d.now - start
  young : ∀ m, l.holder? d = some m → m.age d.now < l.staleAfter

/-- What holds in each phase of an attempt that began at `d₀`. -/
def Course (l : FileLock) (me : Identity) (start timeout : Nat) (d₀ d : Disk) : LockPhase → Prop
  | .opening => l.Idle d₀ d ∨ l.Cleared d₀ d
  | .locking f => l.Opened d₀ d f
  | .emptying f m | .writing f m => l.Locked d₀ d f ∧ m = .ofIdentity me d.now
  | .inspecting => l.Idle d₀ d ∧ ∃ id, l.Stands d id
  | .confirming m | .removing m =>
    l.Idle d₀ d ∧ (∃ id, l.Stands d id) ∧ l.holder? d = some m ∧ l.staleAfter ≤ m.age d.now
  | .waiting m => l.Idle d₀ d ∧ m = l.holder? d ∧ ∀ m, l.holder? d = some m →
    m.age d.now < l.staleAfter
  | .sleeping _ => l.Idle d₀ d
  | .acquired f => l.Locked d₀ d f ∧
    d.tree.content f.id = (LockMetadata.ofIdentity me d.now).text.toUTF8
  | .failed e => l.Idle d₀ d ∧ (l.TimedOut start timeout d e ∨ ∀ id, ¬l.Stands d₀ id)

variable {l : FileLock} {me : Identity} {start timeout : Nat} {d₀ d : Disk}

/-! ## Opening the lock file -/

theorem Idle.refl (l : FileLock) (d : Disk) : l.Idle d d :=
  ⟨.refl _, fun _ => rfl, rfl, Nat.le_refl _, Nat.le_refl _⟩

theorem Idle.pending (h : l.Idle d₀ d) : l.Pending d₀ d where
  owners := h.owners
  now := h.now
  descriptors := h.descriptors
  nextId := Nat.le_of_eq h.grown.nextId.symm
  names loc id _ hn := h.grown.files loc id hn
  contents id _ := h.grown.content id
  reason _ _ hn _ := .inl (h.grown.nodes _ _ hn)

/-- The directories of the lock file are made. -/
theorem Idle.makeParent (h : l.Idle d₀ d) {t : FileTree} (hm : d.tree.makeParent l.path = .ok t) :
    l.Idle d₀ { d with tree := t } where
  grown := h.grown.trans (FileTree.grown_makeParent hm)
  same hmade := by
    have htree := h.same hmade
    rw [htree, hmade] at hm
    exact (Except.ok.inj hm).symm
  owners := h.owners
  now := h.now
  descriptors := h.descriptors

theorem Idle.stands (h : l.Idle d₀ d) {id : FileId} (hs : l.Stands d₀ id) : l.Stands d id := by
  have htree := h.same hs.made
  refine ⟨?_, ?_, ?_⟩
  · rw [ParentMade, htree]
    exact hs.made
  · rw [htree]
    exact hs.located
  · rw [htree]
    exact hs.placed

/-- A new lock file is made where there is none, and it is free. -/
theorem Cleared.create (h₀ : d₀.LocksNumbered) (h : l.Cleared d₀ d) :
    l.Opened d₀ { d with
      tree := d.tree.addFile l.place .empty
      nextDescriptor := d.nextDescriptor + 1 } ⟨d.tree.nextId, d.nextDescriptor⟩ := by
  have hdir : d.tree.node? l.place ≠ some .directory := by
    rw [h.gone]
    rintro ⟨⟩
  have hroot : l.place ≠ [] := by
    intro hroot
    exact hdir (by rw [hroot]; rfl)
  have hadd := FileTree.sameBeyond_addFile d.tree .empty hdir
  have hnode := FileTree.node?_addFile d.tree .empty hroot
  have hp := h.pending
  refine ⟨⟨hp.owners, hp.now, Nat.le_succ_of_le hp.descriptors, Nat.le_succ_of_le hp.nextId, ?_, ?_,
    ?_⟩, ⟨?_, ?_, ?_⟩, hp.descriptors, Nat.lt_succ_self _, .inr ?_⟩
  · intro loc id hid hn
    exact hp.names loc id hid (hadd.names loc id (Nat.lt_of_lt_of_le hid hp.nextId) hn)
  · intro id hid
    have hne : id ≠ d.tree.nextId := Nat.ne_of_lt (Nat.lt_of_lt_of_le hid hp.nextId)
    rw [FileTree.content_addFile, if_neg hne]
    exact hp.contents id hid
  · intro id o hn ho
    rcases hp.reason id o hn ho with hold | hstale
    · rw [h.gone] at hold
      cases hold
    · exact .inr hstale
  · exact FileTree.makeParent_of_made h.made hadd.directories
  · exact FileTree.locate_mono h.located hadd.directories
  · rw [hnode, if_pos rfl]
  · -- the number is new, and locks belong to older files
    show d.owner? d.tree.nextId = none
    rw [Disk.owner?, hp.owners]
    cases hfree : d₀.owners.get? d.tree.nextId with
    | none => rfl
    | some o => exact absurd (h₀.files _ o hfree) (Nat.not_lt.2 hp.nextId)

/-- Opening the lock file fails without a change, or finds the file, or makes one. -/
theorem Idle.openFile (h₀ : d₀.LocksNumbered) (h : l.Idle d₀ d) :
    match d.openFile l.path with
    | (.error _, d') => l.Idle d₀ d' ∧ ∀ id, ¬l.Stands d₀ id
    | (.ok f, d') => l.Opened d₀ d' f := by
  rw [Disk.openFile]
  rcases hm : d.tree.makeParent l.path with e | t
  · refine ⟨h, fun id hs => ?_⟩
    have hmade := (h.stands hs).made
    rw [ParentMade, hm] at hmade
    cases hmade
  · have hidle := h.makeParent hm
    have hmade : l.ParentMade { d with tree := t } := FileTree.makeParent_of_made hm fun _ hd => hd
    dsimp only
    rw [FileTree.openOrCreate]
    rcases hl : t.locate l.path with e | place
    · refine ⟨hidle, fun id hs => ?_⟩
      have hlocated := (hidle.stands hs).located
      rw [hl] at hlocated
      cases hlocated
    · obtain rfl : place = l.place := FileTree.locate_eq_resolve hl
      rcases hn : t.node? l.place with _ | _ | id
      · have hcleared : l.Cleared d₀ { d with tree := t } := ⟨hidle.pending, hmade, hl, hn⟩
        have hopened := hcleared.create h₀
        simp only [hn]
        exact hopened
      · simp only [hn]
        refine ⟨hidle, fun id hs => ?_⟩
        have hplaced := (hidle.stands hs).placed
        rw [hn] at hplaced
        cases hplaced
      · simp only [hn]
        have hidle' : l.Idle d₀
            { d with tree := t, nextDescriptor := d.nextDescriptor + 1 } :=
          ⟨hidle.grown, hidle.same, hidle.owners, hidle.now, Nat.le_succ_of_le hidle.descriptors⟩
        exact ⟨hidle'.pending, ⟨hmade, hl, hn⟩, h.descriptors, Nat.lt_succ_self _, .inl hidle'⟩

theorem Cleared.openFile (h₀ : d₀.LocksNumbered) (h : l.Cleared d₀ d) :
    ∃ f d', d.openFile l.path = (.ok f, d') ∧ l.Opened d₀ d' f := by
  have hopened := h.create h₀
  refine ⟨_, _, ?_, hopened⟩
  rw [Disk.openFile, h.made]
  simp only [FileTree.openOrCreate, h.located, h.gone]

/-! ## Locking, writing and removing it -/

/-- The file is locked under another descriptor, or it is free and gets locked. -/
theorem Opened.tryLock (h₀ : d₀.LocksNumbered) {f : OpenFile} (h : l.Opened d₀ d f) :
    match d.tryLock f with
    | none => l.Idle d₀ d
    | some d' => l.Locked d₀ d' f ∧ d'.now = d.now := by
  have hp := h.pending
  rw [Disk.tryLock]
  rcases ho : d.owner? f.id with _ | o
  · have hfree : d₀.owner? f.id = none := by
      rw [Disk.owner?, ← hp.owners]
      exact ho
    refine ⟨⟨⟨h.stands.made, h.stands.located, h.stands.placed⟩, h.given, hfree, ?_, hp.now,
      hp.descriptors, hp.nextId, hp.names, fun id hid _ => hp.contents id hid,
      fun id o hn hown => ?_⟩, rfl⟩
    · show d.owners.insert f.id f.descriptor = _
      rw [hp.owners]
    · rcases hp.reason id o hn hown with hstays | hstale
      · -- the file that was locked would be the one that is free
        have hid : f.id = id := FileTree.eq_of_node? h.stands.placed hstays
        rw [← hid, hfree] at hown
        cases hown
      · exact hstale
  · have hidle : l.Idle d₀ d := h.found.resolve_right (by rw [ho]; rintro ⟨⟩)
    have hother : o ≠ f.descriptor := by
      have hold : d₀.owner? f.id = some o := by
        rw [Disk.owner?, ← hp.owners]
        exact ho
      exact Nat.ne_of_lt (Nat.lt_of_lt_of_le (h₀.descriptors _ o hold) h.fresh)
    simp only [if_neg hother]
    exact hidle

theorem Locked.overwrite {f : OpenFile} (h : l.Locked d₀ d f) (bytes : ByteArray) :
    l.Locked d₀ (d.overwrite f bytes) f where
  stands := ⟨FileTree.makeParent_of_made h.stands.made fun _ hd => hd,
    FileTree.locate_mono h.stands.located fun _ hd => hd, h.stands.placed⟩
  given := h.given
  free := h.free
  owners := h.owners
  now := h.now
  descriptors := h.descriptors
  nextId := h.nextId
  names := h.names
  contents id hid hne := by
    rw [Disk.overwrite, FileTree.content_setContent, if_neg hne]
    exact h.contents id hid hne
  reason := h.reason

/-- The lock file is removed, if its record is old. -/
theorem Idle.removeFile (h : l.Idle d₀ d) {id : FileId} (hs : l.Stands d id) {m : LockMetadata}
    (hm : l.holder? d = some m) (hold : l.staleAfter ≤ m.age d.now) :
    ∃ t, d.tree.removeFile l.path = .ok t ∧ l.Cleared d₀ { d with tree := t } := by
  have hrem : d.tree.removeFile l.path = .ok (d.tree.keepNames fun l' => l' != l.place) := by
    rw [FileTree.removeFile, hs.located]
    simp only [hs.placed]
  have hsame := FileTree.removeFile_sameBeyond hrem
  have hroot : l.place ≠ [] := by
    intro hroot
    have hplaced := hs.placed
    rw [hroot] at hplaced
    cases hplaced
  have hnode := FileTree.node?_keepNames d.tree hroot
  refine ⟨_, hrem, ⟨h.owners, h.now, h.descriptors, Nat.le_of_eq h.grown.nextId.symm, ?_, ?_, ?_⟩,
    FileTree.makeParent_of_made hs.made hsame.directories,
    FileTree.locate_mono hs.located hsame.directories, by rw [hnode, if_pos rfl]⟩
  · intro loc id' _ hn
    rw [hnode] at hn
    split at hn
    · cases hn
    · exact h.grown.files loc id' hn
  · exact fun id' _ => h.grown.content id'
  · intro _ _ _ _
    refine .inr ⟨m, ?_, hold⟩
    rw [← FileTree.recordAt?_eq (h.grown.bytesAt? l.place)]
    exact recordAt?_of_holder? hm

/-! ## Steps -/

theorem Idle.waitUntil (h : l.Idle d₀ d) (time : Nat) : l.Idle d₀ (d.waitUntil time) :=
  ⟨h.grown, h.same, h.owners, Nat.le_trans h.now (Nat.le_max_left _ _), h.descriptors⟩

theorem Course.awaited {p : LockPhase} (h : l.Course me start timeout d₀ d p) :
    l.Course me start timeout d₀ (awaited p d) p := by
  cases p with
  | sleeping wake => exact Idle.waitUntil h wake
  | _ => exact h

theorem Course.step {p : LockPhase} (h₀ : d₀.LocksNumbered)
    (h : l.Course me start timeout d₀ d p) :
    l.Course me start timeout d₀ (l.step me start timeout p d).2
      (l.step me start timeout p d).1 := by
  cases p with
  | opening =>
    rw [FileLock.step]
    rcases h with hidle | hcleared
    · have hopen := hidle.openFile h₀
      rcases ho : d.openFile l.path with ⟨e | f, d'⟩ <;> rw [ho] at hopen
      · exact ⟨hopen.1, .inr hopen.2⟩
      · exact hopen
    · obtain ⟨f, d', ho, hopened⟩ := hcleared.openFile h₀
      rw [ho]
      exact hopened
  | locking f =>
    have hlock := Opened.tryLock h₀ h
    rw [FileLock.step]
    rcases ht : d.tryLock f with _ | d' <;> rw [ht] at hlock
    · exact ⟨hlock, f.id, h.stands⟩
    · exact ⟨hlock.1, by rw [hlock.2]⟩
  | emptying f m => exact ⟨h.1.overwrite .empty, h.2⟩
  | writing f m =>
    obtain ⟨hlocked, rfl⟩ := h
    refine ⟨hlocked.overwrite _, ?_⟩
    show (d.tree.setContent f.id _).content f.id = _
    rw [FileTree.content_setContent, if_pos rfl]
    rfl
  | inspecting =>
    obtain ⟨hidle, hstands⟩ := h
    show l.Course me start timeout d₀ d (l.judge d.now (l.holder? d))
    rcases hm : l.holder? d with _ | m
    · refine ⟨hidle, hm.symm, fun m hm' => ?_⟩
      rw [hm] at hm'
      cases hm'
    · rw [judge]
      split
      · next hyoung =>
        refine ⟨hidle, hm.symm, fun m' hm' => ?_⟩
        rw [hm] at hm'
        cases hm'
        exact hyoung
      · next hold => exact ⟨hidle, hstands, hm, Nat.not_lt.1 hold⟩
  | confirming m =>
    rw [FileLock.step, if_pos h.2.2.1]
    exact h
  | removing m =>
    obtain ⟨hidle, ⟨id, hstands⟩, hm, hold⟩ := h
    obtain ⟨t, ht, hcleared⟩ := hidle.removeFile hstands hm hold
    rw [FileLock.step, ht]
    exact .inr hcleared
  | waiting m =>
    obtain ⟨hidle, rfl, hyoung⟩ := h
    simp only [FileLock.step]
    split
    · next hlate =>
      refine ⟨hidle, .inl ⟨?_, hlate, hyoung⟩⟩
      cases l.holder? d <;> rfl
    · exact hidle
  | sleeping wake =>
    rw [FileLock.step]
    split
    · exact h
    · exact .inl h
  | acquired f => exact h
  | failed e => exact h

theorem Course.run {p : LockPhase} (h₀ : d₀.LocksNumbered) (n : Nat)
    (h : l.Course me start timeout d₀ d p) :
    l.Course me start timeout d₀ (l.run me start timeout n p d).2
      (l.run me start timeout n p d).1 :=
  run_keeps (P := fun p d => l.Course me start timeout d₀ d p) (fun _ _ h => h.awaited)
    (fun _ _ h => h.step h₀) n h

/-- An attempt ends: the lock file is locked and has the record of who has taken the lock in it, or
nothing has changed, because somebody was in the way until the time was over, or because the file
could not be opened. -/
theorem course_acquire (l : FileLock) (me : Identity) (timeout : Nat) (h : d.LocksNumbered) :
    match l.acquire me timeout d with
    | (.ok f, d') => l.Locked d d' f ∧
      d'.tree.content f.id = (LockMetadata.ofIdentity me d'.now).text.toUTF8
    | (.error e, d') => l.Idle d d' ∧ (l.TimedOut d.now timeout d' e ∨ ∀ id, ¬l.Stands d id) := by
  have hend : l.Course me d.now timeout d
      (l.run me d.now timeout (8 * (timeout + 3)) .opening d).2
      (l.run me d.now timeout (8 * (timeout + 3)) .opening d).1 :=
    Course.run (p := .opening) h _ (.inl (.refl l d))
  have hfinal := isFinal_run l me timeout h.files
  rw [acquire]
  rcases hr : l.run me d.now timeout (8 * (timeout + 3)) .opening d with ⟨p, d'⟩
  rw [hr] at hend hfinal
  cases p with
  | acquired f => exact hend
  | failed e => exact hend
  | _ => cases hfinal

/-! ## After an attempt -/

theorem Idle.locksNumbered (h : l.Idle d₀ d) (h₀ : d₀.LocksNumbered) : d.LocksNumbered := by
  refine ⟨fun id o ho => ?_, fun id o ho => ?_⟩ <;> rw [Disk.owner?, h.owners] at ho
  · rw [h.grown.nextId]
    exact h₀.files id o ho
  · exact Nat.lt_of_lt_of_le (h₀.descriptors id o ho) h.descriptors

variable {f : OpenFile}

theorem Locked.owner?_self (h : l.Locked d₀ d f) : d.owner? f.id = some f.descriptor := by
  rw [Disk.owner?, h.owners]
  exact SortedMap.get?_insert_self ..

theorem Locked.owner?_of_ne (h : l.Locked d₀ d f) {id : FileId} (hid : id ≠ f.id) :
    d.owner? id = d₀.owner? id := by
  rw [Disk.owner?, h.owners]
  exact SortedMap.get?_insert_of_ne _ _ hid

/-- The file was free, so it is not one that was locked. -/
theorem Locked.id_ne (h : l.Locked d₀ d f) {id : FileId} {o : Descriptor}
    (ho : d₀.owner? id = some o) : id ≠ f.id := by
  rintro rfl
  rw [h.free] at ho
  cases ho

theorem Locked.locksNumbered (h : l.Locked d₀ d f) (h₀ : d₀.LocksNumbered) : d.LocksNumbered := by
  refine ⟨fun id o ho => ?_, fun id o ho => ?_⟩ <;> by_cases hid : id = f.id
  · rw [hid]
    exact FileTree.lt_nextId_of_node? h.stands.placed
  · have hold : d₀.owner? id = some o := (h.owner?_of_ne hid).symm.trans ho
    exact Nat.lt_of_lt_of_le (h₀.files id o hold) h.nextId
  · rw [hid, h.owner?_self] at ho
    cases ho
    exact h.given
  · rw [h.owner?_of_ne hid] at ho
    exact Nat.lt_of_lt_of_le (h₀.descriptors id o ho) h.descriptors

/-- No file has got another name. -/
theorem Locked.onlyAt (h : l.Locked d₀ d f) {id : FileId} {place : Location}
    (ho : d₀.tree.OnlyAt id place) : d.tree.OnlyAt id place :=
  ⟨Nat.lt_of_lt_of_le ho.numbered h.nextId,
    fun loc hloc => ho.names loc (h.names loc id ho.numbered hloc)⟩

end FileLock

end SpecLinkage
