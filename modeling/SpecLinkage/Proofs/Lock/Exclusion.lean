import SpecLinkage.Proofs.Lock.Contest
import SpecLinkage.Proofs.Lock.Record
import Mathlib.Data.Fintype.Basic

/-! # Mutual exclusion

A live process that has locked the file keeps others out for as long as nobody takes its lock for
dead.  Others judge by the record in the file, and that may be the record of somebody else: a
process that has crashed leaves its record behind, and the next one has the file locked before it
empties it.  So two conditions are needed on the ages of records.

* `Contest.HoldersFresh`: no live process has had the lock for too long.
* `Contest.LeftFresh`: no process that has crashed has left a record in the file that is too old.
* `FileLock.stale_of_removes`: only an old record leads to the removal of the file.
* `Contest.Calm` is the invariant: all open files are the file at the place of the lock, nobody is
  about to remove it, and its record is that of a process.
* `Contest.at_most_one_holder`: with both conditions the lock excludes.
* `Contest.lateRemoval_not_exclusive`: with the first one alone it does not. -/

namespace SpecLinkage

/-! ## Files that stay -/

namespace FileTree

variable {t t' : FileTree}

theorem node?_makeAlong {here l : Location} {ps : List (List Char)} {n : Node}
    (h : t.makeAlong here ps = .ok t') (hn : t.node? l = some n) : t'.node? l = some n := by
  induction ps generalizing t here with
  | nil =>
    cases h
    exact hn
  | cons p ps ih =>
    rw [makeAlong] at h
    split at h
    · exact ih h hn
    · split at h
      · exact ih h hn
      · dsimp only at h
        split at h
        · next hthere =>
          refine ih h ?_
          -- the new directory is not where the node is
          have hne : l ≠ here ++ [String.ofList p] := by
            rintro rfl
            rw [hthere] at hn
            cases hn
          rw [node?_addDirectory, if_neg hne]
          exact hn
        · cases h
        · exact ih h hn

theorem node?_makeParent {path : String} {l : Location} {n : Node}
    (h : t.makeParent path = .ok t') (hn : t.node? l = some n) : t'.node? l = some n := by
  rw [makeParent] at h
  split at h
  · cases h
    exact hn
  · exact node?_makeAlong h hn

/-- A file at a place has the record of its bytes. -/
theorem recordAt?_of_node? {l : Location} {id : FileId} (h : t.node? l = some (.file id)) :
    t.recordAt? l = LockMetadata.ofBytes? (t.content id) := by
  rw [recordAt?, bytesAt?, h]
  rfl

theorem recordAt?_eq {l : Location} (h : t'.bytesAt? l = t.bytesAt? l) :
    t'.recordAt? l = t.recordAt? l := by
  rw [recordAt?, h, recordAt?]

end FileTree

/-- Opening a file keeps what there is; if the file is a new one then it is empty. -/
theorem FileTree.openOrCreate_place {t t' : FileTree} {path : String} {id : FileId}
    (h : t.openOrCreate path = .ok (id, t')) :
    (∀ l n, t.node? l = some n → t'.node? l = some n) ∧
      t'.node? (DiskPath.resolve path) = some (.file id) ∧
      ∀ m, t'.recordAt? (DiskPath.resolve path) = some m →
        t.recordAt? (DiskPath.resolve path) = some m := by
  rw [openOrCreate] at h
  rcases hl : t.locate path with e | l <;> rw [hl] at h
  · cases h
  · obtain rfl := locate_eq_resolve hl
    rcases hn : t.node? (DiskPath.resolve path) with _ | _ | id' <;> simp only [hn] at h <;> cases h
    · have hroot : DiskPath.resolve path ≠ [] := by
        intro hroot
        rw [hroot] at hn
        cases hn
      have hnew := node?_addFile t .empty hroot
      have hempty : (t.addFile (DiskPath.resolve path) .empty).recordAt? (DiskPath.resolve path) =
          none := by
        rw [recordAt?, bytesAt?_addFile t .empty (by rw [hn]; rintro ⟨⟩)]
        rfl
      refine ⟨fun l n hln => ?_, by rw [hnew, if_pos rfl], fun m hm => ?_⟩
      · have hne : l ≠ DiskPath.resolve path := by
          rintro rfl
          rw [hln] at hn
          cases hn
        rw [hnew, if_neg hne]
        exact hln
      · rw [hempty] at hm
        cases hm
    · exact ⟨fun _ _ h => h, hn, fun _ h => h⟩

namespace Disk

/-- Overwriting the file at a place replaces its record. -/
theorem recordAt?_overwrite {d : Disk} {l : Location} {f : OpenFile} (bytes : ByteArray)
    (h : d.tree.node? l = some (.file f.id)) :
    (d.overwrite f bytes).tree.recordAt? l = LockMetadata.ofBytes? bytes := by
  have hnode : (d.overwrite f bytes).tree.node? l = some (.file f.id) := h
  rw [FileTree.recordAt?_of_node? hnode, overwrite, FileTree.content_setContent, if_pos rfl]

/-- Opening a path keeps what there is, the file at its place is opened, and no record comes
there. -/
theorem openFile_place {d d' : Disk} {path : String} {r : Except AccessError OpenFile}
    (h : d.openFile path = (r, d')) :
    (∀ l n, d.tree.node? l = some n → d'.tree.node? l = some n) ∧
      (∀ f, r = .ok f → d'.tree.node? (DiskPath.resolve path) = some (.file f.id)) ∧
      ∀ m, d'.tree.recordAt? (DiskPath.resolve path) = some m →
        d.tree.recordAt? (DiskPath.resolve path) = some m := by
  rw [openFile] at h
  rcases hm : d.tree.makeParent path with e | t <;> rw [hm] at h
  · cases h
    exact ⟨fun _ _ h => h, by rintro f ⟨⟩, fun _ h => h⟩
  · have hnodes : ∀ l n, d.tree.node? l = some n → t.node? l = some n := fun l n =>
      FileTree.node?_makeParent hm
    have hrecord : t.recordAt? (DiskPath.resolve path) =
        d.tree.recordAt? (DiskPath.resolve path) :=
      FileTree.recordAt?_eq
        ((FileTree.makeParent_sameBeyond (S := fun _ => False) hm).bytes _ not_false)
    dsimp only at h
    rcases ho : t.openOrCreate path with e | ⟨id, t'⟩ <;> rw [ho] at h <;> cases h
    · exact ⟨hnodes, by rintro f ⟨⟩, fun m hm => hrecord ▸ hm⟩
    · obtain ⟨hkeep, hplace, hsame⟩ := FileTree.openOrCreate_place ho
      refine ⟨fun l n hn => hkeep l n (hnodes l n hn), ?_, fun m hm => hrecord ▸ hsame m hm⟩
      rintro f ⟨⟩
      exact hplace

end Disk

/-! ## Fresh records -/

namespace Contest

variable {ι : Type}

/-- Whether no live process has had a file locked for as long as the threshold of a process that
waits. -/
def HoldersFresh (s : Contest ι) : Prop :=
  ∀ i j, ∀ c ∈ (s.stage i).locked?, ∀ k ∈ (s.stage j).threshold?, c.2.age s.disk.now < k

/-- Whether no record that a process has left in the file when it crashed is as old as the
threshold of a process that waits. -/
def LeftFresh (path : String) (s : Contest ι) : Prop :=
  ∀ j, ∀ k ∈ (s.stage j).threshold?, ∀ m ∈ s.disk.tree.recordAt? (DiskPath.resolve path),
    (∃ i, s.stage i = .crashed (some m)) → m.age s.disk.now < k

/-- At most one live process has locked a file and not freed it yet. -/
def Exclusive (s : Contest ι) : Prop :=
  ∀ i j, (s.stage i).locked?.isSome → (s.stage j).locked?.isSome → i = j

instance [Fintype ι] (s : Contest ι) : Decidable s.HoldersFresh :=
  inferInstanceAs (Decidable (∀ i j, ∀ c ∈ (s.stage i).locked?, ∀ k ∈ (s.stage j).threshold?,
    c.2.age s.disk.now < k))

instance [Fintype ι] (path : String) (s : Contest ι) : Decidable (s.LeftFresh path) :=
  inferInstanceAs (Decidable (∀ j, ∀ k ∈ (s.stage j).threshold?,
    ∀ m ∈ s.disk.tree.recordAt? (DiskPath.resolve path),
      (∃ i, s.stage i = .crashed (some m)) → m.age s.disk.now < k))

end Contest

/-- Whether an attempt is about to remove the lock file. -/
def LockPhase.removes : LockPhase → Bool
  | confirming _ | removing _ => true
  | _ => false

/-- Nobody comes to remove the lock file but from a record in it that is old enough. -/
theorem FileLock.stale_of_removes {l : FileLock} {me : Identity} {start timeout : Nat}
    {p : LockPhase} {d : Disk} (h : (l.step me start timeout p d).1.removes = true)
    (hp : p.removes = false) :
    p = .inspecting ∧ ∃ m, l.holder? d = some m ∧ l.staleAfter ≤ m.age d.now := by
  cases p with
  | opening =>
    rw [step] at h
    rcases ho : d.openFile l.path with ⟨e | f, d'⟩ <;> rw [ho] at h <;> cases h
  | locking f =>
    rw [step] at h
    rcases ht : d.tryLock f with _ | d' <;> rw [ht] at h <;> cases h
  | inspecting =>
    refine ⟨rfl, ?_⟩
    rw [step] at h
    rcases hm : l.holder? d with _ | m <;> rw [hm] at h
    · cases h
    · rw [judge] at h
      split at h
      · cases h
      · next hold => exact ⟨m, rfl, Nat.not_lt.1 hold⟩
  | waiting m =>
    simp only [step] at h
    split at h <;> cases h
  | sleeping wake =>
    rw [step] at h
    split at h <;> cases h
  | confirming m => cases hp
  | removing m => cases hp
  | _ => cases h

/-- Whether a process does not want another lock and is not about to remove the file. -/
def LockStage.Keeps (path : String) : LockStage → Prop
  | trying l _ _ p => l.path = path ∧ p.removes = false
  | _ => True

theorem LockStage.keeps_after {path : String} {l : FileLock} {p' : LockPhase} (start timeout : Nat)
    (p : LockPhase) (hpath : l.path = path) (hp : p'.removes = false) :
    (after l start timeout p p').Keeps path := by
  cases p' with
  | acquired f =>
    rw [after]
    split
    · trivial
    · exact ⟨hpath, hp⟩
  | failed e => trivial
  | _ => exact ⟨hpath, hp⟩

namespace Contest

variable {ι : Type} {me : ι → Identity} {path : String} {s : Contest ι} {i : ι} {x : LockStage}
  {d : Disk}

/-- All open files are the file at the place of the lock, and nobody is about to remove it.  A
record in it is that of a process that holds the lock or has crashed. -/
structure Calm (path : String) (s : Contest ι) : Prop where
  sound : s.Sound
  placed : ∀ i f, (s.stage i).openFile? = some f →
    s.disk.tree.node? (DiskPath.resolve path) = some (.file f.id)
  kept : ∀ i, (s.stage i).Keeps path
  marked : ∀ m, s.disk.tree.recordAt? (DiskPath.resolve path) = some m →
    ∃ i, (s.stage i).mark? = some m

theorem Calm.exclusive (h : s.Calm path) : s.Exclusive := by
  intro i j hi hj
  obtain ⟨⟨f, m⟩, hi⟩ := Option.isSome_iff_exists.1 hi
  obtain ⟨⟨g, n⟩, hj⟩ := Option.isSome_iff_exists.1 hj
  have hf := h.placed i f (LockStage.openFile?_of_locked? hi)
  have hg := h.placed j g (LockStage.openFile?_of_locked? hj)
  rw [hf] at hg
  exact h.sound.eq_of_same_file hi hj (Node.file.inj (Option.some.inj hg))

/-- A record in the file is too young for those that wait. -/
theorem Calm.age_lt (h : s.Calm path) (hholders : s.HoldersFresh) (hleft : s.LeftFresh path)
    {m : LockMetadata} (hm : s.disk.tree.recordAt? (DiskPath.resolve path) = some m) {k : Nat}
    (hk : (s.stage i).threshold? = some k) : m.age s.disk.now < k := by
  obtain ⟨j, hj⟩ := h.marked m hm
  rcases hstage : s.stage j with _ | _ | ⟨f, n⟩ | _ | left <;> rw [hstage] at hj <;> cases hj
  · exact hholders j i (f, m) (by rw [hstage]; rfl) k hk
  · exact hleft i k hk m hm ⟨j, hstage⟩

theorem calm_start (h : d.tree.recordAt? (DiskPath.resolve path) = none) :
    (start d : Contest ι).Calm path := by
  refine ⟨sound_start d, by rintro i f ⟨⟩, fun _ => trivial, fun m hm => ?_⟩
  rw [show (start d : Contest ι).disk = d from rfl, h] at hm
  cases hm

variable [DecidableEq ι]

/-- A process comes to a stage and the files stay where they are. -/
theorem Calm.put (h : s.Calm path) (hsound : (s.put i x d).Sound)
    (hnodes : ∀ n, s.disk.tree.node? (DiskPath.resolve path) = some n →
      d.tree.node? (DiskPath.resolve path) = some n)
    (hplaced : ∀ f, x.openFile? = some f →
      d.tree.node? (DiskPath.resolve path) = some (.file f.id))
    (hkept : x.Keeps path)
    (hmarked : ∀ m, d.tree.recordAt? (DiskPath.resolve path) = some m → x.mark? = some m ∨
      s.disk.tree.recordAt? (DiskPath.resolve path) = some m ∧
        ((s.stage i).mark? = some m → x.mark? = some m)) : (s.put i x d).Calm path := by
  refine ⟨hsound, fun j f hf => ?_, fun j => ?_, fun m hm => ?_⟩
  · by_cases hji : j = i
    · subst hji
      rw [stage_put_self] at hf
      exact hplaced f hf
    · rw [stage_put_of_ne hji] at hf
      exact hnodes _ (h.placed j f hf)
  · by_cases hji : j = i
    · rw [hji, stage_put_self]
      exact hkept
    · rw [stage_put_of_ne hji]
      exact h.kept j
  · rcases hmarked m hm with hx | ⟨hold, hx⟩
    · exact ⟨i, by rw [stage_put_self]; exact hx⟩
    · obtain ⟨j, hj⟩ := h.marked m hold
      by_cases hji : j = i
      · subst hji
        exact ⟨j, by rw [stage_put_self]; exact hx hj⟩
      · exact ⟨j, by rw [stage_put_of_ne hji]; exact hj⟩

/-- A process comes to a stage and does not touch the files. -/
theorem Calm.put_same (h : s.Calm path) (hsound : (s.put i x d).Sound)
    (htree : d.tree = s.disk.tree)
    (hopen : ∀ f, x.openFile? = some f → (s.stage i).openFile? = some f)
    (hkept : x.Keeps path)
    (hmark : ∀ m, (s.stage i).mark? = some m → x.mark? = some m) : (s.put i x d).Calm path := by
  refine h.put hsound ?_ ?_ hkept ?_
  · rw [htree]
    exact fun n hn => hn
  · rw [htree]
    exact fun f hf => h.placed i f (hopen f hf)
  · rw [htree]
    exact fun m hm => .inr ⟨hm, hmark m⟩

/-- A process comes to a stage without an open file, and does not touch the files. -/
theorem Calm.put_bare (h : s.Calm path) (hsound : (s.put i x d).Sound)
    (htree : d.tree = s.disk.tree) (hx : x.openFile? = none) (hkept : x.Keeps path)
    (hmark : ∀ m, (s.stage i).mark? = some m → x.mark? = some m) : (s.put i x d).Calm path := by
  refine h.put_same hsound htree ?_ hkept hmark
  intro f hf
  rw [hx] at hf
  cases hf

/-- A process writes into the file that it has open. -/
theorem Calm.put_written (h : s.Calm path) {f : OpenFile} {bytes : ByteArray}
    (hsound : (s.put i x (s.disk.overwrite f bytes)).Sound)
    (hf : (s.stage i).openFile? = some f) (hx : x.openFile? = some f)
    (hkept : x.Keeps path)
    (hmark : ∀ m, LockMetadata.ofBytes? bytes = some m → x.mark? = some m) :
    (s.put i x (s.disk.overwrite f bytes)).Calm path := by
  have hplace := h.placed i f hf
  refine h.put hsound (fun n hn => hn) ?_ hkept ?_
  · intro g hg
    rw [hx] at hg
    cases hg
    exact hplace
  · intro m hm
    rw [Disk.recordAt?_overwrite bytes hplace] at hm
    exact .inl (hmark m hm)

/-- A step of an attempt.  Those that wait find a record too young to be taken for dead. -/
theorem Calm.attempt (h : s.Calm path) (hholders : s.HoldersFresh) (hleft : s.LeftFresh path)
    {l : FileLock} {start timeout : Nat} {p : LockPhase}
    (hi : s.stage i = .trying l start timeout p) :
    (s.put i (.after l start timeout p (l.step (me i) start timeout p s.disk).1)
      (l.step (me i) start timeout p s.disk).2).Calm path := by
  have hsound : (s.put i (.after l start timeout p (l.step (me i) start timeout p s.disk).1)
      (l.step (me i) start timeout p s.disk).2).Sound := h.sound.attempt hi
  obtain ⟨hpath, hcalm⟩ : l.path = path ∧ p.removes = false := by
    have := h.kept i
    rwa [hi] at this
  have hopen : (s.stage i).openFile? = p.openFile? := by
    rw [hi]
    rfl
  have hmark : ∀ x : LockStage, ∀ m, (s.stage i).mark? = some m → x.mark? = some m := by
    intro x m hm
    rw [hi] at hm
    cases hm
  have hremoves : (l.step (me i) start timeout p s.disk).1.removes = false := by
    rw [Bool.eq_false_iff]
    intro hremoves
    obtain ⟨rfl, m, hm, hold⟩ := FileLock.stale_of_removes hremoves hcalm
    have hthreshold : (s.stage i).threshold? = some l.staleAfter := by
      rw [hi]
      rfl
    exact absurd (h.age_lt hholders hleft (hpath ▸ FileLock.recordAt?_of_holder? hm) hthreshold)
      (Nat.not_lt.2 hold)
  have hkept := LockStage.keeps_after start timeout p hpath hremoves
  cases hacts : p.acts with
  | false =>
    obtain ⟨p', hstep, -, hopen'⟩ := l.step_of_not_acts (me i) start timeout s.disk hacts
    rw [hstep] at hsound hkept ⊢
    refine h.put_same hsound rfl (fun f hf => ?_) hkept (hmark _)
    rw [LockStage.openFile?_after] at hf
    exact hopen.trans (hopen' f hf)
  | true =>
    cases p with
    | opening =>
      rw [FileLock.step] at hsound hkept ⊢
      rcases ho : s.disk.openFile l.path with ⟨e | f, d'⟩ <;> rw [ho] at hsound hkept <;>
        obtain ⟨hnodes, hplaced, hrecord⟩ := Disk.openFile_place ho <;>
        rw [hpath] at hplaced hrecord
      · refine h.put hsound (hnodes _) ?_ hkept fun m hm => .inr ⟨hrecord m hm, hmark _ m⟩
        rintro g ⟨⟩
      · refine h.put hsound (hnodes _) ?_ hkept fun m hm => .inr ⟨hrecord m hm, hmark _ m⟩
        rintro g ⟨⟩
        exact hplaced f rfl
    | locking f =>
      rw [FileLock.step] at hsound hkept ⊢
      rcases ht : s.disk.tryLock f with _ | d' <;> rw [ht] at hsound hkept
      · exact h.put_bare hsound rfl rfl hkept (hmark _)
      · exact h.put_same hsound (Disk.tree_tryLock ht) (fun g hg => hopen.trans hg) hkept (hmark _)
    | emptying f m =>
      refine h.put_written hsound hopen rfl hkept ?_
      rw [LockMetadata.ofBytes?_empty]
      rintro m' ⟨⟩
    | writing f m =>
      refine h.put_written hsound hopen rfl hkept fun m' hm' => ?_
      rw [LockMetadata.eq_of_ofBytes?_text hm']
      rfl
    | removing m => cases hcalm
    | _ => cases hacts

theorem Calm.step (h : s.Calm path) (hholders : s.HoldersFresh) (hleft : s.LeftFresh path)
    (e : LockEvent ι) : (s.step me path e).Calm path := by
  have hsound : (s.step me path e).Sound := h.sound.step e
  cases e with
  | ask i pollInterval staleAfter timeout =>
    rw [Contest.step] at hsound ⊢
    rcases hi : s.stage i with _ | _ | _ | _ | _ <;> simp only [hi] at hsound
    · refine h.put_bare hsound rfl rfl ⟨rfl, rfl⟩ fun m hm => ?_
      rw [hi] at hm
      cases hm
    all_goals exact h
  | act i =>
    rw [Contest.step] at hsound ⊢
    rcases hi : s.stage i with _ | ⟨l, start, timeout, p⟩ | _ | ⟨f, m⟩ | _ <;>
      simp only [hi] at hsound
    · exact h
    · exact h.attempt hholders hleft hi
    · exact h
    · refine h.put_bare hsound (Lock.tree_close _ _) rfl trivial fun m hm => ?_
      rw [hi] at hm
      cases hm
    · exact h
  | release i =>
    rw [Contest.step] at hsound ⊢
    rcases hi : s.stage i with _ | _ | ⟨f, m⟩ | _ | _ <;> simp only [hi] at hsound
    · exact h
    · exact h
    · refine h.put_written hsound (by rw [hi]; rfl) rfl trivial ?_
      rw [LockMetadata.ofBytes?_empty]
      rintro m' ⟨⟩
    · exact h
    · exact h
  | crash i =>
    rw [Contest.step] at hsound ⊢
    refine h.put_bare hsound ?_ rfl trivial fun m hm => hm
    split
    · exact Lock.tree_close _ _
    · rfl
  | wait ms => exact ⟨hsound, h.placed, h.kept, h.marked⟩

theorem Calm.run (h : s.Calm path) {es : List (LockEvent ι)}
    (hfresh : s.Throughout me path (fun s => s.HoldersFresh ∧ s.LeftFresh path) es) :
    (s.run me path es).Calm path := by
  induction es generalizing s with
  | nil => exact h
  | cons e es ih =>
    obtain ⟨⟨hholders, hleft⟩, hrest⟩ := hfresh
    exact ih (h.step hholders hleft e) hrest

/-- Any number of processes take the lock and give it back in any order of steps, and may crash at
any step.  If in every state no live process has had the lock, and no process that has crashed has
left a record in the file, for as long as the threshold of one that waits, then at most one live
process has the lock. -/
theorem at_most_one_holder (me : ι → Identity) (path : String) (d : Disk) (es : List (LockEvent ι))
    (hd : d.tree.recordAt? (DiskPath.resolve path) = none)
    (hfresh : (start d).Throughout me path (fun s => s.HoldersFresh ∧ s.LeftFresh path) es) :
    ((start d).run me path es).Exclusive :=
  ((calm_start hd).run hfresh).exclusive

/-- Three processes on one host. -/
def three (i : Fin 3) : Identity := ⟨i, "host"⟩

/-- One process crashes with the lock.  A second later another one has the file locked and a third
one reads what is in the file, which is young enough. -/
def youngRecord : List (LockEvent (Fin 3)) :=
  [.ask 0 500 5000 0, .act 0, .act 0, .act 0, .act 0, .crash 0, .wait 1000,
    .ask 1 500 5000 0, .act 1, .act 1,
    .ask 2 500 5000 0, .act 2, .act 2, .act 2, .act 1, .act 1]

theorem at_most_one_holder_youngRecord :
    (start {}).Throughout three "x.lock" (fun s => s.HoldersFresh ∧ s.LeftFresh "x.lock")
        youngRecord ∧
      ((start {}).run three "x.lock" youngRecord).stage 1 =
        .holding ⟨0, 1⟩ ⟨1, "host", 1000⟩ ∧
      ((start {}).run three "x.lock" youngRecord).Exclusive := by
  have hfresh : (start {}).Throughout three "x.lock"
      (fun s => s.HoldersFresh ∧ s.LeftFresh "x.lock") youngRecord := by decide +kernel
  exact ⟨hfresh, by decide +kernel,
    at_most_one_holder three "x.lock" {} youngRecord rfl hfresh⟩

/-- As before, but six seconds later: the third process takes the record in the file for that of
the second one, removes the file, and locks a new one. -/
def lateRemoval : List (LockEvent (Fin 3)) :=
  [.ask 0 500 5000 0, .act 0, .act 0, .act 0, .act 0, .crash 0, .wait 6000,
    .ask 1 500 5000 0, .act 1, .act 1,
    .ask 2 500 5000 0, .act 2, .act 2, .act 2, .act 2, .act 2, .act 2, .act 2,
    .act 1, .act 1, .act 2, .act 2]

/-- It is not enough that no live process has had the lock for too long. -/
theorem lateRemoval_not_exclusive :
    (start {}).Throughout three "x.lock" HoldersFresh lateRemoval ∧
      ¬((start {}).run three "x.lock" lateRemoval).Exclusive := by
  refine ⟨by decide +kernel, fun h => ?_⟩
  have hsecond : (((start {}).run three "x.lock" lateRemoval).stage 1).locked?.isSome := by
    decide +kernel
  have hthird : (((start {}).run three "x.lock" lateRemoval).stage 2).locked?.isSome := by
    decide +kernel
  exact absurd (h 1 2 hsecond hthird) (by decide)

end Contest

end SpecLinkage
