import SpecLinkage.Proofs.Lock.Exclusion
import SpecLinkage.Proofs.Store.Atomic
import SpecLinkage.Proofs.Store.Refinement
import SpecLinkage.TagSet

/-! # Changes that come to nothing

A change that cannot be written leaves no trace, and a store whose file is there but could not be
read writes nothing: neither directly nor in an update.

* `FileTree.Keeps`: directories stay directories and files stay files.  Then a path that could not
  be read is not read either (`FileTree.Keeps.readBytes_eq`).
* `StoreChange.AllOrNothing` is what a direct change does.
* `Store.Blank`: a store that could not be read has no tags.  This is so in all states that can be
  reached.
* `StaysUnreadable` are the runs in which the file cannot be read when somebody looks at it, and
  `Workspace.Refuses` is what an event does in them; `Refusing.run` goes through such a run.
* `Workspace.performAll_refuses` is the result for all states that can be reached. -/

namespace SpecLinkage

/-! ## Files that cannot be read -/

namespace FileTree

/-- Whether there is something at a path that is no text, or a file is in the way. -/
def Unreadable (t : FileTree) (path : String) : Prop :=
  ∃ e, t.readText path = .error e ∧ e ≠ .missing

/-- From `t` to `t'` directories stay directories and files stay files. -/
structure Keeps (t t' : FileTree) : Prop where
  directories : ∀ l, t.node? l = some .directory → t'.node? l = some .directory
  files : ∀ l id, t.node? l = some (.file id) → ∃ id', t'.node? l = some (.file id')

variable {t t' t'' : FileTree} {path : String}

theorem Keeps.trans (h : t.Keeps t') (h' : t'.Keeps t'') : t.Keeps t'' where
  directories l hl := h'.directories l (h.directories l hl)
  files l id hl := by
    obtain ⟨id', hl'⟩ := h.files l id hl
    exact h'.files l id' hl'

/-- Files stay files if they do so at the places that are touched. -/
theorem SameBeyond.keeps {S : Location → Prop} (h : SameBeyond S t t')
    (hS : ∀ l, S l → ∃ id, t'.node? l = some (.file id)) : t.Keeps t' where
  directories := h.directories
  files l id hl := by
    by_cases hs : S l
    · exact hS l hs
    · exact node?_of_bytesAt? ((h.bytes l hs).trans (bytesAt?_of_node? hl))

theorem toOption_readBytes (t : FileTree) (path : String) :
    (t.readBytes path).toOption =
      if t.locate path = .ok (DiskPath.resolve path) then t.bytesAt? (DiskPath.resolve path)
      else none := by
  rw [readBytes, find]
  rcases hl : t.locate path with e | l
  · rw [if_neg (by rintro ⟨⟩)]
    rfl
  · obtain rfl := locate_eq_resolve hl
    rw [if_pos rfl, bytesAt?]
    dsimp only
    rcases t.node? (DiskPath.resolve path) with _ | _ | id <;> rfl

/-- A path that a file is in the way of cannot be followed later on. -/
theorem Keeps.walk_error (h : t.Keeps t') {here : Location} {ps : List (List Char)}
    {e : AccessError} (hw : t.walk here ps = .error e) (he : e ≠ .missing) :
    t'.walk here ps = .error e := by
  induction ps generalizing here with
  | nil => cases hw
  | cons p ps ih =>
    rw [walk] at hw ⊢
    split
    · next hp => exact ih (by rwa [if_pos hp] at hw)
    · next hp =>
      rw [if_neg hp] at hw
      split
      · next hdots => exact ih (by rwa [if_pos hdots] at hw)
      · next hdots =>
        simp only [if_neg hdots] at hw ⊢
        split
        · next hlast =>
          rw [if_pos hlast] at hw
          cases hw
        · next hlast =>
          rw [if_neg hlast] at hw
          split at hw
          · cases hw
            exact absurd rfl he
          · next id hn =>
            obtain ⟨id', hn'⟩ := h.files _ id hn
            rw [hn']
            exact hw
          · next hn =>
            rw [h.directories _ hn]
            exact ih hw

/-- What cannot be read stays the same, if it does so when there is a file at the end of the
path. -/
theorem Keeps.readBytes_eq (h : t.Keeps t') (hu : t.Unreadable path)
    (hb : t.locate path = .ok (DiskPath.resolve path) →
      t'.bytesAt? (DiskPath.resolve path) = t.bytesAt? (DiskPath.resolve path)) :
    t'.readBytes path = t.readBytes path := by
  obtain ⟨e, hread, he⟩ := hu
  rcases hl : t.locate path with e' | l
  · rw [readText, readBytes, find, hl] at hread
    cases hread
    have hl' : t'.locate path = .error e := h.walk_error hl he
    rw [readBytes, readBytes, find, find, hl, hl']
  · obtain rfl := locate_eq_resolve hl
    have hl' := locate_mono hl h.directories
    have hbytes := hb hl
    rw [readText_of_locate hl] at hread
    rw [readBytes, readBytes, find, find, hl, hl']
    dsimp only
    rcases hn : t.node? (DiskPath.resolve path) with _ | _ | id
    · rw [hn] at hread
      cases hread
      exact absurd rfl he
    · rw [h.directories _ hn]
    · obtain ⟨id', hn'⟩ := h.files _ id hn
      rw [bytesAt?_of_node? hn, bytesAt?_of_node? hn'] at hbytes
      rw [hn']
      dsimp only
      rw [Option.some.inj hbytes]

end FileTree

/-! ## Taking a lock and giving it back -/

/-- In an attempt that has opened the lock file, the file is at its place, and in the end there is
text in it. -/
def FileLock.Placed (l : FileLock) (d : Disk) : LockPhase → Prop
  | .locking f | .emptying f _ | .writing f _ => d.tree.node? l.place = some (.file f.id)
  | .acquired f => d.tree.node? l.place = some (.file f.id) ∧ ∃ s : String,
    d.tree.content f.id = s.toUTF8
  | _ => True

namespace FileLock

variable {l : FileLock} {me : Identity} {start timeout : Nat} {d : Disk}

theorem Placed.step {p : LockPhase} (h : l.Placed d p) :
    l.Placed (l.step me start timeout p d).2 (l.step me start timeout p d).1 := by
  cases p with
  | opening =>
    rw [FileLock.step]
    rcases ho : d.openFile l.path with ⟨e | f, d'⟩
    · trivial
    · exact (Disk.openFile_place ho).2.1 f rfl
  | locking f =>
    rw [FileLock.step]
    rcases ht : d.tryLock f with _ | d'
    · trivial
    · show d'.tree.node? l.place = _
      rw [Disk.tree_tryLock ht]
      exact h
  | emptying f m => exact h
  | writing f m =>
    refine ⟨h, m.text, ?_⟩
    show (d.tree.setContent f.id m.text.toUTF8).content f.id = _
    rw [FileTree.content_setContent, if_pos rfl]
  | inspecting =>
    show l.Placed d (l.judge d.now (l.holder? d))
    rcases l.holder? d with _ | m
    · trivial
    · rw [judge]
      split <;> trivial
  | confirming m =>
    rw [FileLock.step]
    split <;> trivial
  | removing m =>
    rw [FileLock.step]
    split <;> trivial
  | waiting m =>
    simp only [FileLock.step]
    split <;> trivial
  | sleeping wake =>
    rw [FileLock.step]
    split <;> trivial
  | acquired f => exact h
  | failed e => trivial

theorem Placed.run {p : LockPhase} (n : Nat) (h : l.Placed d p) :
    l.Placed (l.run me start timeout n p d).2 (l.run me start timeout n p d).1 := by
  refine run_keeps (P := fun p d => l.Placed d p) (fun p d h => ?_) (fun _ _ h => h.step) n h
  cases p <;> exact h

end FileLock

namespace Lock

/-- When a lock has been taken there is text in its file. -/
theorem acquire_text {me : Identity} {timeout : Nat} {l l' : Lock} {d d' : Disk}
    (h : l.acquire me timeout d = (.ok l', d')) {place : Location} (hat : l.IsAt place) :
    ∃ id, ∃ s : String, d'.tree.node? place = some (.file id) ∧
      d'.tree.content id = s.toUTF8 := by
  rcases l with held | ⟨l, held⟩
  · exact hat.elim
  · obtain rfl : place = l.place := hat
    have hrun : l.Placed (l.run me d.now timeout (8 * (timeout + 3)) .opening d).2
        (l.run me d.now timeout (8 * (timeout + 3)) .opening d).1 :=
      FileLock.Placed.run (p := .opening) _ trivial
    rw [acquire_file] at h
    rcases ha : l.acquire me timeout d with ⟨e | f, d''⟩ <;> rw [ha] at h <;> cases h
    rw [FileLock.run_of_acquire ha] at hrun
    obtain ⟨hn, s, hs⟩ := hrun
    rw [tree_closeOld]
    exact ⟨f.id, s, hn, hs⟩

theorem acquire_keeps {me : Identity} {timeout : Nat} {l l' : Lock} {d d' : Disk}
    (h : l.acquire me timeout d = (.ok l', d')) : d.tree.Keeps d'.tree := by
  have hsame := (acquire_sameBeyond me timeout l d).1
  rw [h] at hsame
  refine hsame.keeps fun place hat => ?_
  obtain ⟨id, -, hn, -⟩ := acquire_text h hat
  exact ⟨id, hn⟩

theorem node?_release (l : Lock) (d : Disk) (loc : Location) :
    (l.release d).2.tree.node? loc = d.tree.node? loc := by
  rcases l with held | ⟨l, _ | f⟩
  · cases held <;> rfl
  · rfl
  · show ((d.overwrite f .empty).close f).tree.node? loc = _
    rw [tree_close]
    rfl

theorem release_keeps (l : Lock) (d : Disk) : d.tree.Keeps (l.release d).2.tree :=
  ⟨fun loc hn => (l.node?_release d loc).trans hn,
    fun loc id hn => ⟨id, (l.node?_release d loc).trans hn⟩⟩

end Lock

/-! ## Direct changes -/

/-- What comes of a direct change: nothing at all, or the records that the change makes, and they
are in the file. -/
structure StoreChange.AllOrNothing (c : StoreChange) (path : String) (s : Store) (t : FileTree) :
    Prop where
  failed : ∀ e, (c.call s t).result = .error e → (c.call s t).store = s ∧
    ((c.call s t).tree.readBytes path).toOption = (t.readBytes path).toOption ∧
    ∀ l, (c.call s t).tree.bytesAt? l = t.bytesAt? l
  written : ∀ n, (c.call s t).result = .ok n → c.isMade s.records = true →
    (c.call s t).store = { s with records := (c.apply s.records).2 } ∧
    (c.call s t).tree.readText path =
      .ok (StoreDocument.ofRecords (.ofTags (c.call s t).store.tags)).text
  unmade : c.isMade s.records = false → c.call s t = ⟨.ok 0, s, t⟩

theorem Store.readBytes_of_write_error {s : Store} {t t' : FileTree} {path : String}
    {e : StoreError} (hpath : s.path = some path) (h : s.write t = (.error e, t')) :
    (t'.readBytes path).toOption = (t.readBytes path).toOption := by
  have hsame := write_error (S := fun _ => False) h
  rw [FileTree.toOption_readBytes, FileTree.toOption_readBytes]
  by_cases hl : t.locate path = .ok (DiskPath.resolve path)
  · rw [if_pos hl, if_pos (FileTree.locate_mono hl hsame.directories), hsame.bytes _ id]
  · rw [if_neg hl]
    split
    · next hl' =>
      rw [write, hpath] at h
      rcases hs : s.status with _ | _ | _ | cause <;> simp only [hs] at h
      case unreadable =>
        cases h
        exact absurd hl' hl
      all_goals
        split at h
        · next hw =>
          cases h
          rw [FileTree.bytesAt?, node?_of_writeAll_error hw hl hl']
        · cases h
    · rfl

theorem Store.allOrNothing {s : Store} {path : String} (hpath : s.path = some path)
    (hd : s.deferred = false) (hi : s.records.Indexed) (c : StoreChange) (t : FileTree) :
    c.AllOrNothing path s t := by
  have hcall := c.call_eq s t
  cases hc : c.isMade s.records with
  | false =>
    rw [hc, if_neg Bool.false_ne_true] at hcall
    refine ⟨fun e he => ?_, fun n _ hmade => ?_, fun _ => hcall⟩
    · rw [hcall] at he
      cases he
    · rw [hc] at hmade
      cases hmade
  | true =>
    rw [hc, if_pos rfl, Store.commit_direct _ _ hd hi] at hcall
    rcases hw : Store.write { s with records := (c.apply s.records).2 } t with ⟨e | _, t'⟩ <;>
      rw [hw] at hcall <;>
      refine ⟨fun e' he => ?_, fun n hn _ => ?_, fun hno => by rw [hc] at hno; cases hno⟩
    · rw [hcall]
      refine ⟨rfl, ?_, fun l => (write_error (S := fun _ => False) hw).bytes l id⟩
      exact readBytes_of_write_error (s := { s with records := (c.apply s.records).2 }) hpath hw
    · rw [hcall] at hn
      cases hn
    · rw [hcall] at he
      cases he
    · have hsaved : Saved (some path) (c.apply s.records).2 t t' := hpath ▸ write_saved hw
      rw [hcall]
      refine ⟨rfl, ?_⟩
      show t'.readText path = .ok (StoreDocument.ofRecords (.ofTags (c.apply s.records).2.tags)).text
      rw [(c.apply_eq_onMap hi).1.ofTags_tags]
      exact hsaved.2.readText

/-! ## Stores that could not be read -/

namespace Store

variable {s : Store} {t : FileTree} {path : String} {cause : StoreError}

theorem load_of_unreadable (h : t.Unreadable path) :
    ∃ cause, load t path = ({}, .unreadable cause) := by
  obtain ⟨e, hread, he⟩ := h
  rw [load, hread]
  cases e with
  | missing => exact absurd rfl he
  | _ => exact ⟨_, rfl⟩

theorem records_of_load (h : (load t path).2 = .unreadable cause) : (load t path).1 = {} := by
  rw [load] at h ⊢
  rcases hread : t.readText path with e | text <;> rw [hread] at h
  · cases e <;> rfl
  · rcases hd : StoreDocument.ofText? text with _ | d <;> simp only [hd] at h <;> cases h

theorem write_of_unreadable (hpath : s.path = some path) (hs : s.status = .unreadable cause)
    (t : FileTree) : s.write t = (.error (.refused path cause), t) := by
  rw [write, hpath]
  simp only [hs]

/-- A store that could not be read refuses every change. -/
theorem call_of_unreadable (hpath : s.path = some path) (hs : s.status = .unreadable cause)
    (hd : s.deferred = false) (hi : s.records.Indexed) (t : FileTree) {c : StoreChange}
    (hc : c.isMade s.records = true) : c.call s t = ⟨.error (.refused path cause), s, t⟩ := by
  have hwrite := write_of_unreadable (s := { s with records := (c.apply s.records).2 }) hpath hs t
  rw [c.call_eq, if_pos hc, commit_direct _ _ hd hi, hwrite]

/-- A store that could not be read has a file and no tags. -/
def Blank (s : Store) : Prop :=
  ∀ cause, s.status = .unreadable cause → s.path ≠ none ∧ s.records = {}

theorem Blank.reload (h : s.Blank) (t : FileTree) : (s.reload t).Blank := by
  intro cause hs
  rcases hpath : s.path with _ | path
  · have hreload : s.reload t = s := by rw [Store.reload, hpath]
    rw [hreload] at hs ⊢
    exact h cause hs
  · refine ⟨by rw [reload_path, hpath]; rintro ⟨⟩, ?_⟩
    rw [Store.reload, hpath] at hs ⊢
    exact records_of_load hs

theorem Blank.call (h : s.Blank) (hd : s.deferred = false) (hi : s.records.Indexed)
    (c : StoreChange) (t : FileTree) : (c.call s t).store.Blank := by
  cases hc : c.isMade s.records with
  | false =>
    rw [c.call_eq, if_neg (by rw [hc]; exact Bool.false_ne_true)]
    exact h
  | true =>
    intro cause hs
    have hcall := c.call_eq s t
    rw [if_pos hc, commit_direct _ _ hd hi] at hcall
    have hsame : s.status = .unreadable cause := by
      rw [hcall] at hs
      rcases hw : write { s with records := (c.apply s.records).2 } t with ⟨e | _, t'⟩ <;>
        rw [hw] at hs <;> exact hs
    obtain ⟨path, hpath⟩ := Option.ne_none_iff_exists'.1 (h cause hsame).1
    rw [call_of_unreadable hpath hsame hd hi t hc]
    exact h cause hsame

end Store

namespace Workspace

variable {α : Type} {w w₁ : Workspace} {path : String} {cause : StoreError}

/-- If the file cannot be read under the lock then a program leaves what was loaded. -/
theorem concluded_of_unreadable (p : StoreProgram α) (hpath : w.reopened.store.path = some path)
    (hs : w.reopened.store.status = .unreadable cause) :
    w.concluded p = (match p.plan w.reopened.store.records with
      | (.error e, _, _) => .error e
      | (.ok a, _, 0) => .ok a
      | (.ok _, _, _ + 1) => .error (.refused path cause), w.reopened) := by
  unfold concluded
  rcases hplan : p.plan w.reopened.store.records with ⟨e | a, r, _ | n⟩
  · rfl
  · rfl
  · obtain rfl : r = w.reopened.store.records := by
      have hr := p.plan_of_unmade (r := w.reopened.store.records) (by rw [hplan])
      rw [hplan] at hr
      exact hr
    rfl
  · have hwrite := Store.write_of_unreadable (s := { w.reopened.store with records := r }) hpath hs
      w.disk.tree
    simp only [hwrite]
    rfl

theorem status_concluded (p : StoreProgram α) (w : Workspace) :
    (w.concluded p).2.store.status = w.reopened.store.status := by
  unfold concluded
  rcases p.plan w.reopened.store.records with ⟨e | a, r, _ | n⟩
  · rfl
  · rfl
  · rfl
  · simp only
    rcases Store.write { w.reopened.store with records := r } w.disk.tree with ⟨e | _, t⟩ <;> rfl

theorem blank_concluded (h : w.store.Blank) (p : StoreProgram α) :
    (w.concluded p).2.store.Blank := by
  have hblank : w.reopened.store.Blank := h.reload w.disk.tree
  intro cause hs
  rw [status_concluded] at hs
  obtain ⟨path, hpath⟩ := Option.ne_none_iff_exists'.1 (hblank cause hs).1
  rw [concluded_of_unreadable p hpath hs]
  exact hblank cause hs

open PlainStore in
theorem blank_perform {p : PlainStore} (hc : Couples w.store p) (h : w.store.Blank)
    (e : StoreEvent α) : (w.perform e).2.store.Blank := by
  cases e with
  | opened path =>
    have hnew : Store.Blank { path } := by rintro cause ⟨⟩
    exact hnew.reload w.disk.tree
  | reloaded => exact h.reload w.disk.tree
  | changed c => exact h.call hc.direct hc.indexed c w.disk.tree
  | updated lock timeout program =>
    have hstore := acquire_store lock timeout w
    rcases hacq : w.acquire lock timeout with ⟨e | _, w₁⟩ <;> rw [hacq] at hstore
    · have hup : w.update lock timeout program.run = (.error (.lock e), w₁) := by
        simp only [update, guarded, hacq]
      simp only [perform, hup]
      exact hstore ▸ h
    · simp only [perform, update_run program hc.indexed hacq, release_store]
      exact blank_concluded (hstore ▸ h) program
  | disturbed disk locks => exact h

open PlainStore in
theorem blank_performAll {p : PlainStore} (es : List (StoreEvent α)) (hc : Couples w.store p)
    (h : w.store.Blank) : (w.performAll es).store.Blank := by
  induction es generalizing w p with
  | nil => exact h
  | cons e es ih => exact ih (perform_couples e hc).1 (blank_perform hc h e)

/-! ## Locks while a file cannot be read -/

theorem acquire_ok {name : String} {timeout : Nat} (h : w.acquire name timeout = (.ok (), w₁)) :
    ∃ l, (w.lock name).acquire w.me timeout w.disk = (.ok l, w₁.disk) := by
  rw [acquire] at h
  rcases ha : (w.lock name).acquire w.me timeout w.disk with ⟨e | l, d⟩ <;>
    rw [ha, keepLock] at h <;> cases h
  exact ⟨l, rfl⟩

/-- If a file cannot be read when a lock has been taken then it is not the file of the lock. -/
theorem not_isAt_of_unreadable {name : String} {timeout : Nat}
    (h : w.acquire name timeout = (.ok (), w₁)) (hu : w₁.disk.tree.Unreadable path)
    (hl : w₁.disk.tree.locate path = .ok (DiskPath.resolve path)) :
    ¬(w.lock name).IsAt (DiskPath.resolve path) := by
  intro hat
  obtain ⟨l, hlock⟩ := acquire_ok h
  obtain ⟨id, s, hn, hs⟩ := Lock.acquire_text hlock hat
  obtain ⟨e, hread, -⟩ := hu
  rw [FileTree.readText_of_locate hl, hn] at hread
  dsimp only at hread
  rw [hs, FileTree.fromUTF8?_toUTF8] at hread
  cases hread

/-- Taking a lock leaves a file that cannot be read before and after. -/
theorem readBytes_acquire {name : String} {timeout : Nat}
    (h : w.acquire name timeout = (.ok (), w₁)) (hu : w.disk.tree.Unreadable path)
    (hu₁ : w₁.disk.tree.Unreadable path) :
    w₁.disk.tree.readBytes path = w.disk.tree.readBytes path := by
  obtain ⟨l, hlock⟩ := acquire_ok h
  have hkeeps := Lock.acquire_keeps hlock
  have hsame := (acquire_footprint name timeout w).1
  rw [h] at hsame
  refine hkeeps.readBytes_eq hu fun hl => hsame.bytes _ ?_
  exact not_isAt_of_unreadable h hu₁ (FileTree.locate_mono hl hkeeps.directories)

/-- If a lock cannot be taken then what cannot be read stays the same. -/
theorem readBytes_acquire_error {name : String} {timeout : Nat} {e : LockError}
    (hnum : w.disk.OwnersNumbered) (h : w.acquire name timeout = (.error e, w₁))
    (hu : w.disk.tree.Unreadable path) :
    w₁.disk.tree.readBytes path = w.disk.tree.readBytes path := by
  rw [acquire] at h
  rcases ha : (w.lock name).acquire w.me timeout w.disk with ⟨e' | l, d⟩ <;>
    rw [ha, keepLock] at h <;> cases h
  have hsame := (Lock.acquire_error_untouched hnum ha).same
  have hkeeps := hsame.keeps fun _ hno => hno.elim
  exact hkeeps.readBytes_eq hu fun _ => hsame.bytes _ id

end Workspace

/-! ## Runs in which the file cannot be read -/

/-- Whether a file cannot be read when an event begins, and when an update has taken its lock or has
failed to do so.  A store is not opened at another file. -/
def StoreEvent.FindsUnreadable {α : Type} (path : String) (w : Workspace) : StoreEvent α → Prop
  | .opened path' => w.disk.tree.Unreadable path ∧ path' = some path
  | .updated lock timeout _ =>
    w.disk.tree.Unreadable path ∧ (w.acquire lock timeout).2.disk.tree.Unreadable path
  | _ => w.disk.tree.Unreadable path

/-- Whether a file cannot be read in a whole run. -/
def StaysUnreadable {α : Type} (path : String) : Workspace → List (StoreEvent α) → Prop
  | _, [] => True
  | w, e :: es => e.FindsUnreadable path w ∧ StaysUnreadable path (w.perform e).2 es

/-- Whether an event is to change a store that has no tags. -/
def StoreEvent.Commits {α : Type} : StoreEvent α → Prop
  | .changed c => c.isMade {} = true
  | .updated _ _ p => (∃ a, (p.plan {}).1 = .ok a) ∧ (p.plan {}).2.2 ≠ 0
  | _ => False

/-- Whether an event is one of the process itself.  If it is an update that does not take its lock
then the locks on the disk have to belong to files. -/
def StoreEvent.IsOwn {α : Type} (w : Workspace) : StoreEvent α → Prop
  | .updated lock timeout _ => (w.acquire lock timeout).1 = .ok () ∨ w.disk.OwnersNumbered
  | .disturbed _ _ => False
  | _ => True

/-- What an event does while the file of a store cannot be read. -/
structure Workspace.Refuses {α : Type} (path : String) (w : Workspace) (e : StoreEvent α) :
    Prop where
  /-- A change is refused, or the lock for it is not taken. -/
  refused : e.Commits → ∃ err, (w.perform e).1 = .error err ∧
    match err with
    | .store err => ∃ cause, err = .refused path cause
    | .lock err => ∃ lock timeout p, e = .updated lock timeout p ∧
      (w.acquire lock timeout).1 = .error err
  empty : (w.perform e).2.store.tags = []
  bytes : e.IsOwn w → (w.perform e).2.disk.tree.readBytes path = w.disk.tree.readBytes path

/-- A store that could not be read, outside of an update. -/
structure Store.Refusing (path : String) (s : Store) : Prop where
  path : s.path = some path
  status : ∃ cause, s.status = .unreadable cause
  records : s.records = {}
  direct : s.deferred = false

namespace Store.Refusing

variable {α : Type} {s : Store} {t : FileTree} {path : String} {w w₁ : Workspace}

theorem of_reload (hpath : s.path = some path) (hd : s.deferred = false)
    (hu : t.Unreadable path) : (s.reload t).Refusing path := by
  obtain ⟨cause, hload⟩ := load_of_unreadable hu
  have hreload : s.reload t = { s with records := {}, status := .unreadable cause } := by
    rw [reload, hpath]
    dsimp only
    rw [hload]
  rw [hreload]
  exact ⟨hpath, ⟨cause, rfl⟩, rfl, hd⟩

theorem tags (h : s.Refusing path) : s.tags = [] := by
  rw [Store.tags, h.records]
  rfl

theorem indexed (h : s.Refusing path) : s.records.Indexed := h.records ▸ Records.indexed_empty

/-- An event that cannot be an error and leaves the disk. -/
theorem refuses_of_ok {e : StoreEvent α} (he : ¬e.Commits)
    (hs : (w.perform e).2.store.Refusing path) (hb : e.IsOwn w →
      (w.perform e).2.disk.tree.readBytes path = w.disk.tree.readBytes path) :
    w.Refuses path e ∧ (w.perform e).2.store.Refusing path :=
  ⟨⟨fun h => absurd h he, hs.tags, hb⟩, hs⟩

/-- A direct change is refused, or there is nothing to change. -/
theorem changed (h : w.store.Refusing path) (c : StoreChange) :
    w.Refuses path (.changed c : StoreEvent α) ∧
      (w.perform (.changed c : StoreEvent α)).2.store.Refusing path := by
  obtain ⟨cause, hs⟩ := h.status
  cases hc : c.isMade w.store.records with
  | false =>
    have hcall : w.perform (.changed c : StoreEvent α) = (.ok (.count 0), w) := by
      simp only [Workspace.perform, Workspace.onStore, Workspace.keepStore, c.call_eq, hc]
      rfl
    refine ⟨⟨fun hmade => ?_, ?_, fun _ => ?_⟩, ?_⟩
    · rw [h.records] at hc
      exact absurd (hmade.symm.trans hc) Bool.true_eq_false_eq_False
    · rw [hcall]
      exact h.tags
    · rw [hcall]
    · rw [hcall]
      exact h
  | true =>
    have hcall : w.perform (.changed c : StoreEvent α) =
        (.error (.store (.refused path cause)), w) := by
      simp only [Workspace.perform, Workspace.onStore, Workspace.keepStore,
        call_of_unreadable h.path hs h.direct h.indexed _ hc]
      rfl
    rw [hcall]
    refine ⟨⟨fun _ => ?_, ?_, fun _ => ?_⟩, h⟩ <;> rw [hcall]
    · exact ⟨_, rfl, cause, rfl⟩
    · exact h.tags

/-- An update does not take its lock, or what it does is refused, or it does nothing. -/
theorem updated (h : w.store.Refusing path) {lock : String} {timeout : Nat} (p : StoreProgram α)
    (hu : w.disk.tree.Unreadable path)
    (hu₁ : (w.acquire lock timeout).2.disk.tree.Unreadable path) :
    w.Refuses path (.updated lock timeout p) ∧
      (w.perform (.updated lock timeout p)).2.store.Refusing path := by
  have hstore := Workspace.acquire_store lock timeout w
  rcases hacq : w.acquire lock timeout with ⟨e | _, w₁⟩ <;> rw [hacq] at hstore hu₁
  · have hperform : w.perform (.updated lock timeout p) = (.error (.lock e), w₁) := by
      simp only [Workspace.perform, Workspace.update, Workspace.guarded, hacq]
      rfl
    have hs : w₁.store.Refusing path := hstore ▸ h
    rw [hperform]
    refine ⟨⟨fun _ => ?_, ?_, fun hown => ?_⟩, hs⟩ <;> rw [hperform]
    · exact ⟨_, rfl, lock, timeout, p, rfl, by rw [hacq]⟩
    · exact hs.tags
    · have hnum : w.disk.OwnersNumbered := by
        refine Or.resolve_left hown fun hok => ?_
        rw [hacq] at hok
        cases hok
      exact Workspace.readBytes_acquire_error hnum hacq hu
  · have hload : (w₁.store.reload w₁.disk.tree).Refusing path :=
      of_reload (hstore ▸ h.path) (hstore ▸ h.direct) hu₁
    have hs : w₁.reopened.store.Refusing path :=
      ⟨hload.path, hload.status, hload.records, rfl⟩
    obtain ⟨cause, hcause⟩ := hs.status
    have hend := Workspace.concluded_of_unreadable p hs.path hcause
    rw [hs.records] at hend
    have hperform : w.perform (.updated lock timeout p) =
        (((w₁.concluded p).1.mapError .store).map .value, (w₁.reopened.release lock).2) := by
      simp only [Workspace.perform, Workspace.update_run p h.indexed hacq, hend]
    have hlast : (w₁.reopened.release lock).2.store.Refusing path := by
      rw [Workspace.release_store]
      exact hs
    rw [hperform]
    refine ⟨⟨fun hmade => ?_, ?_, fun _ => ?_⟩, hlast⟩ <;> rw [hperform]
    · obtain ⟨⟨a, ha⟩, hn⟩ := hmade
      rcases hplan : p.plan {} with ⟨r, r', _ | n⟩ <;> rw [hplan] at ha hn hend
      · exact absurd rfl hn
      · cases ha
        rw [hend]
        exact ⟨_, rfl, cause, rfl⟩
    · exact hlast.tags
    · have hfootprint := Workspace.release_footprint p hacq
      rw [hend] at hfootprint
      have hkeeps : w₁.disk.tree.Keeps (w₁.reopened.release lock).2.disk.tree := by
        rw [Workspace.release, Workspace.tree_keepLock]
        exact Lock.release_keeps _ _
      rw [← Workspace.readBytes_acquire hacq hu hu₁]
      exact hkeeps.readBytes_eq hu₁ fun hl =>
        hfootprint.bytes _ (Workspace.not_isAt_of_unreadable hacq hu₁ hl)

theorem step (h : w.store.Refusing path) {e : StoreEvent α} (he : e.FindsUnreadable path w) :
    w.Refuses path e ∧ (w.perform e).2.store.Refusing path := by
  cases e with
  | opened path' =>
    obtain ⟨hu, rfl⟩ := he
    exact refuses_of_ok id (of_reload (s := { path := some path }) rfl rfl hu) fun _ => rfl
  | reloaded => exact refuses_of_ok id (of_reload h.path h.direct he) fun _ => rfl
  | changed c => exact h.changed c
  | updated lock timeout p => exact h.updated p he.1 he.2
  | disturbed disk locks => exact refuses_of_ok id h False.elim

/-- In a run in which the file cannot be read, the last event changes nothing. -/
theorem run (h : w.store.Refusing path) {es : List (StoreEvent α)} {e : StoreEvent α}
    (hes : StaysUnreadable path w (es ++ [e])) : (w.performAll es).Refuses path e := by
  induction es generalizing w with
  | nil => exact (h.step hes.1).1
  | cons e' es ih => exact ih (h.step hes.1).2 hes.2

end Store.Refusing

/-- In every state that can be reached, a direct change of a store with a file is made and in the
file, or it leaves no trace.  From a state in which the file could not be read, nothing is changed
as long as it cannot be read. -/
theorem Workspace.performAll_refuses {α : Type} (before : List (StoreEvent α)) (w : Workspace)
    (path : String) (hpath : (w.emptied.performAll before).store.path = some path) :
    let w₁ := w.emptied.performAll before
    (∀ c : StoreChange, c.AllOrNothing path w₁.store w₁.disk.tree) ∧
      ∀ cause, w₁.store.status = .unreadable cause →
        ∀ (run : List (StoreEvent α)) (e : StoreEvent α), StaysUnreadable path w₁ (run ++ [e]) →
          (w₁.performAll run).Refuses path e := by
  intro w₁
  have hstart : PlainStore.Couples w.emptied.store PlainStore.start :=
    ⟨rfl, Records.indexed_empty, rfl, rfl⟩
  have hc := performAll_couples before hstart
  have hblank : w₁.store.Blank := blank_performAll before hstart (by rintro cause ⟨⟩)
  refine ⟨fun c => Store.allOrNothing hpath hc.direct hc.indexed c _, fun cause hs run e hrun => ?_⟩
  have hw₁ : w₁.store.Refusing path := ⟨hpath, ⟨cause, hs⟩, (hblank cause hs).2, hc.direct⟩
  exact hw₁.run hrun

/-- A disk with a file that is no text. -/
def noText : Workspace :=
  { me := ⟨1, "host"⟩, disk := { tree := ({} : FileTree).addFile ["s.json"] ⟨#[0xff]⟩ } }

/-- Opening a store at this file. -/
def openNoText : List (StoreEvent Nat) := [.opened (some "s.json")]

/-- Recording a tag. -/
def recordOne : StoreEvent Nat :=
  .changed (.addAll (TagSet.ofContent "a.rs" "// @CODE:SPEC-A-001 impl").tags)

/-- Forgetting all tags in an update. -/
def clearLocked : StoreEvent Nat := .updated "lock" 0 (.change .clear .finish)

theorem performAll_refuses_notText :
    let w := noText.emptied.performAll openNoText
    w.store.path = some "s.json" ∧ w.store.status = .unreadable (.unreadable "s.json" .notText) ∧
      StaysUnreadable "s.json" w [recordOne, clearLocked] ∧ clearLocked.Commits ∧
      (w.performAll [recordOne]).Refuses "s.json" clearLocked := by
  have hpath : (noText.emptied.performAll openNoText).store.path = some "s.json" := rfl
  have hs : (noText.emptied.performAll openNoText).store.status =
      .unreadable (.unreadable "s.json" .notText) := by decide +kernel
  have hstays : StaysUnreadable "s.json" (noText.emptied.performAll openNoText)
      [recordOne, clearLocked] :=
    ⟨⟨.notText, by decide +kernel, by decide⟩, ⟨⟨.notText, by decide +kernel, by decide⟩,
      .notText, by decide +kernel, by decide⟩, trivial⟩
  exact ⟨hpath, hs, hstays, ⟨⟨_, rfl⟩, Nat.one_ne_zero⟩,
    (Workspace.performAll_refuses openNoText noText "s.json" hpath).2 _ hs [recordOne] clearLocked
      hstays⟩

end SpecLinkage
