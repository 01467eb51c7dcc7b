import SpecLinkage.Proofs.Disk.Spelling
import SpecLinkage.Proofs.Store.Atomic
import SpecLinkage.Proofs.Store.Reopen

/-! # One change after the other

A store that nobody else writes holds a plain map, in memory and in its file, and every update
takes it from there.  What was written last is what is loaded next: the file stays as it is while
locks come and go at other places.

* `Store.FileHolds`: a file holds a plain map.
* `Workspace.Follows`: a store holds a plain map, and so does its file.
* `Workspace.Follows.change`: an update with one change that goes well happens to the plain map. -/

namespace SpecLinkage

/-! ## Files -/

namespace Store

/-- The tags of the document at a place; none if there is no document. -/
def tagsAt (t : FileTree) (l : Location) : List Tag :=
  match t.bytesAt? l with
  | none => []
  | some bytes =>
    match String.fromUTF8? bytes with
    | none => []
    | some text => ((StoreDocument.ofText? text).map StoreDocument.tags).getD []

/-- The file at a path holds a plain map, and if there is a tag in it then it can be found. -/
structure FileHolds (t : FileTree) (path : String) (m : TagMap) : Prop where
  tags : TagMap.upsertAll ∅ (tagsAt t (DiskPath.resolve path)) = m
  located : m = ∅ ∨ t.locate path = .ok (DiskPath.resolve path)

variable {t t' : FileTree} {path : String} {m : TagMap}

theorem validTags_of_locate (h : t.locate path = .ok (DiskPath.resolve path)) :
    validTags t path = tagsAt t (DiskPath.resolve path) := by
  rw [validTags, tagsAt, FileTree.readText_of_locate h, FileTree.bytesAt?]
  rcases t.node? (DiskPath.resolve path) with _ | _ | id
  · rfl
  · rfl
  · simp only
    cases String.fromUTF8? (t.content id) <;> rfl

/-- What is loaded from a file is what it holds. -/
theorem FileHolds.validTags (h : FileHolds t path m) :
    TagMap.upsertAll ∅ (validTags t path) = m := by
  rcases hl : t.locate path with e | l
  · have hread : t.readText path = .error e := by
      rw [FileTree.readText, FileTree.readBytes, FileTree.find, hl]
    rcases h.located with rfl | hl'
    · rw [Store.validTags, hread]
      rfl
    · rw [hl] at hl'
      cases hl'
  · obtain rfl := FileTree.locate_eq_resolve hl
    rw [validTags_of_locate hl]
    exact h.tags

/-- Changes at other places leave a file. -/
theorem FileHolds.of_sameBeyond {S : Location → Prop} (h : FileHolds t path m)
    (hs : FileTree.SameBeyond S t t') (hS : ¬S (DiskPath.resolve path)) : FileHolds t' path m where
  tags := by
    rw [tagsAt, hs.bytes _ hS]
    exact h.tags
  located := h.located.imp_right fun hl => FileTree.locate_mono hl hs.directories

/-- A file to which proper records were written holds their tags. -/
theorem Holds.fileHolds {r : Records} (h : Holds t path (textOf r)) (hi : r.Indexed)
    (hp : r.Proper) : FileHolds t path r.entries where
  tags := by
    rw [tagsAt, h.bytes]
    simp only [FileTree.fromUTF8?_toUTF8, hp.ofText?_textOf, Option.map_some, Option.getD_some,
      hp.tags_ofRecords.1]
    have hentries := Records.entries_insertAll {} r.tags
    rw [← Records.ofTags, hi.ofTags_tags] at hentries
    exact hentries.symm
  located := .inr h.located

end Store

/-! ## Workspaces -/

namespace Workspace

/-- A store holds a plain map, in memory and in its file, and its lock has another file. -/
structure Follows (name : String) (w : Workspace) (m : TagMap) : Prop where
  indexed : w.store.records.Indexed
  entries : w.store.records.entries = m
  file : ∀ path, w.store.path = some path → Store.FileHolds w.disk.tree path m
  apart : ∀ path, w.store.path = some path → ¬(w.lock name).IsAt (DiskPath.resolve path)

variable {name : String} {timeout : Nat} {w w' : Workspace} {m : TagMap}

/-- Giving back a lock leaves its place. -/
theorem isAt_release (name : String) (w : Workspace) :
    ((w.release name).2.lock name).IsAt = (w.lock name).IsAt := by
  rw [release]
  rcases hl : w.lock name with held | ⟨l, _ | f⟩
  · cases held
    · rw [Lock.release, keepLock]
      show (w.lock name).IsAt = _
      rw [hl]
    · rw [Lock.release, keepLock, lock_insert]
      rfl
  · rw [Lock.release, keepLock]
    show (w.lock name).IsAt = _
    rw [hl]
  · rw [Lock.release, keepLock, lock_insert]
    rfl

/-- Under the lock, what is loaded is the plain map. -/
theorem Follows.reopened (h : w.Follows name m) : w.reopened.store.records.entries = m := by
  show (w.store.reload w.disk.tree).records.entries = m
  rw [Store.reload]
  cases hp : w.store.path with
  | none => exact h.entries
  | some path =>
    show (Store.load w.disk.tree path).1.entries = m
    rw [Store.load_records]
    exact (Records.entries_insertAll {} _).trans (h.file path hp).validTags

theorem Follows.acquire {w₁ : Workspace} (h : w.Follows name m)
    (hacq : w.acquire name timeout = (.ok (), w₁)) : w₁.Follows name m := by
  have hstore := acquire_store name timeout w
  obtain ⟨hsame, hat⟩ := acquire_footprint name timeout w
  rw [hacq] at hstore hsame hat
  refine ⟨hstore ▸ h.indexed, hstore ▸ h.entries, fun path hp => ?_, fun path hp => ?_⟩
  · rw [hstore] at hp
    exact (h.file path hp).of_sameBeyond hsame (h.apart path hp)
  · rw [hstore] at hp
    rw [(hat rfl).1]
    exact h.apart path hp

/-- Under the lock, a change that goes well happens to the plain map.  The tags after it must be
such that they can be written and read back, unless the store is in memory. -/
theorem Follows.concluded (h : w.Follows name m) {c : StoreChange} {n : Nat}
    (hproper : w.store.path ≠ none → ∀ t ∈ (c.onMap m).2.values, t.Proper)
    (hn : (w.concluded (.change c .finish)).1 = .ok n) :
    (w.concluded (.change c .finish)).2.Follows name (c.onMap m).2 ∧ n = (c.onMap m).1 := by
  have hr := h.reopened
  have hi := reopened_indexed h.indexed
  obtain ⟨hi', he, ha⟩ := c.apply_eq_onMap hi
  rw [hr] at he ha
  have hrecords := concluded_records (.change c .finish) w
  rw [hn] at hrecords
  obtain ⟨hresult, hrecords⟩ := hrecords
  obtain ⟨hpath, hi₂, -, -⟩ := concluded_store (.change c .finish) w h.indexed
  have hwritten := (atomic_concluded (.change c .finish) h.indexed).written n hn
  have hlocks := (concluded_locks (.change c .finish) w).1
  have hentries : (w.concluded (.change c .finish)).2.store.records.entries = (c.onMap m).2 := by
    rw [hrecords]
    exact he
  refine ⟨⟨hi₂, hentries, fun path hp => ?_, fun path hp => ?_⟩, ?_⟩
  · by_cases hmade : c.isMade w.reopened.store.records = true
    · have hcount : (StoreProgram.plan (.change c .finish) w.reopened.store.records).2.2 = 1 := by
        simp only [StoreProgram.plan, if_pos hmade]
      rw [hp, hcount] at hwritten
      have hholds := (Store.writeAll_holds hwritten).2.fileHolds hi₂ (by
        intro t ht
        rw [Records.tags, hentries] at ht
        exact hproper (by rw [← hpath, hp]; exact Option.some_ne_none path) t ht)
      rwa [hentries] at hholds
    · have hcount : (StoreProgram.plan (.change c .finish) w.reopened.store.records).2.2 = 0 := by
        simp only [StoreProgram.plan, if_neg hmade]
      have hsame : (c.onMap m).2 = m := by
        rw [← he, StoreChange.apply_of_not_isMade (Bool.eq_false_iff.2 hmade)]
        exact hr
      rw [hp, hcount] at hwritten
      rw [hwritten, hsame]
      exact h.file path (hpath ▸ hp)
  · rw [lock, hlocks]
    exact h.apart path (hpath ▸ hp)
  · cases hresult
    exact ha

theorem Follows.release (h : w.Follows name m)
    (hs : FileTree.SameBeyond (w.lock name).IsAt w.disk.tree (w.release name).2.disk.tree) :
    (w.release name).2.Follows name m := by
  have hstore := release_store name w
  refine ⟨hstore ▸ h.indexed, hstore ▸ h.entries, fun path hp => ?_, fun path hp => ?_⟩
  · rw [hstore] at hp
    exact (h.file path hp).of_sameBeyond hs (h.apart path hp)
  · rw [hstore] at hp
    rw [isAt_release]
    exact h.apart path hp

/-- An update with one change that goes well happens to the plain map, and answers as it does. -/
theorem Follows.change (h : w.Follows name m) {c : StoreChange} {n : Nat}
    (hproper : w.store.path ≠ none → ∀ t ∈ (c.onMap m).2.values, t.Proper)
    (hn : w.update name timeout (StoreProgram.run (.change c .finish)) = (.ok n, w')) :
    w'.Follows name (c.onMap m).2 ∧ n = (c.onMap m).1 := by
  rcases hacq : w.acquire name timeout with ⟨e | _, w₁⟩
  · simp only [update, guarded, hacq] at hn
    cases hn
  · rw [update_run _ h.indexed hacq] at hn
    have hat := (acquire_footprint name timeout w).2
    rw [hacq] at hat
    obtain ⟨hresult, rfl⟩ := Prod.mk.inj hn
    have hresult : (w₁.concluded (.change c .finish)).1 = .ok n := by
      rcases hend : (w₁.concluded (.change c .finish)).1 with e | a <;> rw [hend] at hresult <;>
        cases hresult
      rfl
    have hstore := acquire_store name timeout w
    rw [hacq] at hstore
    obtain ⟨hfollows, hanswer⟩ := (h.acquire hacq).concluded (hstore ▸ hproper) hresult
    have hlock : ((w₁.concluded (.change c .finish)).2.lock name).IsAt = (w.lock name).IsAt := by
      rw [lock, (concluded_locks (.change c .finish) w₁).1]
      exact (hat rfl).1
    exact ⟨hfollows.release (hlock ▸ release_footprint _ hacq), hanswer⟩

end Workspace

end SpecLinkage
