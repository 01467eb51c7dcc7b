import SpecLinkage.Proofs.Disk.Places
import SpecLinkage.Proofs.Store.Program

/-! # Writing a store

A file can be written or not whatever the text is, and what was written is what is there.

* `Store.writeAll_ok_iff`: when writing succeeds, and what it does.
* `Store.Saved` relates the files before and after a store was written; one write after another
  is as the last one alone.
* `Store.write_again`: where a store could be written once, it can be written again. -/

namespace SpecLinkage.Store

/-! ## One file -/

/-- Writing makes the directories above a path and puts a new file at its place, unless there is
a directory. -/
theorem writeAll_ok_iff {t t' : FileTree} {path text : String} :
    writeAll t path text = (.ok (), t') ↔
      ∃ t₁, t.makeParent path = .ok t₁ ∧ t₁.locate path = .ok (DiskPath.resolve path) ∧
        t₁.node? (DiskPath.resolve path) ≠ some .directory ∧
        t' = t₁.addFile (DiskPath.resolve path) text.toUTF8 := by
  rw [writeAll]
  rcases t.makeParent path with e | t₁
  · exact ⟨by rintro ⟨⟩, by rintro ⟨_, ⟨⟩, -⟩⟩
  · simp only
    constructor
    · intro h
      rcases hr : t₁.replaceFile path text.toUTF8 with e | t₂ <;> rw [hr] at h <;> cases h
      exact ⟨t₁, rfl, FileTree.replaceFile_ok_iff.1 hr⟩
    · rintro ⟨t₂, ⟨⟩, hr⟩
      rw [FileTree.replaceFile_ok_iff.2 hr]

theorem writeAll_error {t t' : FileTree} {path text : String} {e : AccessError}
    {S : Location → Prop} (h : writeAll t path text = (.error e, t')) :
    FileTree.SameBeyond S t t' := by
  rw [writeAll] at h
  rcases hm : t.makeParent path with e' | t₁ <;> rw [hm] at h
  · cases h
    exact .refl _ _
  · simp only at h
    split at h
    · cases h
      exact FileTree.makeParent_sameBeyond hm
    · cases h

/-- A write that fails may make directories; if the path leads to its place only then, there is a
directory. -/
theorem node?_of_writeAll_error {t t' : FileTree} {path text : String} {e : AccessError}
    (h : writeAll t path text = (.error e, t'))
    (hl : t.locate path ≠ .ok (DiskPath.resolve path))
    (hl' : t'.locate path = .ok (DiskPath.resolve path)) :
    t'.node? (DiskPath.resolve path) = some .directory := by
  rw [writeAll] at h
  rcases hm : t.makeParent path with e' | t₁ <;> rw [hm] at h
  · cases h
    exact absurd hl' hl
  · simp only at h
    split at h
    · next hr =>
      cases h
      by_contra hdir
      rw [FileTree.replaceFile_ok_iff.2 ⟨hl', hdir, rfl⟩] at hr
      cases hr
    · cases h

/-- What is at the place of a file that was written. -/
structure Holds (t : FileTree) (path text : String) : Prop where
  made : t.makeParent path = .ok t
  located : t.locate path = .ok (DiskPath.resolve path)
  bytes : t.bytesAt? (DiskPath.resolve path) = some text.toUTF8

theorem Holds.readText {t : FileTree} {path text : String} (h : Holds t path text) :
    t.readText path = .ok text := by
  have hb := h.bytes
  rw [FileTree.readText_of_locate h.located]
  rw [FileTree.bytesAt?] at hb
  rcases hn : t.node? (DiskPath.resolve path) with _ | _ | id <;> simp only [hn] at hb ⊢
  · cases hb
  · cases hb
  · rw [Option.some.inj hb, FileTree.fromUTF8?_toUTF8]

theorem writeAll_holds {t t' : FileTree} {path text : String}
    (h : writeAll t path text = (.ok (), t')) :
    FileTree.SameBeyond (· = DiskPath.resolve path) t t' ∧ Holds t' path text := by
  obtain ⟨t₁, hm, hl, hdir, rfl⟩ := writeAll_ok_iff.1 h
  have hadd := FileTree.sameBeyond_addFile t₁ text.toUTF8 hdir
  exact ⟨(FileTree.makeParent_sameBeyond hm).trans hadd,
    FileTree.makeParent_of_made hm hadd.directories, FileTree.locate_mono hl hadd.directories,
    FileTree.bytesAt?_addFile t₁ _ hdir⟩

/-- Where a text could be written, any other could. -/
theorem writeAll_other {t t' : FileTree} {path text : String} (text' : String)
    (h : writeAll t path text = (.ok (), t')) : ∃ t'', writeAll t path text' = (.ok (), t'') := by
  obtain ⟨t₁, hm, hl, hdir, -⟩ := writeAll_ok_iff.1 h
  exact ⟨_, writeAll_ok_iff.2 ⟨t₁, hm, hl, hdir, rfl⟩⟩

theorem Holds.writeAll {t : FileTree} {path text : String} (h : Holds t path text)
    (text' : String) : ∃ t', writeAll t path text' = (.ok (), t') := by
  have hdir : t.node? (DiskPath.resolve path) ≠ some .directory := by
    intro hdir
    have hb := h.bytes
    rw [FileTree.bytesAt?, hdir] at hb
    cases hb
  exact ⟨_, writeAll_ok_iff.2 ⟨t, h.made, h.located, hdir, rfl⟩⟩

/-! ## A store -/

def textOf (r : Records) : String := (StoreDocument.ofRecords r).text

/-- From `t` to `t'` nothing has changed but the file of a store, and it holds the records. -/
def Saved (path : Option String) (r : Records) (t t' : FileTree) : Prop :=
  match path with
  | none => t' = t
  | some path =>
    FileTree.SameBeyond (· = DiskPath.resolve path) t t' ∧ Holds t' path (textOf r)

/-- A store in memory has nothing to write; another one is written unless its file could not be
read. -/
theorem write_ok_iff {s : Store} {t t' : FileTree} :
    s.write t = (.ok (), t') ↔
      match s.path with
      | none => t' = t
      | some path => (∀ cause, s.status ≠ .unreadable cause) ∧
        writeAll t path (textOf s.records) = (.ok (), t') := by
  rw [write]
  rcases s.path with _ | path
  · constructor
    · rintro ⟨⟩
      rfl
    · rintro rfl
      rfl
  · cases hs : s.status with
    | unreadable cause => exact ⟨by rintro ⟨⟩, fun h => absurd rfl (h.1 cause)⟩
    | _ =>
      dsimp only [textOf]
      rcases writeAll t path (StoreDocument.ofRecords s.records).text with ⟨e | _, t₁⟩
      · exact ⟨by rintro ⟨⟩, by rintro ⟨-, ⟨⟩⟩⟩
      · constructor
        · rintro ⟨⟩
          exact ⟨by rintro _ ⟨⟩, rfl⟩
        · rintro ⟨-, ⟨⟩⟩
          rfl

theorem write_saved {s : Store} {t t' : FileTree} (h : s.write t = (.ok (), t')) :
    Saved s.path s.records t t' := by
  have h := write_ok_iff.1 h
  rcases hp : s.path with _ | path <;> rw [hp] at h
  · exact h
  · exact writeAll_holds h.2

theorem write_error {s : Store} {t t' : FileTree} {e : StoreError} {S : Location → Prop}
    (h : s.write t = (.error e, t')) : FileTree.SameBeyond S t t' := by
  rw [write] at h
  split at h
  · cases h
  · split at h
    · cases h
      exact .refl _ _
    · split at h
      · next hw =>
        cases h
        exact writeAll_error hw
      · cases h

theorem Saved.sameBeyond {path : Option String} {r : Records} {t t' : FileTree}
    (h : Saved path r t t') : ∃ S, FileTree.SameBeyond S t t' := by
  cases path with
  | none => exact ⟨fun _ => False, h ▸ .refl _ _⟩
  | some path => exact ⟨_, h.1⟩

theorem Saved.trans {path : Option String} {r r' : Records} {t t' t'' : FileTree}
    (h : Saved path r t t') (h' : Saved path r' t' t'') : Saved path r' t t'' := by
  cases path with
  | none => exact Eq.trans h' h
  | some path => exact ⟨h.1.trans h'.1, h'.2⟩

/-- Two ways to write the same records lead to the same files. -/
theorem Saved.bytesAt? {path : Option String} {r : Records} {t t' t'' : FileTree}
    (h : Saved path r t t') (h' : Saved path r t t'') (l : Location) :
    t'.bytesAt? l = t''.bytesAt? l := by
  cases path with
  | none => rw [h, h']
  | some path =>
    by_cases hl : l = DiskPath.resolve path
    · rw [hl, h.2.bytes, h'.2.bytes]
    · rw [h.1.bytes l hl, h'.1.bytes l hl]

theorem write_other {s : Store} {t t' : FileTree} (r : Records) (h : s.write t = (.ok (), t')) :
    ∃ t'', write { s with records := r } t = (.ok (), t'') := by
  have h := write_ok_iff.1 h
  rcases hp : s.path with _ | path <;> rw [hp] at h
  · exact ⟨t, write_ok_iff.2 rfl⟩
  · obtain ⟨t'', hw⟩ := writeAll_other (textOf r) h.2
    exact ⟨t'', write_ok_iff.2 ⟨h.1, hw⟩⟩

theorem write_again {s : Store} {t t' : FileTree} (r : Records) (h : s.write t = (.ok (), t')) :
    ∃ t'', write { s with records := r } t' = (.ok (), t'') := by
  have hsaved := write_saved h
  have h := write_ok_iff.1 h
  rcases hp : s.path with _ | path <;> rw [hp] at h hsaved
  · exact ⟨t', write_ok_iff.2 rfl⟩
  · obtain ⟨t'', hw⟩ := hsaved.2.writeAll (textOf r)
    exact ⟨t'', write_ok_iff.2 ⟨h.1, hw⟩⟩

end SpecLinkage.Store
