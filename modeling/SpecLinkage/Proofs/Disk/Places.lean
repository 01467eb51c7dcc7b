import SpecLinkage.Proofs.Order.Listing
import SpecLinkage.Disk.FileTree

/-! # Places in a file tree

What an access touches.  A path that can be followed ends at one place, whatever the files
are: the place that the text of the path names.

* `DiskPath.resolve` is that place, and `FileTree.locate_eq_resolve` says so.
* `FileTree.bytesAt?` is the file at a place.
* `FileTree.SameBeyond` relates trees whose files are the same beyond some places; directories
  may have been made.  It is a preorder, and every access of the disk stands in it.
* `FileTree.OnlyAt`: an open file has no name beyond a place. -/

namespace SpecLinkage

namespace DiskPath

/-- The place that is reached from a directory along pieces, as they are spelled. -/
def follow (here : Location) : List (List Char) → Location
  | [] => here
  | p :: ps =>
    if isInert p then follow here ps
    else if p = ['.', '.'] then follow here.dropLast ps
    else follow (here ++ [String.ofList p]) ps

/-- The place that a path names. -/
def resolve (path : String) : Location := follow [] (pieces path)

end DiskPath

namespace FileTree

/-! ## Looking up -/

def bytesAt? (t : FileTree) (l : Location) : Option ByteArray :=
  match t.node? l with
  | some (.file id) => some (t.content id)
  | _ => none

theorem walk_eq_follow {t : FileTree} {here l : Location} {ps : List (List Char)}
    (h : t.walk here ps = .ok l) : l = DiskPath.follow here ps := by
  induction ps generalizing here with
  | nil =>
    cases h
    rfl
  | cons p ps ih =>
    rw [walk] at h
    rw [DiskPath.follow]
    split
    · next hp => exact ih (by rwa [if_pos hp] at h)
    · next hp =>
      rw [if_neg hp] at h
      split
      · next hdots => exact ih (by rwa [if_pos hdots] at h)
      · next hdots =>
        simp only [if_neg hdots] at h
        split at h
        · next hlast =>
          cases h
          rw [List.isEmpty_iff.1 hlast]
          rfl
        · split at h
          · cases h
          · cases h
          · exact ih h

theorem locate_eq_resolve {t : FileTree} {path : String} {l : Location}
    (h : t.locate path = .ok l) : l = DiskPath.resolve path :=
  walk_eq_follow h

theorem readText_of_locate {t : FileTree} {path : String} {l : Location}
    (h : t.locate path = .ok l) :
    t.readText path = match t.node? l with
      | none => .error .missing
      | some .directory => .error .isDirectory
      | some (.file id) =>
        match String.fromUTF8? (t.content id) with
        | none => .error .notText
        | some s => .ok s := by
  simp only [readText, readBytes, find, h]
  rcases t.node? l with _ | _ | id <;> rfl

/-! ## What stays the same -/

/-- The files of two trees are the same beyond the places `S`; directories stay, and files that
are new have new numbers. -/
structure SameBeyond (S : Location → Prop) (t t' : FileTree) : Prop where
  directories : ∀ l, t.node? l = some .directory → t'.node? l = some .directory
  nextId : t.nextId ≤ t'.nextId
  names : ∀ l id, id < t.nextId → t'.node? l = some (.file id) → t.node? l = some (.file id)
  bytes : ∀ l, ¬S l → t'.bytesAt? l = t.bytesAt? l

variable {S : Location → Prop} {t t' t'' : FileTree}

theorem SameBeyond.refl (S : Location → Prop) (t : FileTree) : SameBeyond S t t :=
  ⟨fun _ h => h, Nat.le_refl _, fun _ _ _ h => h, fun _ _ => rfl⟩

theorem SameBeyond.trans (h : SameBeyond S t t') (h' : SameBeyond S t' t'') :
    SameBeyond S t t'' where
  directories l hl := h'.directories l (h.directories l hl)
  nextId := Nat.le_trans h.nextId h'.nextId
  names l id hid hl := h.names l id hid (h'.names l id (Nat.lt_of_lt_of_le hid h.nextId) hl)
  bytes l hl := (h'.bytes l hl).trans (h.bytes l hl)

/-- The open file `id` has no name beyond a place. -/
structure OnlyAt (t : FileTree) (id : FileId) (place : Location) : Prop where
  numbered : id < t.nextId
  names : ∀ l, t.node? l = some (.file id) → l = place

theorem OnlyAt.of_sameBeyond {id : FileId} {place : Location} (ho : t.OnlyAt id place)
    (h : SameBeyond S t t') : t'.OnlyAt id place :=
  ⟨Nat.lt_of_lt_of_le ho.numbered h.nextId, fun l hl => ho.names l (h.names l id ho.numbered hl)⟩

theorem lt_nextId_of_node? {l : Location} {id : FileId} (h : t.node? l = some (.file id)) :
    id < t.nextId := by
  unfold node? at h
  split at h
  · cases h
  · exact t.numbered l id h

theorem onlyAt_of_node? {l : Location} {id : FileId} (h : t.node? l = some (.file id)) :
    t.OnlyAt id l := by
  refine ⟨lt_nextId_of_node? h, fun l' h' => ?_⟩
  unfold node? at h h'
  split at h
  · cases h
  · split at h'
    · cases h'
    · exact t.named_once l' l id h' h

/-- At a place there is one file. -/
theorem eq_of_node? {l : Location} {id id' : FileId} (h : t.node? l = some (.file id))
    (h' : t.node? l = some (.file id')) : id = id' :=
  Node.file.inj (Option.some.inj (h.symm.trans h'))

/-! ## Single accesses -/

theorem bytesAt?_eq {l : Location} (hn : t'.node? l = t.node? l)
    (hc : ∀ id, t.node? l = some (.file id) → t'.content id = t.content id) :
    t'.bytesAt? l = t.bytesAt? l := by
  rw [bytesAt?, bytesAt?, hn]
  rcases h : t.node? l with _ | _ | id
  · rfl
  · rfl
  · exact congrArg some (hc id h)

theorem node?_of_bytesAt? {l : Location} {bytes : ByteArray} (h : t.bytesAt? l = some bytes) :
    ∃ id, t.node? l = some (.file id) := by
  rw [bytesAt?] at h
  split at h
  · next id hn => exact ⟨id, hn⟩
  · cases h

theorem bytesAt?_of_node? {l : Location} {id : FileId} (h : t.node? l = some (.file id)) :
    t.bytesAt? l = some (t.content id) := by
  rw [bytesAt?, h]

theorem node?_addDirectory (t : FileTree) (l l' : Location) :
    (t.addDirectory l).node? l' = if l' = l then some .directory else t.node? l' := by
  unfold node?
  by_cases hl : l' = l
  · rw [if_pos hl, hl]
    split
    · rfl
    · exact SortedMap.get?_insert_self t.nodes l .directory
  · rw [if_neg hl]
    split
    · rfl
    · exact SortedMap.get?_insert_of_ne t.nodes .directory hl

theorem node?_addFile (t : FileTree) {l : Location} (bytes : ByteArray) (h : l ≠ [])
    (l' : Location) :
    (t.addFile l bytes).node? l' = if l' = l then some (.file t.nextId) else t.node? l' := by
  unfold node?
  by_cases hl : l' = l
  · rw [if_pos hl, hl, if_neg h]
    exact SortedMap.get?_insert_self t.nodes l _
  · rw [if_neg hl]
    split
    · rfl
    · exact SortedMap.get?_insert_of_ne t.nodes _ hl

theorem content_addFile (t : FileTree) (l : Location) (bytes : ByteArray) (id : FileId) :
    (t.addFile l bytes).content id = if id = t.nextId then bytes else t.content id := by
  unfold content
  by_cases h : id = t.nextId
  · rw [if_pos h, h]
    show ((t.contents.insert t.nextId bytes).get? t.nextId).getD .empty = bytes
    rw [SortedMap.get?_insert_self]
    rfl
  · rw [if_neg h]
    show ((t.contents.insert t.nextId bytes).get? id).getD .empty = _
    rw [SortedMap.get?_insert_of_ne _ _ h]

theorem content_setContent (t : FileTree) (id id' : FileId) (bytes : ByteArray) :
    (t.setContent id bytes).content id' = if id' = id then bytes else t.content id' := by
  unfold content
  by_cases h : id' = id
  · rw [if_pos h, h]
    show ((t.contents.insert id bytes).get? id).getD .empty = bytes
    rw [SortedMap.get?_insert_self]
    rfl
  · rw [if_neg h]
    show ((t.contents.insert id bytes).get? id').getD .empty = _
    rw [SortedMap.get?_insert_of_ne _ _ h]

theorem sameBeyond_addDirectory (t : FileTree) {l : Location} (h : t.node? l = none) :
    SameBeyond S t (t.addDirectory l) where
  directories l' hl' := by
    rw [node?_addDirectory]
    split
    · rfl
    · exact hl'
  nextId := Nat.le_refl _
  names l' id _ hl' := by
    rw [node?_addDirectory] at hl'
    split at hl'
    · cases hl'
    · exact hl'
  bytes l' _ := by
    by_cases hl : l' = l
    · rw [bytesAt?, bytesAt?, node?_addDirectory, if_pos hl, hl, h]
    · exact bytesAt?_eq (by rw [node?_addDirectory, if_neg hl]) fun _ _ => rfl

/-- A new file touches the place that it is put at. -/
theorem sameBeyond_addFile (t : FileTree) {l : Location} (bytes : ByteArray)
    (h : t.node? l ≠ some .directory) : SameBeyond (· = l) t (t.addFile l bytes) := by
  have hroot : l ≠ [] := by
    rintro rfl
    exact h rfl
  refine ⟨fun l' hl' => ?_, Nat.le_succ _, fun l' id hid hl' => ?_, fun l' hl' => ?_⟩
  · rw [node?_addFile t bytes hroot]
    split
    · next hl => exact absurd (hl ▸ hl') h
    · exact hl'
  · rw [node?_addFile t bytes hroot] at hl'
    split at hl'
    · cases hl'
      exact absurd hid (Nat.lt_irrefl _)
    · exact hl'
  · refine bytesAt?_eq (by rw [node?_addFile t bytes hroot, if_neg hl']) fun id hn => ?_
    rw [content_addFile, if_neg (Nat.ne_of_lt (lt_nextId_of_node? hn))]

theorem bytesAt?_addFile (t : FileTree) {l : Location} (bytes : ByteArray)
    (h : t.node? l ≠ some .directory) : (t.addFile l bytes).bytesAt? l = some bytes := by
  have hroot : l ≠ [] := by
    rintro rfl
    exact h rfl
  simp only [bytesAt?, node?_addFile t bytes hroot, if_pos, content_addFile]

/-- Overwriting an open file touches the only place that it may have. -/
theorem sameBeyond_setContent {id : FileId} {place : Location} (h : t.OnlyAt id place)
    (bytes : ByteArray) : SameBeyond (· = place) t (t.setContent id bytes) := by
  refine ⟨fun _ hl => hl, Nat.le_refl _, fun _ _ _ hl => hl, fun l hl => ?_⟩
  refine bytesAt?_eq rfl fun id' hn => ?_
  have hne : id' ≠ id := by
    rintro rfl
    exact hl (h.names l hn)
  rw [content_setContent, if_neg hne]

theorem node?_keepNames (t : FileTree) {l : Location} (h : l ≠ []) (l' : Location) :
    (t.keepNames fun l' => l' != l).node? l' = if l' = l then none else t.node? l' := by
  have hget : ∀ l', (t.nodes.filter fun l' _ => l' != l).get? l' =
      if l' = l then none else t.nodes.get? l' := by
    intro l'
    rw [SortedMap.get?_filter]
    by_cases hl : l' = l <;> cases t.nodes.get? l' <;> simp [Option.filter, hl]
  unfold node?
  show (if l' = [] then _ else (t.nodes.filter fun l' _ => l' != l).get? l') = _
  rw [hget]
  by_cases hl : l' = l
  · rw [hl, if_neg h, if_pos rfl, if_pos rfl]
  · rw [if_neg hl, if_neg hl]

theorem sameBeyond_keepNames (t : FileTree) {l : Location} (h : t.node? l ≠ some .directory) :
    SameBeyond (· = l) t (t.keepNames fun l' => l' != l) := by
  have hroot : l ≠ [] := by
    rintro rfl
    exact h rfl
  refine ⟨fun l' hl' => ?_, Nat.le_refl _, fun l' id _ hl' => ?_, fun l' hl' => ?_⟩
  · have hne : l' ≠ l := by
      rintro rfl
      exact h hl'
    rwa [node?_keepNames t hroot, if_neg hne]
  · rw [node?_keepNames t hroot] at hl'
    split at hl'
    · cases hl'
    · exact hl'
  · exact bytesAt?_eq (by rw [node?_keepNames t hroot, if_neg hl']) fun _ _ => rfl

/-! ## Accesses by path -/

theorem walk_mono {here l : Location} {ps : List (List Char)} (h : t.walk here ps = .ok l)
    (hd : ∀ l, t.node? l = some .directory → t'.node? l = some .directory) :
    t'.walk here ps = .ok l := by
  induction ps generalizing here with
  | nil => exact h
  | cons p ps ih =>
    rw [walk] at h ⊢
    split
    · next hp => exact ih (by rwa [if_pos hp] at h)
    · next hp =>
      rw [if_neg hp] at h
      split
      · next hdots => exact ih (by rwa [if_pos hdots] at h)
      · next hdots =>
        simp only [if_neg hdots] at h ⊢
        split
        · next hlast => rwa [if_pos hlast] at h
        · next hlast =>
          rw [if_neg hlast] at h
          split at h
          · cases h
          · cases h
          · next hn =>
            rw [hd _ hn]
            exact ih h

theorem locate_mono {path : String} {l : Location} (h : t.locate path = .ok l)
    (hd : ∀ l, t.node? l = some .directory → t'.node? l = some .directory) :
    t'.locate path = .ok l :=
  walk_mono h hd

theorem makeAlong_sameBeyond {here : Location} {ps : List (List Char)}
    (h : t.makeAlong here ps = .ok t') : SameBeyond S t t' := by
  induction ps generalizing t here with
  | nil =>
    cases h
    exact .refl S _
  | cons p ps ih =>
    rw [makeAlong] at h
    split at h
    · exact ih h
    · split at h
      · exact ih h
      · simp only at h
        split at h
        · next hn => exact (sameBeyond_addDirectory t hn).trans (ih h)
        · cases h
        · exact ih h

theorem makeAlong_of_made {here : Location} {ps : List (List Char)}
    (h : t.makeAlong here ps = .ok t')
    (hd : ∀ l, t'.node? l = some .directory → t''.node? l = some .directory) :
    t''.makeAlong here ps = .ok t'' := by
  induction ps generalizing t here with
  | nil => rfl
  | cons p ps ih =>
    rw [makeAlong] at h ⊢
    split
    · next hp => exact ih (by rwa [if_pos hp] at h)
    · next hp =>
      rw [if_neg hp] at h
      split
      · next hdots => exact ih (by rwa [if_pos hdots] at h)
      · next hdots =>
        simp only [if_neg hdots] at h ⊢
        split at h
        · have hmade := (makeAlong_sameBeyond (S := fun _ => True) h).directories
            (here ++ [String.ofList p]) (by rw [node?_addDirectory, if_pos rfl])
          rw [hd _ hmade]
          exact ih h
        · cases h
        · next hn =>
          rw [hd _ ((makeAlong_sameBeyond (S := fun _ => True) h).directories _ hn)]
          exact ih h

theorem makeParent_sameBeyond {path : String} (h : t.makeParent path = .ok t') :
    SameBeyond S t t' := by
  rw [makeParent] at h
  split at h
  · cases h
    exact .refl S _
  · exact makeAlong_sameBeyond h

theorem makeParent_of_made {path : String} (h : t.makeParent path = .ok t')
    (hd : ∀ l, t'.node? l = some .directory → t''.node? l = some .directory) :
    t''.makeParent path = .ok t'' := by
  rw [makeParent] at h ⊢
  split
  · rfl
  · next dir hdir =>
    rw [hdir] at h
    exact makeAlong_of_made h hd

/-- Opening a file touches the place that its path names, and the file has no other name. -/
theorem openOrCreate_sameBeyond {path : String} {id : FileId}
    (h : t.openOrCreate path = .ok (id, t')) :
    SameBeyond (· = DiskPath.resolve path) t t' ∧ t'.OnlyAt id (DiskPath.resolve path) := by
  rw [openOrCreate] at h
  rcases hl : t.locate path with e | l <;> rw [hl] at h
  · cases h
  · obtain rfl := locate_eq_resolve hl
    rcases hn : t.node? (DiskPath.resolve path) with _ | _ | id' <;> simp only [hn] at h <;> cases h
    · have hdir : t.node? (DiskPath.resolve path) ≠ some .directory := by
        rw [hn]
        rintro ⟨⟩
      have hroot : DiskPath.resolve path ≠ [] := by
        intro hroot
        exact hdir (by rw [hroot]; rfl)
      refine ⟨sameBeyond_addFile t _ hdir, onlyAt_of_node? ?_⟩
      rw [node?_addFile t _ hroot, if_pos rfl]
    · exact ⟨.refl _ t, onlyAt_of_node? hn⟩

theorem removeFile_sameBeyond {path : String} (h : t.removeFile path = .ok t') :
    SameBeyond (· = DiskPath.resolve path) t t' := by
  rw [removeFile] at h
  rcases hl : t.locate path with e | l <;> rw [hl] at h
  · cases h
  · obtain rfl := locate_eq_resolve hl
    rcases hn : t.node? (DiskPath.resolve path) with _ | _ | id <;> simp only [hn] at h <;> cases h
    exact sameBeyond_keepNames t (by rw [hn]; rintro ⟨⟩)

/-- A new file is put at the place that its path names, unless there is a directory. -/
theorem replaceFile_ok_iff {path : String} {bytes : ByteArray} :
    t.replaceFile path bytes = .ok t' ↔
      t.locate path = .ok (DiskPath.resolve path) ∧
        t.node? (DiskPath.resolve path) ≠ some .directory ∧
        t' = t.addFile (DiskPath.resolve path) bytes := by
  rw [replaceFile]
  rcases hl : t.locate path with e | l
  · exact ⟨by rintro ⟨⟩, by rintro ⟨⟨⟩, -⟩⟩
  · obtain rfl := locate_eq_resolve hl
    dsimp only
    split
    · next hdir => exact ⟨by rintro ⟨⟩, fun h => absurd hdir h.2.1⟩
    · next hdir =>
      constructor
      · rintro ⟨⟩
        exact ⟨rfl, hdir, rfl⟩
      · rintro ⟨-, -, rfl⟩
        rfl

end FileTree

end SpecLinkage
