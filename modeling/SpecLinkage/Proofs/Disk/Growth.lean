import SpecLinkage.Proofs.Disk.Places

/-! # Files that are created

Making directories and files loses no file.

* `FileTree.SameBeyond.isFile`: an access that leaves a file at the places it touches loses none.
* `FileTree.Gained`: regular files were added at some paths and none was lost.
* `FileTree.createFiles` writes files below directories that are made first;
  `FileTree.gained_createFiles` says what it gains. -/

namespace SpecLinkage.FileTree

variable {S : Location → Prop} {t t' : FileTree} {path : String} {bytes : ByteArray}

/-! ## Regular files -/

theorem isFile_iff : t.isFile path = true ↔
    t.locate path = .ok (DiskPath.resolve path) ∧
      ∃ bytes, t.bytesAt? (DiskPath.resolve path) = some bytes := by
  rw [isFile, find]
  rcases hl : t.locate path with e | l
  · simp
  · obtain rfl := locate_eq_resolve hl
    rcases hn : t.node? (DiskPath.resolve path) with _ | _ | id <;> simp [bytesAt?, hn]

/-- An access that leaves a file at each place that it touches loses no file. -/
theorem SameBeyond.isFile (h : SameBeyond S t t')
    (hthere : ∀ l, S l → ∃ bytes, t'.bytesAt? l = some bytes) (hp : t.isFile path = true) :
    t'.isFile path = true := by
  obtain ⟨hl, bytes, hbytes⟩ := isFile_iff.1 hp
  refine isFile_iff.2 ⟨locate_mono hl h.directories, ?_⟩
  by_cases hplace : S (DiskPath.resolve path)
  · exact hthere _ hplace
  · exact ⟨bytes, (h.bytes _ hplace).trans hbytes⟩

/-- A written file is at the place that its path names. -/
theorem writeFile_sameBeyond (h : t.writeFile path bytes = .ok t') :
    SameBeyond (· = DiskPath.resolve path) t t' ∧ t'.isFile path = true := by
  rw [writeFile] at h
  rcases ho : t.openOrCreate path with e | ⟨id, t₁⟩ <;> rw [ho] at h <;> cases h
  obtain ⟨hsame, honly⟩ := openOrCreate_sameBeyond ho
  have hwritten := hsame.trans (sameBeyond_setContent honly bytes)
  have hopened : t.locate path = .ok (DiskPath.resolve path) ∧
      t₁.node? (DiskPath.resolve path) = some (.file id) := by
    rw [openOrCreate] at ho
    rcases hl : t.locate path with e | l <;> rw [hl] at ho
    · cases ho
    · obtain rfl := locate_eq_resolve hl
      rcases hn : t.node? (DiskPath.resolve path) with _ | _ | id' <;> simp only [hn] at ho <;>
        cases ho
      · have hroot : DiskPath.resolve path ≠ [] := by
          intro hroot
          rw [hroot] at hn
          cases hn
        exact ⟨rfl, (node?_addFile t .empty hroot _).trans (if_pos rfl)⟩
      · exact ⟨rfl, hn⟩
  refine ⟨hwritten, isFile_iff.2 ⟨locate_mono hopened.1 hwritten.directories, ?_⟩⟩
  exact ⟨_, bytesAt?_of_node? (t := t₁.setContent id bytes) hopened.2⟩

/-! ## Creating files -/

/-- There are regular files at some paths, and every regular file is still there. -/
structure Gained (paths : List String) (t t' : FileTree) : Prop where
  kept : ∀ path, t.isFile path = true → t'.isFile path = true
  added : ∀ path ∈ paths, t'.isFile path = true

/-- Write a file, below directories that are made if they are missing. -/
def createFile (t : FileTree) (path : String) (bytes : ByteArray) : Except AccessError FileTree :=
  match t.makeParent path with
  | .error e => .error e
  | .ok t => t.writeFile path bytes

/-- Write files one after the other. -/
def createFiles (t : FileTree) (files : List (String × ByteArray)) : Except AccessError FileTree :=
  files.foldlM (fun t f => t.createFile f.1 f.2) t

theorem gained_createFile (h : t.createFile path bytes = .ok t') : Gained [path] t t' := by
  rw [createFile] at h
  split at h
  · cases h
  · next t₁ hparent =>
    obtain ⟨hwrite, hfile⟩ := writeFile_sameBeyond h
    have hmade : SameBeyond (· = DiskPath.resolve path) t t' :=
      (makeParent_sameBeyond hparent).trans hwrite
    refine ⟨fun path' hp => hmade.isFile ?_ hp, List.forall_mem_singleton.2 hfile⟩
    rintro l rfl
    exact (isFile_iff.1 hfile).2

/-- Files that were created are there, and no file is lost. -/
theorem gained_createFiles {files : List (String × ByteArray)}
    (h : t.createFiles files = .ok t') : Gained (files.map Prod.fst) t t' := by
  induction files generalizing t with
  | nil =>
    cases h
    exact ⟨fun _ hp => hp, List.forall_mem_nil _⟩
  | cons f files ih =>
    rw [createFiles, List.foldlM_cons] at h
    rcases hfile : t.createFile f.1 f.2 with e | t₁ <;> rw [hfile] at h
    · cases h
    · have hfirst := gained_createFile hfile
      have hrest := ih h
      refine ⟨fun path hp => hrest.kept path (hfirst.kept path hp), ?_⟩
      rw [List.map_cons, List.forall_mem_cons]
      exact ⟨hrest.kept _ (hfirst.added _ List.mem_cons_self), hrest.added⟩

end SpecLinkage.FileTree
