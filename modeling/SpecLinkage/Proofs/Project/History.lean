import SpecLinkage.Project
import SpecLinkage.Proofs.Project.Events
import SpecLinkage.Proofs.Store.Follow

/-! # The history of a project

A project is opened with an empty store, and then called for one event after the other.  If the
lock can be taken every time, and the changed records can be written, then all calls go well, and
the tags are those of the last contents of the files.

* `Project.Started` is a project that has just been opened.
* `Project.occur` is the call for an event, and `Project.history` are the calls for many.
* `Project.Unhindered`: the lock can be taken every time, and the records can be written.
* `Project.Follows.occur`: a call that goes well happens to the plain map.
* `Project.tags_of_history` is the result. -/

namespace SpecLinkage.Project

/-! ## Calls -/

def tags (p : Project) : List Tag := p.workspace.store.tags

/-- The call for an event; the answer is the number of forgotten tags where there is one. -/
def occur (p : Project) : FileEvent → Except UpdateError Nat × Project
  | .modified path content =>
    ((p.afterModification path content).1.map fun _ => 0, (p.afterModification path content).2)
  | .deleted path => p.fileDeleted path
  | .cleared => (p.clear.1.map fun _ => 0, p.clear.2)

/-- The project after the calls for events; the first call that goes wrong is the error. -/
def history (p : Project) : List FileEvent → Except UpdateError Project
  | [] => .ok p
  | e :: es =>
    match p.occur e with
    | (.error err, _) => .error err
    | (.ok _, q) => q.history es

def LockFails (p : Project) : Prop :=
  ∃ e, (p.workspace.acquire lockName p.timeout).1 = .error e

/-- Whether the call for an event has records to write and cannot do so. -/
def WriteFails (p : Project) (e : FileEvent) : Prop :=
  let w := (p.workspace.acquire lockName p.timeout).2.reopened
  let c := (e.mapPath p.relative).change
  c.isMade w.store.records = true ∧
    ∃ err, (Store.write { w.store with records := (c.apply w.store.records).2 } w.disk.tree).1 =
      .error err

/-- Whether every one of the calls for events can take the lock and write its records. -/
def Unhindered (p : Project) : List FileEvent → Prop
  | [] => True
  | e :: es => ¬p.LockFails ∧ ¬p.WriteFails e ∧ (p.occur e).2.Unhindered es

/-- A project that has just been opened at a root, and whose store is empty. -/
inductive Started (root : String) : Project → Prop
  /-- The store is on disk, and there is no tag in its file. -/
  | onDisk {config : Config} {me : Identity} {disk : Disk} {p : Project}
      (h : withConfig root config me disk = .ok p)
      (hempty : Store.tagsAt disk.tree (DiskPath.resolve (config.resolvedStorePath root)) = []) :
      Started root p
  | inMemory {config : Config} {catalog : Catalog} {me : Identity} {disk : Disk} {p : Project}
      (h : inMemory root config catalog me disk = .ok p) : Started root p

variable {p q : Project} {root path : String} {m : TagMap} {e : FileEvent} {es : List FileEvent}

theorem update_map {α β : Type} (f : α → β) (p : Project)
    (body : Workspace → Except StoreError α × Workspace) :
    p.update (fun w => ((body w).1.map f, (body w).2)) =
      ((p.update body).1.map f, (p.update body).2) := by
  unfold update
  rw [Workspace.update_map]

/-- The call for an event is an update with one change, which concerns the file by the path under
which it is known. -/
theorem occur_eq (p : Project) (e : FileEvent) :
    p.occur e = p.update (StoreProgram.run (.change (e.mapPath p.relative).change .finish)) := by
  cases e with
  | modified path content =>
    rw [occur, afterModification, ← update_map]
    congr 1
    funext w
    simp only [modify, StoreProgram.run, Workspace.onStore, Workspace.keepStore, FileEvent.mapPath,
      FileEvent.change, StoreChange.call, Store.Outcome.map]
    cases (w.store.replaceFileTags (p.relative path)
      (TagSet.ofDocument (p.relative path) content).tags w.disk.tree).result <;> rfl
  | deleted path => rfl
  | cleared =>
    rw [occur, clear, ← update_map]
    rfl

/-- A file that is named from the root is known by its name. -/
theorem relative_of_isProjectPath (hroot : DiskPath.isAbsolute p.root = true)
    (h : IsProjectPath path) : p.relative path = path := by
  rw [relative, DiskPath.relativeTo?_of_relative hroot h.1]
  exact h.2

theorem mapPath_relative (hroot : DiskPath.isAbsolute p.root = true) (he : e.Proper) :
    e.mapPath p.relative = e := by
  cases e with
  | modified path content => rw [FileEvent.mapPath, relative_of_isProjectPath hroot he.1]
  | deleted path => rw [FileEvent.mapPath, relative_of_isProjectPath hroot he]
  | cleared => rfl

/-! ## What a project follows -/

/-- The store of a project holds a plain map of tags that can be written and read back. -/
structure Follows (p : Project) (m : TagMap) : Prop where
  absolute : DiskPath.isAbsolute p.root = true
  workspace : p.workspace.Follows lockName m
  proper : ∀ t ∈ m.values, t.Proper

theorem lock_ofList (me : Identity) (disk : Disk) (store : Store) (name : String) (l : Lock) :
    Workspace.lock { me, disk, store, locks := .ofList [(name, l)] } name = l := by
  have hget : (SortedMap.ofList [(name, l)]).get? name = some l := SortedMap.get?_insert_self _ _ _
  rw [Workspace.lock, hget]
  rfl

theorem workspace_of_assemble {config : Config} {catalog : Catalog} {store : Store} {lock : Lock}
    {me : Identity} {disk : Disk} (h : assemble root config catalog store lock me disk = .ok p) :
    p.root = root ∧ p.workspace = { me, disk, store, locks := .ofList [(lockName, lock)] } := by
  unfold assemble at h
  cases hc : config.makeCodePaths with
  | error err =>
    rw [hc] at h
    cases h
  | ok codePaths =>
    rw [hc] at h
    cases h
    exact ⟨rfl, rfl⟩

/-- A project that has just been opened holds the empty map. -/
theorem Started.follows (hroot : DiskPath.isAbsolute root = true) (h : Started root p) :
    p.Follows ∅ := by
  cases h with
  | @onDisk config me disk p h hempty =>
    obtain ⟨rfl, hworkspace⟩ := workspace_of_assemble h
    have hfile : Store.FileHolds disk.tree (config.resolvedStorePath p.root) ∅ := by
      refine ⟨?_, .inl rfl⟩
      rw [hempty]
      rfl
    refine ⟨hroot, ?_, by rintro _ ⟨⟩⟩
    rw [hworkspace]
    refine ⟨?_, ?_, ?_, ?_⟩
    · exact Store.reload_indexed Records.indexed_empty disk.tree
    · show (Store.load disk.tree (config.resolvedStorePath p.root)).1.entries = ∅
      rw [Store.load_records]
      exact (Records.entries_insertAll {} _).trans hfile.validTags
    · rintro _ ⟨⟩
      exact hfile
    · rintro _ ⟨⟩ hat
      rw [lock_ofList] at hat
      exact DiskPath.resolve_append_ne _ ".lock" (by decide) (by decide) (Eq.symm hat)
  | @inMemory config catalog me disk p h =>
    obtain ⟨rfl, hworkspace⟩ := workspace_of_assemble h
    refine ⟨hroot, ?_, by rintro _ ⟨⟩⟩
    rw [hworkspace]
    exact ⟨Records.indexed_empty, rfl, by rintro _ ⟨⟩, by rintro _ ⟨⟩⟩

/-- A call that goes well happens to the plain map, and answers as it does.  The tags after it must
be such that they can be written and read back, unless the store is in memory. -/
theorem workspace_of_occur {n : Nat} (h : p.workspace.Follows lockName m)
    (hproper : p.workspace.store.path ≠ none →
      ∀ t ∈ (m.after (e.mapPath p.relative)).values, t.Proper)
    (hn : p.occur e = (.ok n, q)) :
    q.root = p.root ∧ q.workspace.Follows lockName (m.after (e.mapPath p.relative)) ∧
      n = ((e.mapPath p.relative).change.onMap m).1 := by
  rw [occur_eq, update] at hn
  rcases hw : p.workspace.update lockName p.timeout
    (StoreProgram.run (.change (e.mapPath p.relative).change .finish)) with ⟨result, w⟩
  rw [hw] at hn
  cases hn
  exact ⟨rfl, h.change hproper hw⟩

theorem Follows.occur {n : Nat} (h : p.Follows m) (he : e.Proper) (hn : p.occur e = (.ok n, q)) :
    q.Follows (m.after e) ∧ n = (e.change.onMap m).1 := by
  have hproper := TagMap.proper_after he h.proper
  have hmap := mapPath_relative h.absolute he
  obtain ⟨hroot, hfollows, hanswer⟩ := workspace_of_occur h.workspace
    (fun _ => hmap.symm ▸ hproper) hn
  rw [hmap] at hfollows hanswer
  exact ⟨⟨hroot ▸ h.absolute, hfollows, hproper⟩, hanswer⟩

/-- Calls that all go well happen to the plain map one after the other. -/
theorem Follows.history (h : p.Follows m) (hes : ∀ e ∈ es, e.Proper) (hq : p.history es = .ok q) :
    q.Follows (m.afterAll es) := by
  induction es generalizing p m with
  | nil =>
    cases hq
    exact h
  | cons e es ih =>
    rw [Project.history] at hq
    rcases ho : p.occur e with ⟨err | n, p'⟩
    · rw [ho] at hq
      cases hq
    · rw [ho] at hq
      exact ih (h.occur (hes e List.mem_cons_self) ho).1
        (fun e' h' => hes e' (List.mem_cons_of_mem e h')) hq

/-- A call goes well if it can take the lock and write its records. -/
theorem occur_ok (h : p.workspace.store.records.Indexed) (hlock : ¬p.LockFails)
    (hwrite : ¬p.WriteFails e) :
    ∃ n q, p.occur e = (.ok n, q) := by
  rw [occur_eq, update]
  rcases hacq : p.workspace.acquire lockName p.timeout with ⟨err | _, w⟩
  · exact absurd ⟨err, by rw [hacq]⟩ hlock
  · have hupdate := Workspace.update_change_ok (e.mapPath p.relative).change h hacq (fun hmade => by
        rw [WriteFails, hacq] at hwrite
        rcases hw : (Store.write { w.reopened.store with
            records := ((e.mapPath p.relative).change.apply w.reopened.store.records).2 }
          w.disk.tree).1 with err | _
        · exact absurd ⟨hmade, err, hw⟩ hwrite
        · rfl)
    rcases hw : p.workspace.update lockName p.timeout
      (StoreProgram.run (.change (e.mapPath p.relative).change .finish)) with ⟨result, w'⟩
    rw [hw] at hupdate
    cases hupdate
    exact ⟨_, _, rfl⟩

/-- Calls that can all take the lock and write their records go well. -/
theorem Follows.exists_history (h : p.Follows m) (hes : ∀ e ∈ es, e.Proper)
    (hun : p.Unhindered es) : ∃ q, p.history es = .ok q := by
  induction es generalizing p m with
  | nil => exact ⟨p, rfl⟩
  | cons e es ih =>
    obtain ⟨hlock, hwrite, hun⟩ := hun
    obtain ⟨n, p', ho⟩ := occur_ok h.workspace.indexed hlock hwrite
    rw [ho] at hun
    rw [Project.history, ho]
    exact ih (h.occur (hes e List.mem_cons_self) ho).1
      (fun e' h' => hes e' (List.mem_cons_of_mem e h')) hun

/-- What a project holds determines its records. -/
theorem Follows.records_eq {p' : Project} (h : p.Follows m) (h' : p'.Follows m) :
    p.workspace.store.records = p'.workspace.store.records :=
  h.workspace.indexed.ext h'.workspace.indexed (h.workspace.entries.trans h'.workspace.entries.symm)

theorem Follows.mem_tags_iff {t : Tag} (h : p.Follows m) :
    t ∈ p.tags ↔ ∃ k, m.get? k = some t := by
  rw [← h.workspace.entries]
  exact SortedMap.mem_values_iff _ t

/-- A call for a deleted file forgets the tags that stand under the path by which the file is known,
and says how many there were. -/
theorem tags_of_fileDeleted {n : Nat} (h : p.workspace.Follows lockName m)
    (hm : p.workspace.store.path ≠ none → ∀ t ∈ m.values, t.Proper) (hn : p.fileDeleted path = (.ok n, q)) :
    let file := normalizePath (p.relative path)
    n = (p.tags.filter fun t => t.filePath == file).length ∧
      q.tags = p.tags.filter fun t => t.filePath != file := by
  intro file
  have hproper : p.workspace.store.path ≠ none →
      ∀ t ∈ (m.after (.deleted (p.relative path))).values, t.Proper := fun hpath t ht =>
    hm hpath t (TagMap.mem_values_withoutFile ht)
  obtain ⟨-, hq, hanswer⟩ := workspace_of_occur (e := .deleted path) h hproper hn
  have hi := h.indexed
  constructor
  · rw [hanswer, ← h.entries]
    show (TagMap.ofFile _ file).size = _
    rw [TagMap.ofFile, ← SortedMap.length_keys, SortedMap.keys, List.length_map,
      ← List.length_map, ← SortedMap.values, hi.values_filter fun k => k.filePath == file]
    rfl
  · show q.workspace.store.records.entries.values = _
    rw [hq.entries, ← h.entries]
    show (TagMap.withoutFile _ file).values = _
    rw [TagMap.withoutFile, hi.values_filter fun k => k.filePath != file]
    rfl

theorem Follows.fileDeleted {n : Nat} (h : p.Follows m) (hpath : IsProjectPath path)
    (hn : p.fileDeleted path = (.ok n, q)) :
    n = (p.tags.filter fun t => t.filePath == path).length ∧
      q.tags = p.tags.filter fun t => t.filePath != path := by
  have htags := tags_of_fileDeleted h.workspace (fun _ => h.proper) hn
  rwa [relative_of_isProjectPath h.absolute hpath, hpath.2] at htags

/-! ## In memory -/

/-- Whether a project is in memory, and outside of any call. -/
structure InMemory (p : Project) : Prop where
  indexed : p.workspace.store.records.Indexed
  path : p.workspace.store.path = none
  lock : p.workspace.lock lockName = .memory false

theorem inMemory_of_open {config : Config} {catalog : Catalog} {me : Identity} {disk : Disk}
    (h : Project.inMemory root config catalog me disk = .ok p) : p.InMemory := by
  have hworkspace := (workspace_of_assemble h).2
  refine ⟨?_, ?_, ?_⟩ <;> rw [hworkspace]
  · exact Records.indexed_empty
  · rfl
  · exact lock_ofList me disk _ lockName _

/-- The default settings can be used. -/
theorem exists_inMemory (root : String) (catalog : Catalog) (me : Identity) (disk : Disk) :
    ∃ p, Project.inMemory root {} catalog me disk = .ok p := by
  have hok : ({} : Config).makeCodePaths.isOk = true := by decide +kernel
  unfold Project.inMemory assemble
  rcases hc : ({} : Config).makeCodePaths with err | codePaths
  · rw [hc] at hok
    cases hok
  · exact ⟨_, rfl⟩

/-- In memory the lock is free, and there is nothing to write. -/
theorem InMemory.not_fails (h : p.InMemory) (e : FileEvent) :
    ¬p.LockFails ∧ ¬p.WriteFails e := by
  have hacq := Workspace.acquire_of_inMemory lockName p.timeout h.lock
  constructor
  · rintro ⟨err, herr⟩
    rw [hacq] at herr
    cases herr
  · rintro ⟨-, err, herr⟩
    rw [hacq] at herr
    have hpath := Store.reload_path p.workspace.store p.workspace.disk.tree
    rw [h.path] at hpath
    rw [Store.write] at herr
    simp only [Workspace.reopened, hpath] at herr
    cases herr

theorem InMemory.occur (h : p.InMemory) (e : FileEvent) : (p.occur e).2.InMemory := by
  obtain ⟨-, hindexed, hpath, hlock⟩ := Workspace.update_of_inMemory
    (.change (e.mapPath p.relative).change .finish) lockName p.timeout h.indexed h.path h.lock
  rw [occur_eq, update]
  exact ⟨hindexed, hpath, hlock⟩

/-- In memory nothing is in the way of a call. -/
theorem InMemory.unhindered (h : p.InMemory) (es : List FileEvent) : p.Unhindered es := by
  induction es generalizing p with
  | nil => trivial
  | cons e es ih => exact ⟨(h.not_fails e).1, (h.not_fails e).2, ih (h.occur e)⟩

/-! ## The result -/

/-- A history starts where another one ended. -/
theorem history_append {fs : List FileEvent} (h : p.history es = .ok q) :
    p.history (es ++ fs) = q.history fs := by
  induction es generalizing p with
  | nil =>
    cases h
    rfl
  | cons e es ih =>
    rw [history] at h
    rw [List.cons_append, history]
    rcases ho : p.occur e with ⟨err | n, p'⟩
    · rw [ho] at h
      cases h
    · rw [ho] at h
      exact ih h

/-- Histories of one project that leave the same contents leave the same records. -/
theorem Follows.records_of_history {q' : Project} {fs : List FileEvent} (h : p.Follows ∅)
    (hes : ∀ e ∈ es, e.Proper) (hfs : ∀ e ∈ fs, e.Proper) (hq : p.history es = .ok q)
    (hq' : p.history fs = .ok q')
    (hlast : ∀ file, FileEvent.lastContent file es = FileEvent.lastContent file fs) :
    q.workspace.store.records = q'.workspace.store.records := by
  have hmap : TagMap.afterAll ∅ es = TagMap.afterAll ∅ fs := by
    apply SortedMap.ext_get?
    intro k
    rw [TagMap.get?_afterAll hes, TagMap.get?_afterAll hfs, hlast]
  have hfollows := h.history hes hq
  rw [hmap] at hfollows
  exact hfollows.records_eq (h.history hfs hq')

/-- **The tags of a project are those of the last contents of its files.**  Of tags with one key
the last one in its file is recorded.  A call that is repeated changes nothing; calls for different
files may come in any order; and the call for a deleted file forgets the tags of this file, says how
many there were, and leaves the others. -/
theorem tags_of_history (hroot : DiskPath.isAbsolute root = true) (hp : p.Started root)
    (hes : ∀ e ∈ es, e.Proper) (hun : p.Unhindered es) :
    ∃ q, p.history es = .ok q ∧
      (q.tags.Pairwise fun t u => compare (RecordKey.ofTag t) (RecordKey.ofTag u) = .lt) ∧
      (∀ t, t ∈ q.tags ↔ ∃ file content, FileEvent.lastContent file es = some content ∧
        t.IsLast (TagSet.ofDocument file content).tags) ∧
      (∀ e q₁ q₂, e.Proper → q.history [e] = .ok q₁ → q.history [e, e] = .ok q₂ →
        q₂.workspace.store.records = q₁.workspace.store.records) ∧
      (∀ e₁ e₂ f₁ f₂ q₁ q₂, e₁.Proper → e₂.Proper → e₁.file? = some f₁ → e₂.file? = some f₂ →
        f₁ ≠ f₂ → q.history [e₁, e₂] = .ok q₁ → q.history [e₂, e₁] = .ok q₂ →
        q₁.workspace.store.records = q₂.workspace.store.records) ∧
      (∀ path n q', IsProjectPath path → q.fileDeleted path = (.ok n, q') →
        n = (q.tags.filter fun t => t.filePath == path).length ∧
          q'.tags = q.tags.filter fun t => t.filePath != path) := by
  have hstart := hp.follows hroot
  obtain ⟨q, hq⟩ := hstart.exists_history hes hun
  have hfollows := hstart.history hes hq
  have happend : ∀ fs, (∀ e ∈ fs, e.Proper) → ∀ e ∈ es ++ fs, e.Proper := fun fs hfs e he =>
    (List.mem_append.1 he).elim (hes e) (hfs e)
  refine ⟨q, hq, hfollows.workspace.indexed.tags_pairwise, ?_, ?_, ?_, fun path n q' hpath hn =>
    hfollows.fileDeleted hpath hn⟩
  · intro t
    rw [hfollows.mem_tags_iff]
    constructor
    · rintro ⟨k, hk⟩
      rw [TagMap.get?_afterAll hes, Option.bind_eq_some_iff] at hk
      obtain ⟨content, hcontent, hlast⟩ := hk
      exact ⟨k.filePath, content, hcontent, (TagMap.lastAt_eq_some_iff.1 hlast).2⟩
    · rintro ⟨file, content, hcontent, hlast⟩
      have hmem : t ∈ (TagSet.ofDocument file content).tags := by
        obtain ⟨before, after, hts, -⟩ := hlast
        rw [hts]
        exact List.mem_append_right before List.mem_cons_self
      have hproper := FileEvent.proper_of_lastContent hes hcontent
      obtain rfl := (TagSet.proper_ofDocument hproper.1.2 hproper.2 hmem).1
      refine ⟨.ofTag t, ?_⟩
      rw [TagMap.get?_afterAll hes, Option.bind_eq_some_iff]
      exact ⟨content, hcontent, TagMap.lastAt_eq_some_iff.2 ⟨rfl, hlast⟩⟩
  · intro e q₁ q₂ he h₁ h₂
    have hone : ∀ e' ∈ [e], e'.Proper := by simp [he]
    have htwo : ∀ e' ∈ [e, e], e'.Proper := by simp [he]
    rw [← history_append hq] at h₁ h₂
    refine hstart.records_of_history (happend _ htwo) (happend _ hone) h₂ h₁ fun file => ?_
    rw [FileEvent.lastContent_append, FileEvent.lastContent_append]
    exact FileEvent.after_after file _ e
  · intro e₁ e₂ f₁ f₂ q₁ q₂ he₁ he₂ hf₁ hf₂ hne h₁ h₂
    have h₁₂ : ∀ e ∈ [e₁, e₂], e.Proper := by simp [he₁, he₂]
    have h₂₁ : ∀ e ∈ [e₂, e₁], e.Proper := by simp [he₁, he₂]
    rw [← history_append hq] at h₁ h₂
    refine hstart.records_of_history (happend _ h₁₂) (happend _ h₂₁) h₁ h₂ fun file => ?_
    rw [FileEvent.lastContent_append, FileEvent.lastContent_append]
    exact FileEvent.after_comm hf₁ hf₂ hne file _

/-- A file is read again: the tag of its first content is forgotten. -/
theorem tags_of_file_read_again :
    ∃ p q : Project, Started "/work" p ∧
      p.history [.modified "a.rs" "// @CODE:SPEC-A-001", .modified "a.rs" "// @TEST:SPEC-A-002"] =
        .ok q ∧
      ∀ t, t ∈ q.tags ↔ t = ⟨⟨"A", 2, by decide⟩, .impl, .test, "a.rs", 1, none⟩ := by
  obtain ⟨p, hp⟩ := exists_inMemory "/work" (.listed ∅) ⟨1, "host"⟩ {}
  have hproper : ∀ e ∈ [FileEvent.modified "a.rs" "// @CODE:SPEC-A-001",
      .modified "a.rs" "// @TEST:SPEC-A-002"], e.Proper := by
    intro e he
    have hpath : IsProjectPath "a.rs" := by
      rw [IsProjectPath]
      decide +kernel
    simp only [List.mem_cons, List.not_mem_nil, or_false] at he
    rcases he with rfl | rfl
    · exact ⟨hpath, by decide +kernel⟩
    · exact ⟨hpath, by decide +kernel⟩
  obtain ⟨q, hq, -, hmem, -⟩ := tags_of_history (by decide +kernel) (.inMemory hp) hproper
    ((inMemory_of_open hp).unhindered _)
  have hdocument : (TagSet.ofDocument "a.rs" "// @TEST:SPEC-A-002").tags =
      [⟨⟨"A", 2, by decide⟩, .impl, .test, "a.rs", 1, none⟩] := by decide +kernel
  refine ⟨p, q, .inMemory hp, hq, fun t => ?_⟩
  rw [hmem]
  constructor
  · rintro ⟨file, content, hcontent, before, after, hts, -⟩
    rw [FileEvent.lastContent, List.foldl_cons, List.foldl_cons, List.foldl_nil, FileEvent.after,
      FileEvent.after] at hcontent
    split at hcontent
    · next hfile =>
      cases hcontent
      have ht : t ∈ before ++ t :: after := List.mem_append_right before List.mem_cons_self
      rw [← hts, ← hfile, hdocument] at ht
      exact List.mem_singleton.1 ht
    · cases hcontent
  · rintro rfl
    exact ⟨"a.rs", _, rfl, [], [], hdocument, by rintro _ ⟨⟩⟩

end SpecLinkage.Project
