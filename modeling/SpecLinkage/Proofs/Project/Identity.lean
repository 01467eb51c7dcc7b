import Mathlib.Logic.Function.Iterate
import SpecLinkage.Proofs.Project.History
import SpecLinkage.Proofs.SourcePath.Components

/-! # The path of a file in the records

On its way from a call into the records, a path is normalized more than once, and each time loses
one `./` at its start.  As long as a second pass takes nothing more away, a file has one path: its
tags stand where they are looked for when it is modified again or deleted, and where they are after
the store is opened again.

* `IsSettled`: a second pass leaves what the first one has made of a path.
* `isSettled_iff`: these are the paths that do not start with `./` after one pass.
* `IsSettled.iterate`: then so does any number of passes.
* `Project.one_identity`: the file of a settled path is recorded and forgotten under one path.
* `Project.InMemory.exists_history`: in memory, calls happen to the plain map whatever their paths are.
* `Project.InMemory.contains_of_history`: under a path that is not settled nothing is forgotten. -/

namespace SpecLinkage

/-! ## Settled paths -/

/-- Whether normalizing a path twice is normalizing it once. -/
def IsSettled (path : String) : Prop := normalizePath (normalizePath path) = normalizePath path

instance (path : String) : Decidable (IsSettled path) :=
  inferInstanceAs (Decidable (normalizePath (normalizePath path) = normalizePath path))

/-- A path is settled if there is no `./` at its start after one pass. -/
theorem isSettled_iff {path : String} :
    IsSettled path ↔ Text.startsWith ['.', '/'] (normalizePath path).toList = false := by
  rw [IsSettled, ← String.toList_inj]
  conv_lhs => rw [normalizePath, map_slashChar_normalizePath, String.toList_ofList, Text.dropPrefix]
  rw [Text.startsWith]
  rcases hs : Text.stripPrefix? ['.', '/'] (normalizePath path).toList with _ | r
  · simp
  · have hlonger : r ≠ ['.', '/'] ++ r := fun hr => by
      have := congrArg List.length hr
      rw [List.length_append, List.length_cons] at this
      omega
    rw [Text.stripPrefix?_eq_some_iff.1 hs]
    simpa using hlonger

/-- It does not matter how many times a settled path is normalized. -/
theorem IsSettled.iterate {path : String} (h : IsSettled path) (n : Nat) :
    normalizePath^[n + 1] path = normalizePath path := by
  induction n with
  | zero => rfl
  | succ n ih => rw [Function.iterate_succ_apply', ih, h]

/-- The tags of a document under a settled path stand under the normalized path, and they can be
written and read back. -/
theorem IsSettled.proper_ofDocument {path content : String} (h : IsSettled path)
    (hsize : content.length + 1 < UInt64.size) {t : Tag}
    (ht : t ∈ (TagSet.ofDocument path content).tags) :
    t.filePath = normalizePath path ∧ t.Proper := by
  obtain ⟨hfile, hline⟩ := TagSet.place_of_mem_ofDocument ht
  refine ⟨hfile.trans h, ?_, by omega⟩
  rw [hfile, h, h]

namespace TagMap

/-- The tags that take the place of those of a file are the only ones there. -/
theorem mem_values_replaced_iff {m : TagMap} {file : String} {ts : List Tag} {t : Tag}
    (hkeyed : ∀ k u, m.get? k = some u → k = .ofTag u) (hts : ∀ u ∈ ts, u.filePath = file) :
    t ∈ ((m.withoutFile file).upsertAll ts).values ↔
      if t.filePath = file then t.IsLast ts else t ∈ m.values := by
  have hrest : t ∈ m.values ↔ m.get? (.ofTag t) = some t := by
    rw [SortedMap.mem_values_iff]
    exact ⟨fun ⟨k, hk⟩ => hkeyed k t hk ▸ hk, fun hk => ⟨_, hk⟩⟩
  have hget : t ∈ ((m.withoutFile file).upsertAll ts).values ↔
      ((m.withoutFile file).upsertAll ts).get? (.ofTag t) = some t := by
    rw [SortedMap.mem_values_iff]
    refine ⟨fun ⟨k, hk⟩ => ?_, fun hk => ⟨_, hk⟩⟩
    have hkey : k = .ofTag t := by
      rw [get?_upsertAll, Option.or_eq_some_iff] at hk
      rcases hk with hlast | ⟨-, hold⟩
      · exact (lastAt_eq_some_iff.1 hlast).1.symm
      · rw [get?_withoutFile] at hold
        split at hold
        · cases hold
        · exact hkeyed k t hold
    exact hkey ▸ hk
  rw [hget, get?_upsertAll, get?_withoutFile, hrest]
  show Option.or _ (if t.filePath = file then none else m.get? (.ofTag t)) = some t ↔ _
  split
  · rw [Option.or_none, lastAt_eq_some_iff]
    exact and_iff_right rfl
  · next hfile =>
    have hnone : lastAt (.ofTag t) ts = none := by
      rcases hl : lastAt (.ofTag t) ts with _ | u
      · rfl
      · obtain ⟨hkey, before, after, hmem, -⟩ := lastAt_eq_some_iff.1 hl
        have hu := hts u (hmem ▸ List.mem_append_right before List.mem_cons_self)
        exact absurd ((congrArg RecordKey.filePath hkey).symm.trans hu) hfile
    rw [hnone, Option.none_or]

/-- An event forgets nothing but the tags of its file. -/
theorem contains_after {m : TagMap} {e : FileEvent} {file : String} {k : RecordKey}
    (he : e.file? = some file) (hk : k.filePath ≠ normalizePath file)
    (h : m.contains k = true) : (m.after e).contains k = true := by
  have hrest : (m.withoutFile (normalizePath file)).contains k = true :=
    (contains_withoutFile m _ k).2 ⟨h, hk⟩
  cases e with
  | modified path content =>
    cases he
    obtain ⟨t, ht⟩ := (SortedMap.contains_iff _ k).1 hrest
    rw [after_modified, SortedMap.contains_iff, get?_upsertAll, ht]
    generalize lastAt k _ = last
    cases last with
    | none => exact ⟨t, rfl⟩
    | some u => exact ⟨u, rfl⟩
  | deleted path =>
    cases he
    exact hrest
  | cleared => cases he

end TagMap

namespace Project

variable {p q : Project} {path : String} {m : TagMap} {es : List FileEvent}

/-! ## Files with one path -/

theorem relative_congr (h : q.root = p.root) : q.relative = p.relative := by
  funext path
  rw [relative, relative, h]

/-- Opening the store of a project again gives the same tags. -/
theorem tags_of_openAt {file : String} (h : p.workspace.Follows lockName m)
    (hfile : p.workspace.store.path = some file) :
    (Store.openAt p.workspace.disk.tree file).tags = p.tags := by
  show (Store.load p.workspace.disk.tree file).1.entries.values = p.workspace.store.records.tags
  rw [Store.load_records, Records.tags, h.entries, ← (h.file file hfile).validTags]
  exact congrArg SortedMap.values (Records.entries_insertAll {} _)

/-- A file whose path is settled, when it is modified: its tags are those of its content, and all
other tags stay. -/
theorem tags_of_modified {content : String} {n : Nat} (h : p.workspace.Follows lockName m)
    (hm : ∀ t ∈ m.values, t.Proper) (hsettled : IsSettled (p.relative path))
    (hsize : content.length + 1 < UInt64.size)
    (hn : p.occur (.modified path content) = (.ok n, q)) :
    ∃ m', q.workspace.Follows lockName m' ∧ (∀ t ∈ m'.values, t.Proper) ∧
      q.relative = p.relative ∧
      ∀ t, t ∈ q.tags ↔ if t.filePath = normalizePath (p.relative path) then
        t.IsLast (TagSet.ofDocument (p.relative path) content).tags else t ∈ p.tags := by
  have hts := fun t => @IsSettled.proper_ofDocument _ _ hsettled hsize t
  have hproper : ∀ t ∈ (m.after (.modified (p.relative path) content)).values, t.Proper := by
    rw [TagMap.after_modified]
    exact TagMap.proper_replaced hm fun t ht => (hts t ht).2
  obtain ⟨hroot, hfollows, -⟩ :=
    workspace_of_occur (e := .modified path content) h (fun _ => hproper) hn
  refine ⟨_, hfollows, hproper, relative_congr hroot, fun t => ?_⟩
  rw [tags, tags, Store.tags, Store.tags, Records.tags, Records.tags, hfollows.entries,
    FileEvent.mapPath, TagMap.after_modified, h.entries]
  exact TagMap.mem_values_replaced_iff (h.entries ▸ h.indexed.keyed) fun u hu => (hts u hu).1

/-- **A file is recorded and forgotten under one path**, if its path is settled.  After it was
modified twice, its tags are those of the second content, and the tags of other files are as before;
when it is deleted all its tags are forgotten, and no other; and before and after that they can be
read back from the store as they are. -/
theorem one_identity {c₁ c₂ : String} (h : p.workspace.Follows lockName m)
    (hm : ∀ t ∈ m.values, t.Proper) (hsettled : IsSettled (p.relative path))
    (hsize₁ : c₁.length + 1 < UInt64.size) (hsize₂ : c₂.length + 1 < UInt64.size)
    (hun : p.Unhindered [.modified path c₁, .modified path c₂, .deleted path]) :
    let file := normalizePath (p.relative path)
    let ts := (TagSet.ofDocument (p.relative path) c₂).tags
    ∃ q n q', p.history [.modified path c₁, .modified path c₂] = .ok q ∧
      q.fileDeleted path = (.ok n, q') ∧
      (∀ t ∈ ts, t.filePath = file) ∧
      (∀ t, t ∈ q.tags ↔ if t.filePath = file then t.IsLast ts else t ∈ p.tags) ∧
      n = (q.tags.filter fun t => t.filePath == file).length ∧
      (q'.tags = q.tags.filter fun t => t.filePath != file) ∧
      ∀ r ∈ [q, q'], ∀ store, r.workspace.store.path = some store →
        (Store.openAt r.workspace.disk.tree store).tags = r.tags := by
  intro file ts
  obtain ⟨hlock₁, hwrite₁, hun⟩ := hun
  obtain ⟨n₁, p₁, ho₁⟩ := occur_ok h.indexed hlock₁ hwrite₁
  obtain ⟨m₁, h₁, hm₁, hrelative₁, hmem₁⟩ := tags_of_modified h hm hsettled hsize₁ ho₁
  rw [ho₁] at hun
  obtain ⟨hlock₂, hwrite₂, hun⟩ := hun
  obtain ⟨n₂, q, ho₂⟩ := occur_ok h₁.indexed hlock₂ hwrite₂
  obtain ⟨m₂, h₂, hm₂, hrelative₂, hmem₂⟩ :=
    tags_of_modified h₁ hm₁ (hrelative₁.symm ▸ hsettled) hsize₂ ho₂
  rw [ho₂] at hun
  obtain ⟨n, q', ho₃⟩ := occur_ok h₂.indexed hun.1 hun.2.1
  have hdeleted := tags_of_fileDeleted h₂ (fun _ => hm₂) ho₃
  obtain ⟨-, h₃, -⟩ := workspace_of_occur (e := .deleted path) h₂
    (fun _ t ht => hm₂ t (TagMap.mem_values_withoutFile ht)) ho₃
  rw [hrelative₂, hrelative₁] at hdeleted
  rw [hrelative₁] at hmem₂
  refine ⟨q, n, q', ?_, ho₃, fun t ht => (hsettled.proper_ofDocument hsize₂ ht).1, fun t => ?_,
    hdeleted.1, hdeleted.2, ?_⟩
  · simp only [history, ho₁, ho₂]
  · rw [hmem₂]
    split
    · rfl
    · next hfile => rw [hmem₁, if_neg hfile]
  · intro r hr store hstore
    simp only [List.mem_cons, List.not_mem_nil, or_false] at hr
    rcases hr with rfl | rfl
    · exact tags_of_openAt h₂ hstore
    · exact tags_of_openAt h₃ hstore

/-- A path with two `./` at its start is settled when it is known from the root. -/
theorem tags_of_file_with_two_dots :
    ∃ (p q : Project) (n : Nat) (q' : Project), Started "/work" p ∧
      p.history [.modified "././a.rs" "// @CODE:SPEC-A-001",
        .modified "././a.rs" "// @TEST:SPEC-A-002"] = .ok q ∧
      (∀ t, t ∈ q.tags ↔ t = ⟨⟨"A", 2, by decide⟩, .impl, .test, "a.rs", 1, none⟩) ∧
      q.fileDeleted "././a.rs" = (.ok n, q') ∧ q'.tags = [] := by
  obtain ⟨p, hp⟩ := exists_inMemory "/work" (.listed ∅) ⟨1, "host"⟩ {}
  have hrelative : p.relative "././a.rs" = "./a.rs" := by
    rw [relative, (workspace_of_assemble hp).1]
    decide +kernel
  have hfollows := (Started.inMemory hp).follows (by decide +kernel)
  have hun := (inMemory_of_open hp).unhindered [.modified "././a.rs" "// @CODE:SPEC-A-001",
    .modified "././a.rs" "// @TEST:SPEC-A-002", .deleted "././a.rs"]
  obtain ⟨q, n, q', hq, hn, -, hmem, -, htags, -⟩ := one_identity hfollows.workspace
    hfollows.proper (by rw [hrelative]; decide +kernel) (by decide +kernel) (by decide +kernel) hun
  have hfile : normalizePath (p.relative "././a.rs") = "a.rs" := by
    rw [hrelative]
    decide +kernel
  have hdocument : (TagSet.ofDocument (p.relative "././a.rs") "// @TEST:SPEC-A-002").tags =
      [⟨⟨"A", 2, by decide⟩, .impl, .test, "a.rs", 1, none⟩] := by
    rw [hrelative]
    decide +kernel
  have hempty : p.tags = [] := by
    rw [tags, Store.tags, Records.tags, hfollows.workspace.entries]
    rfl
  rw [hfile, hdocument, hempty] at hmem
  have hone : ∀ t, t ∈ q.tags ↔ t = ⟨⟨"A", 2, by decide⟩, .impl, .test, "a.rs", 1, none⟩ := by
    intro t
    rw [hmem]
    split
    · constructor
      · rintro ⟨before, after, hts, -⟩
        exact List.mem_singleton.1 (hts ▸ List.mem_append_right before List.mem_cons_self)
      · rintro rfl
        exact ⟨[], [], rfl, by rintro _ ⟨⟩⟩
    · next hne => exact ⟨by rintro ⟨⟩, fun ht => absurd (ht ▸ rfl) hne⟩
  refine ⟨p, q, n, q', .inMemory hp, hq, hone, hn, ?_⟩
  rw [htags, hfile, List.filter_eq_nil_iff]
  intro t ht
  rw [(hone t).1 ht]
  decide +kernel

/-! ## Files with two paths -/

theorem InMemory.follows (h : p.InMemory) :
    p.workspace.Follows lockName p.workspace.store.records.entries where
  indexed := h.indexed
  entries := rfl
  file := by
    intro path hpath
    rw [h.path] at hpath
    cases hpath
  apart := by
    intro path hpath
    rw [h.path] at hpath
    cases hpath

/-- In memory a call happens to the plain map, whatever the path of its file is. -/
theorem InMemory.exists_occur (h : p.InMemory) (e : FileEvent) :
    ∃ q, p.occur e =
        (.ok ((e.mapPath p.relative).change.onMap p.workspace.store.records.entries).1, q) ∧
      q.InMemory ∧ q.relative = p.relative ∧
      q.workspace.store.records.entries =
        TagMap.after p.workspace.store.records.entries (e.mapPath p.relative) := by
  obtain ⟨hlock, hwrite⟩ := h.not_fails e
  obtain ⟨n, q, ho⟩ := occur_ok h.indexed hlock hwrite
  obtain ⟨hroot, hq, rfl⟩ := workspace_of_occur h.follows (fun hpath => absurd h.path hpath) ho
  have hmemory := h.occur e
  rw [ho] at hmemory
  exact ⟨q, ho, hmemory, relative_congr hroot, hq.entries⟩

/-- In memory all calls go well, and happen to the plain map one after the other. -/
theorem InMemory.exists_history (h : p.InMemory) (es : List FileEvent) :
    ∃ q, p.history es = .ok q ∧ q.InMemory ∧ q.relative = p.relative ∧
      q.workspace.store.records.entries = TagMap.afterAll p.workspace.store.records.entries
        (es.map (FileEvent.mapPath p.relative)) := by
  induction es generalizing p with
  | nil => exact ⟨p, rfl, h, rfl, rfl⟩
  | cons e es ih =>
    obtain ⟨p', ho, h', hrelative, hentries⟩ := h.exists_occur e
    obtain ⟨q, hq, hmemory, hrelative', hentries'⟩ := ih h'
    refine ⟨q, ?_, hmemory, hrelative'.trans hrelative, ?_⟩
    · rw [history, ho]
      exact hq
    · rw [hentries', hentries, hrelative]
      rfl

/-- **Under a path that is not settled nothing is forgotten**: the tags of its documents stand under
another path than the one at which they are replaced and deleted. -/
theorem InMemory.contains_of_history {k : RecordKey} (h : p.InMemory)
    (hpath : ¬IsSettled (p.relative path)) (hes : ∀ e ∈ es, e.file? = some path)
    (hk : k.filePath = normalizePath (normalizePath (p.relative path)))
    (hin : p.workspace.store.records.entries.contains k = true) (hq : p.history es = .ok q) :
    q.workspace.store.records.entries.contains k = true := by
  induction es generalizing p with
  | nil =>
    cases hq
    exact hin
  | cons e es ih =>
    obtain ⟨p', ho, h', hrelative, hentries⟩ := h.exists_occur e
    rw [history, ho] at hq
    have he : (e.mapPath p.relative).file? = some (p.relative path) := by
      have hfile := hes e List.mem_cons_self
      cases e <;> cases hfile <;> rfl
    have hin' := TagMap.contains_after he (by rw [hk]; exact hpath) hin
    rw [← hentries] at hin'
    rw [← hrelative] at hpath hk
    exact ih h' hpath (fun e' h' => hes e' (List.mem_cons_of_mem e h')) hk hin' hq

/-- Three `./` at the start of a path are too many: the tag of the first content stays beside that
of the second, and both stay when the file is deleted. -/
theorem tags_of_file_with_three_dots :
    ∃ p q q' : Project, Project.inMemory "/work" {} (.listed ∅) ⟨1, "host"⟩ {} = .ok p ∧
      p.history [.modified "./././a.rs" "// @CODE:SPEC-A-001",
        .modified "./././a.rs" "// @CODE:SPEC-A-002"] = .ok q ∧
      q.fileDeleted "./././a.rs" = (.ok 0, q') ∧
      q'.tags = [⟨⟨"A", 1, by decide⟩, .impl, .code, "a.rs", 1, none⟩,
        ⟨⟨"A", 2, by decide⟩, .impl, .code, "a.rs", 1, none⟩] := by
  obtain ⟨p, hp⟩ := exists_inMemory "/work" (.listed ∅) ⟨1, "host"⟩ {}
  have hrelative : p.relative "./././a.rs" = "././a.rs" := by
    rw [relative, (workspace_of_assemble hp).1]
    decide +kernel
  have hempty : p.workspace.store.records.entries = ∅ := by
    rw [(workspace_of_assemble hp).2]
    rfl
  obtain ⟨q, hq, hmemory, hsame, hentries⟩ := (inMemory_of_open hp).exists_history
    [.modified "./././a.rs" "// @CODE:SPEC-A-001", .modified "./././a.rs" "// @CODE:SPEC-A-002"]
  obtain ⟨q', hn, -, -, hentries'⟩ := hmemory.exists_occur (.deleted "./././a.rs")
  rw [List.map_cons, List.map_cons, List.map_nil, FileEvent.mapPath, FileEvent.mapPath, hrelative,
    hempty] at hentries
  rw [hsame, FileEvent.mapPath, hrelative, hentries] at hn hentries'
  refine ⟨p, q, q', hp, hq, ?_, ?_⟩
  · rw [show q.fileDeleted "./././a.rs" = _ from hn]
    congr 2
    decide +kernel
  · rw [tags, Store.tags, Records.tags, hentries']
    decide +kernel

end Project

end SpecLinkage
