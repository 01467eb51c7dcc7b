import SpecLinkage.Proofs.Disk.Spelling
import SpecLinkage.Proofs.Project.Documents
import SpecLinkage.Proofs.Store.Program

/-! # What happens to the files of a project

Files are modified and deleted, and now and then everything is forgotten.  The plain map after
any number of such events is determined by the last event of each file.

* `FileEvent.change` is what an event does to a store.
* `FileEvent.lastContent` is the content that a file has by now, if it has been modified since it
  was deleted or forgotten.
* `TagMap.get?_afterAll`: the tag at a key is the last one with this key in the content that its
  file has by now. -/

namespace SpecLinkage

/-! ## Events -/

/-- What happens to the files of a project. -/
inductive FileEvent
  /-- A file was modified and has this content now. -/
  | modified (path content : String)
  | deleted (path : String)
  | cleared

/-- Whether a file is named from the root of its project, in the spelling that is recorded. -/
def IsProjectPath (path : String) : Prop :=
  DiskPath.isAbsolute path = false ∧ normalizePath path = path

namespace FileEvent

def file? : FileEvent → Option String
  | modified path _ => some path
  | deleted path => some path
  | cleared => none

/-- Whether the file of an event is named from the root of the project.  The lines of a content are
numbered with 64 bits, which is enough for any text in memory. -/
def Proper : FileEvent → Prop
  | modified path content => IsProjectPath path ∧ content.length + 1 < UInt64.size
  | deleted path => IsProjectPath path
  | cleared => True

/-- What an event does to a store. -/
def change : FileEvent → StoreChange
  | modified path content => .replace path (TagSet.ofDocument path content).tags
  | deleted path => .remove path
  | cleared => .clear

/-- The same event, with its file under another path. -/
def mapPath (f : String → String) : FileEvent → FileEvent
  | modified path content => modified (f path) content
  | deleted path => deleted (f path)
  | cleared => cleared

def after (file : String) (content : Option String) : FileEvent → Option String
  | modified path new => if path = file then some new else content
  | deleted path => if path = file then none else content
  | cleared => none

/-- The content that a file has by now; none if it is deleted or forgotten, or if nothing has
happened to it. -/
def lastContent (file : String) (es : List FileEvent) : Option String :=
  es.foldl (after file) none

theorem lastContent_append (file : String) (es fs : List FileEvent) :
    lastContent file (es ++ fs) = fs.foldl (after file) (lastContent file es) :=
  List.foldl_append

/-- An event leaves the other files, unless it is about all of them. -/
theorem after_of_ne {file other : String} (content : Option String) {e : FileEvent}
    (he : e.file? = some other) (h : other ≠ file) : e.after file content = content := by
  cases e with
  | modified path new =>
    cases he
    exact if_neg h
  | deleted path =>
    cases he
    exact if_neg h
  | cleared => cases he

theorem after_after (file : String) (content : Option String) (e : FileEvent) :
    e.after file (e.after file content) = e.after file content := by
  cases e with
  | modified path new => by_cases h : path = file <;> simp [after, h]
  | deleted path => by_cases h : path = file <;> simp [after, h]
  | cleared => rfl

theorem after_comm {e₁ e₂ : FileEvent} {f₁ f₂ : String} (h₁ : e₁.file? = some f₁)
    (h₂ : e₂.file? = some f₂) (h : f₁ ≠ f₂) (file : String) (content : Option String) :
    e₂.after file (e₁.after file content) = e₁.after file (e₂.after file content) := by
  by_cases hf : f₁ = file
  · have hne : f₂ ≠ file := fun h' => h (hf.trans h'.symm)
    rw [after_of_ne _ h₂ hne, after_of_ne _ h₂ hne]
  · rw [after_of_ne _ h₁ hf, after_of_ne _ h₁ hf]

/-- A file that has content was modified. -/
theorem proper_of_lastContent {file c : String} {es : List FileEvent} (hes : ∀ e ∈ es, e.Proper)
    (h : lastContent file es = some c) : (modified file c).Proper := by
  suffices hall : ∀ content, (∀ c, content = some c → (modified file c).Proper) →
      ∀ c, es.foldl (after file) content = some c → (modified file c).Proper from
    hall none (by rintro _ ⟨⟩) c h
  clear h
  induction es with
  | nil => exact fun _ hcontent => hcontent
  | cons e es ih =>
    intro content hcontent
    refine ih (fun e' h' => hes e' (List.mem_cons_of_mem e h')) _ ?_
    intro c hc
    have he := hes e List.mem_cons_self
    cases e with
    | modified path new =>
      rw [after] at hc
      split at hc
      · next hpath =>
        cases hc
        exact hpath ▸ he
      · exact hcontent c hc
    | deleted path =>
      rw [after] at hc
      split at hc
      · cases hc
      · exact hcontent c hc
    | cleared => cases hc

end FileEvent

namespace TagMap

/-! ## The plain map after events -/

def after (m : TagMap) (e : FileEvent) : TagMap := (e.change.onMap m).2

theorem after_modified (m : TagMap) (path content : String) :
    m.after (.modified path content) =
      (m.withoutFile (normalizePath path)).upsertAll (TagSet.ofDocument path content).tags := rfl

/-- The plain map after events, the first of them first. -/
def afterAll (m : TagMap) (es : List FileEvent) : TagMap := es.foldl after m

/-- Tags that can be written and read back may take the place of the tags of a file. -/
theorem proper_replaced {m : TagMap} {file : String} {ts : List Tag}
    (h : ∀ t ∈ m.values, t.Proper) (hts : ∀ t ∈ ts, t.Proper) :
    ∀ t ∈ ((m.withoutFile file).upsertAll ts).values, t.Proper := by
  intro t ht
  rcases mem_values_upsertAll ht with ht | ht
  · exact h t (mem_values_withoutFile ht)
  · exact hts t ht

/-- If all tags of a map can be written and read back, then so can those after an event. -/
theorem proper_after {m : TagMap} {e : FileEvent} (he : e.Proper)
    (h : ∀ t ∈ m.values, t.Proper) : ∀ t ∈ (m.after e).values, t.Proper := by
  cases e with
  | modified path content =>
    rw [after_modified]
    exact proper_replaced h fun t ht => (TagSet.proper_ofDocument he.1.2 he.2 ht).2
  | deleted path => exact fun t ht => h t (mem_values_withoutFile ht)
  | cleared => rintro t ⟨⟩

/-- The tag that a content has at a key, if it is the content of the file of the key. -/
def tagAt (k : RecordKey) (content : String) : Option Tag :=
  lastAt k (TagSet.ofDocument k.filePath content).tags

/-- An event changes the tags at a key as it changes the content of their file. -/
theorem get?_after {m : TagMap} {e : FileEvent} {k : RecordKey} {content : Option String}
    (he : e.Proper) (h : m.get? k = content.bind (tagAt k)) :
    (m.after e).get? k = (e.after k.filePath content).bind (tagAt k) := by
  cases e with
  | modified path new =>
    rw [after_modified, he.1.2, get?_upsertAll, get?_withoutFile, FileEvent.after]
    by_cases hk : path = k.filePath
    · rw [if_pos hk.symm, if_pos hk, Option.or_none, hk]
      rfl
    · have hnone : lastAt k (TagSet.ofDocument path new).tags = none := by
        rw [lastAt, List.find?_eq_none]
        intro t ht hkey
        have hfile := (TagSet.place_of_mem_ofDocument (List.mem_reverse.1 ht)).1
        rw [he.1.2, he.1.2] at hfile
        exact hk (hfile.symm.trans (congrArg RecordKey.filePath (of_decide_eq_true hkey)))
      rw [hnone, Option.none_or, if_neg (Ne.symm hk), if_neg hk, h]
  | deleted path =>
    show (m.withoutFile (normalizePath path)).get? k = _
    rw [show normalizePath path = path from he.2, get?_withoutFile, FileEvent.after]
    by_cases hk : path = k.filePath
    · rw [if_pos hk.symm, if_pos hk]
      rfl
    · rw [if_neg (Ne.symm hk), if_neg hk, h]
  | cleared => rfl

/-- The tag at a key is the last one with this key in the content that its file has by now. -/
theorem get?_afterAll {es : List FileEvent} (hes : ∀ e ∈ es, e.Proper) (k : RecordKey) :
    (afterAll ∅ es).get? k = (FileEvent.lastContent k.filePath es).bind (tagAt k) := by
  suffices h : ∀ (m : TagMap) (content : Option String), m.get? k = content.bind (tagAt k) →
      (afterAll m es).get? k = (es.foldl (FileEvent.after k.filePath) content).bind (tagAt k) from
    h ∅ none rfl
  intro m content h
  induction es generalizing m content with
  | nil => exact h
  | cons e es ih =>
    have he := hes e List.mem_cons_self
    exact ih (fun e' h' => hes e' (List.mem_cons_of_mem e h')) _ _ (get?_after he h)

end TagMap

end SpecLinkage
