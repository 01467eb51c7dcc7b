import SpecLinkage.CodePaths
import SpecLinkage.Proofs.Glob.Plain
import SpecLinkage.Proofs.Text.Words

/-! # Code by globs, extensions and directories

Code is told from other files by globs.  For plain directories the globs say no more than
the tests that the rest of a project uses: `Language.ofPath?` for the language of a file and
`isUnder` for a directory.

* `CodePaths.isCode_of_make`: the decision in terms of the globs as they are written.
* `CodePaths.any_includeGlobs`: the globs of languages and plain directories select what
  those two tests select, in every mode.
* `CodePaths.isCode_of_more`: excludes only ever exclude. -/

namespace SpecLinkage

open Text

/-! ## Lists of globs -/

section
variable {globs : List String} {read : List (List Glob.Token)}

theorem exists_readGlobs (h : ∀ g ∈ globs, (Glob.parse? g).isSome = true) :
    ∃ read, readGlobs globs = .ok read := by
  induction globs with
  | nil => exact ⟨[], rfl⟩
  | cons g globs ih =>
    obtain ⟨tokens, hg⟩ := Option.isSome_iff_exists.1 (h g List.mem_cons_self)
    obtain ⟨read, hread⟩ := ih fun g' hg' => h g' (List.mem_cons_of_mem g hg')
    exact ⟨tokens :: read, by rw [readGlobs, hg, hread]⟩

/-- A path that the globs match is accepted by one of their texts. -/
theorem any_readGlobs (h : readGlobs globs = .ok read) (path : String) :
    read.any (Glob.isMatch · path) = globs.any (Glob.accepts · path) := by
  induction globs generalizing read with
  | nil => cases h; rfl
  | cons g globs ih =>
    rw [readGlobs] at h
    split at h
    · cases h
    · next tokens hg =>
      split at h
      · cases h
      · next read' hread =>
        cases h
        rw [List.any_cons, List.any_cons, ih hread, Glob.accepts, hg, Option.any_some]

end

/-- Whether an exclude matches the path, one of the project or one that all projects have. -/
def isExcluded (excludes : List String) (path : String) : Bool :=
  (globalExcludes ++ excludes).any (Glob.accepts · path)

theorem isExcluded_mono {excludes more : List String} (h : ∀ g ∈ excludes, g ∈ more)
    {path : String} (hpath : isExcluded excludes path = true) : isExcluded more path = true := by
  rw [isExcluded, List.any_append, Bool.or_eq_true, List.any_eq_true, List.any_eq_true] at hpath ⊢
  exact hpath.imp_right fun ⟨g, hg, haccepts⟩ => ⟨g, h g hg, haccepts⟩

/-! ## Languages -/

namespace Language

variable {l : Language} {e path : String}

theorem extensions_plain (l : Language) :
    ∀ e ∈ l.extensions, e.toList.all (fun c => Glob.isPlain c && c != '.' && c != '/') = true := by
  cases l <;> decide

/-- No two languages share an extension. -/
theorem find?_extensions (l : Language) :
    ∀ e ∈ l.extensions, all.find? (·.extensions.contains e) = some l := by
  cases l <;> decide

theorem isPlain_of_mem_extensions (h : e ∈ l.extensions) :
    e.toList.all Glob.isPlain = true := by
  have hplain := extensions_plain l e h
  simp only [List.all_eq_true, Bool.and_eq_true] at hplain ⊢
  exact fun c hc => (hplain c hc).1.1

theorem extension?_eq_some_iff :
    extension? path = some e ↔
      endsWith ('.' :: e.toList) path.toList = true ∧ '.' ∉ e.toList ∧ '/' ∉ e.toList := by
  rw [endsWith_iff, extension?]
  constructor
  · intro h
    split at h
    · cases h
    · next a e' hsplit =>
      obtain ⟨hpath, hdot⟩ := splitLast?_eq_some_iff.1 hsplit
      split at h
      · cases h
      · next hslash =>
        obtain rfl := Option.some.inj h
        rw [String.toList_ofList]
        exact ⟨⟨a, hpath⟩, hdot, hslash⟩
  · rintro ⟨⟨a, hpath⟩, hdot, hslash⟩
    simp [splitLast?_eq_some_iff.2 ⟨hpath, hdot⟩, hslash]

/-- A file is in the language that has its extension. -/
theorem ofPath?_eq_some_iff :
    ofPath? path = some l ↔ ∃ e ∈ l.extensions, endsWith ('.' :: e.toList) path.toList = true := by
  rw [ofPath?, Option.bind_eq_some_iff]
  constructor
  · rintro ⟨e, he, hl⟩
    exact ⟨e, by simpa using List.find?_some hl, (extension?_eq_some_iff.1 he).1⟩
  · rintro ⟨e, he, hpath⟩
    have hplain := extensions_plain l e he
    simp only [List.all_eq_true, Bool.and_eq_true, bne_iff_ne] at hplain
    exact ⟨e, extension?_eq_some_iff.2
      ⟨hpath, fun h => (hplain _ h).1.2 rfl, fun h => (hplain _ h).2 rfl⟩,
      find?_extensions l e he⟩

/-- The globs of a language accept its files. -/
theorem any_globs_accepts :
    l.globs.any (Glob.accepts · path) = true ↔ ofPath? path = some l := by
  rw [ofPath?_eq_some_iff, globs, List.any_map, List.any_eq_true]
  refine exists_congr fun e => and_congr_right fun he => ?_
  rw [Function.comp_apply, Glob.accepts_extension (isPlain_of_mem_extensions he)]

theorem globs_isSome (l : Language) : ∀ g ∈ l.globs, (Glob.parse? g).isSome = true := by
  intro g hg
  obtain ⟨e, he, rfl⟩ := List.mem_map.1 hg
  rw [Glob.parse?_extension (isPlain_of_mem_extensions he)]
  rfl

end Language

/-! ## Directories -/

/-- Whether an entry for a directory is no glob. -/
def isBareEntry (entry : String) : Bool :=
  entry.toList.all fun c => !(isGlobChar c || c == '\x7d')

/-- Normalizing only turns backslashes into slashes and cuts at both ends. -/
theorem mem_trimSlashes_normalizePath {entry : String} {c : Char}
    (h : c ∈ (trimSlashes (normalizePath entry)).toList) : ∃ d ∈ entry.toList, slashChar d = c := by
  rw [trimSlashes, String.toList_ofList, dropEndWhile, List.mem_reverse] at h
  have hnormal := List.mem_reverse.1 ((List.dropWhile_suffix _).subset h)
  rw [normalizePath, String.toList_ofList] at hnormal
  exact List.mem_map.1 ((dropPrefix_suffix _ _).subset hnormal)

/-- What is left of a plain entry has no character with a meaning in globs: its backslashes
have become slashes. -/
theorem isPlain_of_bare {entry : String} (h : isBareEntry entry = true) :
    (trimSlashes (normalizePath entry)).toList.all Glob.isPlain = true := by
  rw [List.all_eq_true]
  intro c hc
  obtain ⟨d, hd, rfl⟩ := mem_trimSlashes_normalizePath hc
  have hbare := List.all_eq_true.1 h d hd
  simp only [isGlobChar, Bool.not_eq_true', Bool.or_eq_false_iff, beq_eq_false_iff_ne] at hbare
  by_cases hslash : d = '\\'
  · subst hslash
    decide
  · simp [slashChar, Glob.isPlain, hslash, hbare]

theorem directoryGlob_of_bare {entry : String} (h : isBareEntry entry = true) :
    directoryGlob entry = trimSlashes (normalizePath entry) ++ "/**" := by
  rw [directoryGlob, if_neg]
  rw [Bool.not_eq_true, List.any_eq_false]
  intro c hc
  have hplain := List.all_eq_true.1 (isPlain_of_bare h) c hc
  simp_all [Glob.isPlain, isGlobChar]

/-! ## The decision -/

/-- Whether a file is in one of the languages. -/
def isInLanguages (languages : List Language) (path : String) : Bool :=
  (Language.ofPath? path).any (languages.contains ·)

/-- Whether a file is below one of the directories. -/
def isInDirectories (directories : List String) (path : String) : Bool :=
  directories.any fun d => isUnder path (trimSlashes (normalizePath d))

/-- What a mode asks of a file: its language, its directory or one of both. -/
def DetectionMode.selects (mode : DetectionMode) (languages : List Language)
    (directories : List String) (path : String) : Bool :=
  match mode with
  | auto => isInLanguages languages path
  | manual => isInDirectories directories path
  | hybrid => isInLanguages languages path || isInDirectories directories path

theorem any_languageGlobs (languages : List Language) (path : String) :
    (languages.flatMap Language.globs).any (Glob.accepts · path) =
      isInLanguages languages path := by
  rw [List.any_flatMap, Bool.eq_iff_iff, List.any_eq_true, isInLanguages, Option.any_eq_true]
  simp only [Language.any_globs_accepts, List.contains_iff_mem]
  exact exists_congr fun l => and_comm

theorem any_directoryGlobs {directories : List String}
    (h : ∀ d ∈ directories, isBareEntry d = true) (path : String) :
    (directories.map directoryGlob).any (Glob.accepts · path) =
      isInDirectories directories path := by
  rw [List.any_map, Bool.eq_iff_iff, List.any_eq_true, isInDirectories, List.any_eq_true]
  refine exists_congr fun d => and_congr_right fun hd => ?_
  rw [Function.comp_apply, directoryGlob_of_bare (h d hd),
    Glob.accepts_directory (isPlain_of_bare (h d hd))]

namespace CodePaths

variable {mode : DetectionMode} {languages : List Language} {directories excludes : List String}
  {m : CodePaths}

theorem isSome_globalExcludes : ∀ g ∈ globalExcludes, (Glob.parse? g).isSome = true := by
  decide +kernel

theorem isSome_includeGlobs (h : ∀ d ∈ directories, isBareEntry d = true) :
    ∀ g ∈ includeGlobs mode languages directories, (Glob.parse? g).isSome = true := by
  intro g hg
  rw [includeGlobs, List.mem_append] at hg
  rcases hg with hg | hg
  · split at hg
    · cases hg
    · obtain ⟨l, -, hl⟩ := List.mem_flatMap.1 hg
      exact Language.globs_isSome l g hl
  · split at hg
    · cases hg
    · obtain ⟨d, hd, rfl⟩ := List.mem_map.1 hg
      rw [directoryGlob_of_bare (h d hd), Glob.parse?_directory (isPlain_of_bare (h d hd))]
      rfl

/-- The globs select by mode what the languages and the plain directories select. -/
theorem any_includeGlobs (h : ∀ d ∈ directories, isBareEntry d = true) (path : String) :
    (includeGlobs mode languages directories).any (Glob.accepts · path) =
      mode.selects languages directories path := by
  rw [includeGlobs, List.any_append]
  cases mode <;> simp only [reduceCtorEq, if_true, if_false, List.any_nil, Bool.false_or,
    Bool.or_false, DetectionMode.selects, any_languageGlobs, any_directoryGlobs h]

theorem exists_make
    (hincludes : ∀ g ∈ includeGlobs mode languages directories, (Glob.parse? g).isSome = true)
    (hexcludes : ∀ g ∈ excludes, (Glob.parse? g).isSome = true) :
    ∃ m, make mode languages directories excludes = .ok m := by
  obtain ⟨includes, hread⟩ := exists_readGlobs hincludes
  obtain ⟨excludes', hread'⟩ := exists_readGlobs
    (List.forall_mem_append.2 ⟨isSome_globalExcludes, hexcludes⟩)
  exact ⟨_, by rw [make, hread, hread']⟩

/-- The decision in terms of the globs as they are written. -/
theorem isCode_of_make (h : make mode languages directories excludes = .ok m) (path : String) :
    m.isCode path =
      ((includeGlobs mode languages directories).any (Glob.accepts · (normalizePath path)) &&
        !isExcluded excludes (normalizePath path)) := by
  rw [make] at h
  split at h
  · cases h
  · next hincludes =>
    split at h
    · cases h
    · next hexcludes =>
      cases h
      rw [isCode, isExcluded, any_readGlobs hincludes, any_readGlobs hexcludes]

/-- More excludes make no more code. -/
theorem isCode_of_more {more : List String} {m' : CodePaths} (hmore : ∀ g ∈ excludes, g ∈ more)
    (h : make mode languages directories excludes = .ok m)
    (h' : make mode languages directories more = .ok m') {path : String}
    (hpath : m'.isCode path = true) : m.isCode path = true := by
  rw [isCode_of_make h', Bool.and_eq_true, Bool.not_eq_true'] at hpath
  rw [isCode_of_make h, hpath.1, Bool.true_and, Bool.not_eq_true', ← Bool.not_eq_true]
  exact fun hexcluded => absurd (isExcluded_mono hmore hexcluded) (by simp [hpath.2])

/-- The globs of languages and plain directories decide like the tests for the language and
for the directory of a file, in every mode and after the same excludes.  Further excludes
never turn a file into code, whatever the directories are. -/
theorem make_decides (mode : DetectionMode) (languages : List Language) :
    (∀ directories excludes,
      (∀ d ∈ directories, isBareEntry d = true) →
      (∀ g ∈ excludes, (Glob.parse? g).isSome = true) →
      ∃ m, make mode languages directories excludes = .ok m ∧
        ∀ path, normalizePath path = path →
          m.isCode path =
            (mode.selects languages directories path && !isExcluded excludes path)) ∧
    ∀ directories excludes more m m',
      (∀ g ∈ excludes, g ∈ more) →
      make mode languages directories excludes = .ok m →
      make mode languages directories more = .ok m' →
      ∀ path, m.isCode path = false → m'.isCode path = false := by
  constructor
  · intro directories excludes hbare hread
    obtain ⟨m, hm⟩ := exists_make (isSome_includeGlobs hbare) hread
    refine ⟨m, hm, fun path hnormal => ?_⟩
    rw [isCode_of_make hm, hnormal, any_includeGlobs hbare]
  · intro directories excludes more m m' hmore hm hm' path hpath
    rw [← Bool.not_eq_true] at hpath ⊢
    exact mt (isCode_of_more hmore hm hm') hpath

/-- A page is code for its directory, a schema for its language until it is excluded. -/
theorem make_decides_generated :
    ∃ m m', make .hybrid [.rust] ["web\\pages/"] [] = .ok m ∧
      make .hybrid [.rust] ["web\\pages/"] ["**/generated/**"] = .ok m' ∧
      m.isCode "web/pages/ü.html" = true ∧ m.isCode "src/generated/schema.rs" = true ∧
      m'.isCode "src/generated/schema.rs" = false ∧
      m.isCode "web/pages.html" = false ∧ m'.isCode "web/pages.html" = false := by
  obtain ⟨m, hm, hdecides⟩ := (make_decides .hybrid [.rust]).1 ["web\\pages/"] [] (by decide)
    (by decide)
  obtain ⟨m', hm', hdecides'⟩ := (make_decides .hybrid [.rust]).1 ["web\\pages/"]
    ["**/generated/**"] (by decide) (by decide +kernel)
  have hpages : m.isCode "web/pages.html" = false :=
    (hdecides _ (by decide)).trans (by decide +kernel)
  refine ⟨m, m', hm, hm', (hdecides _ (by decide)).trans (by decide +kernel),
    (hdecides _ (by decide)).trans (by decide +kernel),
    (hdecides' _ (by decide)).trans (by decide +kernel), hpages, ?_⟩
  exact (make_decides .hybrid [.rust]).2 _ [] _ m m' (by decide) hm hm' _ hpages

end CodePaths

end SpecLinkage
