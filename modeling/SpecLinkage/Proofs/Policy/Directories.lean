import Mathlib.Data.List.Basic
import SpecLinkage.Proofs.Policy.CodePaths
import SpecLinkage.Proofs.Policy.Gate
import SpecLinkage.Proofs.SourcePath.Components

/-! # Spellings of a directory

A directory in the settings of a project is written with or without `./` before it and a slash behind
it.  Both chains that it goes through, to the globs of code and to the directory of a domain, bring
these spellings to one form, and a file is in the directory if its path goes on with a slash behind
that form.  What is left of the root is `.` or nothing, and no path in the project goes on like that.

* `trimSlashes_normalizePath_spelling`: the form of the spellings of a directory.
* `Policy.standsForDirectory`: what a directory means, in the globs of code and for a domain.
* `Policy.directories_exact` is the result.  `Policy.directories_root`: a project with its root as the
  directory of its code has no code. -/

namespace SpecLinkage

open Text

/-! ## One form -/

/-- The spellings of a directory. -/
def spellings (dir : String) : List String := [dir, dir ++ "/", "./" ++ dir, "./" ++ dir ++ "/"]

/-- Whether a directory is made of names, which can be found in a path. -/
def IsPlainDirectory (dir : String) : Prop :=
  ∀ c ∈ pathComponents dir, c ≠ [] ∧ c ≠ ['.'] ∧ c ≠ ['.', '.']

instance : DecidablePred IsPlainDirectory := fun dir =>
  inferInstanceAs (Decidable (∀ c ∈ pathComponents dir, c ≠ [] ∧ c ≠ ['.'] ∧ c ≠ ['.', '.']))

/-- The directory with slashes between its names. -/
def slashed (dir : String) : String := String.ofList (dir.toList.map slashChar)

section
variable {dir : String}

/-- The first name is no dot, so that there is nothing to remove before it. -/
theorem dropPrefix_plain (h : IsPlainDirectory dir) (u : List Char) :
    dropPrefix ['.', '/'] (dir.toList.map slashChar ++ u) = dir.toList.map slashChar ++ u := by
  rw [IsPlainDirectory, pathComponents] at h
  generalize dir.toList.map slashChar = t at h ⊢
  rw [dropPrefix]
  cases hdot : stripPrefix? ['.', '/'] (t ++ u) with
  | none => rfl
  | some r =>
    rw [stripPrefix?_eq_some_iff] at hdot
    rcases t with _ | ⟨c, _ | ⟨c', t⟩⟩
    · exact absurd rfl (h [] (by simp [splitAll])).1
    · obtain ⟨rfl, -⟩ := List.cons.inj hdot
      exact absurd rfl (h ['.'] (by simp [splitAll])).2.1
    · obtain ⟨hc, hdot⟩ := List.cons.inj hdot
      obtain ⟨hc', -⟩ := List.cons.inj hdot
      rw [hc, hc', splitAll_dot] at h
      exact absurd rfl (h ['.'] List.mem_cons_self).2.1

/-- There is a name at the end, so that all slashes to remove are behind it. -/
theorem dropEndWhile_plain (h : IsPlainDirectory dir) {u : List Char} (hu : ∀ c ∈ u, c = '/') :
    dropEndWhile (fun c => c == '/') (dir.toList.map slashChar ++ u) =
      dir.toList.map slashChar := by
  rw [IsPlainDirectory, pathComponents] at h
  generalize dir.toList.map slashChar = t at h ⊢
  rw [dropEndWhile_append fun c hc => beq_iff_eq.2 (hu c hc)]
  refine dropEndWhile_of_last fun c hc => beq_eq_false_iff_ne.2 ?_
  rintro rfl
  obtain ⟨t', rfl⟩ := List.getLast?_eq_some_iff.1 hc
  rw [splitAll_append_cons] at h
  exact (h [] (List.mem_append_right _ (by simp [splitAll]))).1 rfl

/-- A spelling has slashes at the end, and a dot with a slash at most. -/
theorem exists_of_mem_spellings {s : String} (h : s ∈ spellings dir) :
    ∃ u : List Char, (∀ c ∈ u, c = '/') ∧
      (s.toList.map slashChar = dir.toList.map slashChar ++ u ∨
        s.toList.map slashChar = ['.', '/'] ++ (dir.toList.map slashChar ++ u)) := by
  simp only [spellings, List.mem_cons, List.not_mem_nil, or_false] at h
  rcases h with rfl | rfl | rfl | rfl
  · exact ⟨[], by simp⟩
  · exact ⟨['/'], by simp [slashChar]⟩
  · exact ⟨[], by simp [slashChar]⟩
  · exact ⟨['/'], by simp [slashChar]⟩

/-- All spellings of a directory come to one form. -/
theorem trimSlashes_normalizePath_spelling (h : IsPlainDirectory dir) {s : String}
    (hs : s ∈ spellings dir) : trimSlashes (normalizePath s) = slashed dir := by
  obtain ⟨u, hu, hmap⟩ := exists_of_mem_spellings hs
  have hnormal : dropPrefix ['.', '/'] (s.toList.map slashChar) =
      dir.toList.map slashChar ++ u := by
    rcases hmap with hmap | hmap
    · rw [hmap, dropPrefix_plain h]
    · rw [hmap, dropPrefix, stripPrefix?_append, Option.getD_some]
  rw [trimSlashes, normalizePath, slashed, String.toList_ofList, hnormal, dropEndWhile_plain h hu]

end

/-! ## What a directory means -/

namespace Policy

/-- A tag for code of a domain with a directory belongs there. -/
def belongsUnder (path dir : String) (t : Tag) : Violation :=
  scopeViolation path t (t.specId.text ++ " belongs under " ++ dir ++ "/")

/-- In a code file all tags for code of a domain are in their place, or none is. -/
theorem checkScopes_of_domain {p : Policy} {path domain dir : String} {tags : List Tag}
    (hcode : p.codePaths.isCode path = true) (hdir : p.domains.get? domain = some dir)
    (htags : ∀ t ∈ tags, t.category.isCode = true → t.specId.domain = domain) :
    p.checkScopes path tags =
      if isUnder path dir then []
      else (tags.filter fun t => t.category.isCode).map (belongsUnder path dir) := by
  have hfault : ∀ t ∈ tags.filter fun t => t.category.isCode,
      (p.scopeFault? path t).map (scopeViolation path t) =
        if isUnder path dir then none else some (belongsUnder path dir t) := by
    intro t ht
    obtain ⟨ht, hcategory⟩ := List.mem_filter.1 ht
    rw [scopeFault?, hcode, Bool.not_true, if_neg Bool.false_ne_true, htags t ht hcategory, hdir]
    cases hunder : isUnder path dir <;> simp [hunder, belongsUnder]
  rw [checkScopes, List.filterMap_congr hfault]
  cases isUnder path dir <;> simp

/-- What an entry for a directory means for the paths that code and domains are in. -/
structure StandsForDirectory (entry dir : String) : Prop where
  /-- What is in the directory is code, unless it is excluded. -/
  code : ∀ languages excludes, (∀ g ∈ excludes, (Glob.parse? g).isSome = true) →
    ∃ m, CodePaths.make .manual languages [entry] excludes = .ok m ∧ ∀ path, m.isCode path =
      (isUnder (normalizePath path) dir && !isExcluded excludes (normalizePath path))
  /-- A code file of the domain is in the directory, or all its tags for code are reported. -/
  scope : ∀ (codePaths : CodePaths) catalog (domains : SortedMap String String) domain strict r path
      content,
    codePaths.isCode (normalizePath path) = true →
    (∀ t ∈ tagsIn path content, t.category.isCode = true → t.specId.domain = domain) →
    ((Policy.make codePaths catalog (domains.insert domain entry) strict).afterModification r path
        content).ofRule .directoryScope =
      if isUnder (normalizePath path) dir then []
      else ((tagsIn path content).filter fun t => t.category.isCode).map
        (belongsUnder (normalizePath path) dir)

/-- An entry without a wildcard stands for what is left of it. -/
theorem standsForDirectory (entry : String) (h : isBareEntry entry = true) :
    StandsForDirectory entry (trimSlashes (normalizePath entry)) where
  code languages excludes hexcludes := by
    have hbare : ∀ d ∈ [entry], isBareEntry d = true := List.forall_mem_singleton.2 h
    obtain ⟨m, hm⟩ := CodePaths.exists_make (CodePaths.isSome_includeGlobs hbare) hexcludes
    refine ⟨m, hm, fun path => ?_⟩
    rw [CodePaths.isCode_of_make hm, CodePaths.any_includeGlobs hbare]
    simp only [DetectionMode.selects, isInDirectories, List.any_cons, List.any_nil, Bool.or_false]
  scope codePaths catalog domains domain strict r path content hcode htags := by
    rw [ofRule_afterModification]
    refine checkScopes_of_domain hcode ?_ htags
    rw [Policy.make, SortedMap.get?_mapValues, SortedMap.get?_insert, if_pos Std.ReflCmp.compare_self]
    rfl

end Policy

/-! ## Directories and the root -/

theorem isBareEntry_of_mem_spellings {dir s : String} (h : isBareEntry dir = true)
    (hs : s ∈ spellings dir) : isBareEntry s = true := by
  simp only [spellings, List.mem_cons, List.not_mem_nil, or_false] at hs
  rw [isBareEntry] at h ⊢
  rcases hs with rfl | rfl | rfl | rfl <;>
    simp only [String.toList_append, List.all_append, h] <;> decide

/-- What is left of the root, in both spellings. -/
def rootForms : List (String × String) := [(".", "."), ("./", "")]

section
variable {root left : String}

theorem mem_rootForms_iff :
    (root, left) ∈ rootForms ↔ root = "." ∧ left = "." ∨ root = "./" ∧ left = "" := by
  simp only [rootForms, List.mem_cons, List.not_mem_nil, or_false, Prod.mk.injEq]

theorem trimSlashes_normalizePath_root (h : (root, left) ∈ rootForms) :
    trimSlashes (normalizePath root) = left := by
  rcases mem_rootForms_iff.1 h with ⟨rfl, rfl⟩ | ⟨rfl, rfl⟩ <;> decide +kernel

theorem isBareEntry_root (h : (root, left) ∈ rootForms) : isBareEntry root = true := by
  rcases mem_rootForms_iff.1 h with ⟨rfl, -⟩ | ⟨rfl, -⟩ <;> decide

/-- A path in a project is not below what is left of its root. -/
theorem isUnder_root (h : (root, left) ∈ rootForms) {path : String}
    (hnormal : normalizePath path = path) (hrelative : startsWith ['/'] path.toList = false) :
    isUnder path left = false := by
  rw [← Bool.not_eq_true, isUnder_iff]
  rintro ⟨rest, hrest⟩
  rcases mem_rootForms_iff.1 h with ⟨-, rfl⟩ | ⟨-, rfl⟩
  · exact ne_dot_slash hnormal hrest
  · rw [hrest] at hrelative
    exact Bool.noConfusion hrelative

end

namespace Policy

/-- What the spellings of a directory mean, and those of the root. -/
structure Directories (dir : String) : Prop where
  /-- The spellings give the same globs, in every mode and among other directories. -/
  sameCode : IsPlainDirectory dir → ∀ s ∈ spellings dir,
    ∀ mode languages front back excludes,
      CodePaths.make mode languages (front ++ s :: back) excludes =
        CodePaths.make mode languages (front ++ dir :: back) excludes
  /-- The spellings give the same rules, among other domains. -/
  sameScope : IsPlainDirectory dir → ∀ s ∈ spellings dir,
    ∀ codePaths catalog (domains : SortedMap String String) domain strict,
      Policy.make codePaths catalog (domains.insert domain s) strict =
        Policy.make codePaths catalog (domains.insert domain dir) strict
  /-- Without wildcards the spellings stand for the directory. -/
  means : IsPlainDirectory dir → isBareEntry dir = true → ∀ s ∈ spellings dir,
    StandsForDirectory s (slashed dir)
  /-- The root stands for a directory that no path in the project is in. -/
  root : ∀ left, (dir, left) ∈ rootForms → StandsForDirectory dir left ∧
    ∀ path, normalizePath path = path → startsWith ['/'] path.toList = false →
      isUnder path left = false

/-- **A directory means the same however it is spelled, but the root means nothing.** -/
theorem directories_exact (dir : String) : Directories dir where
  sameCode hdir s hs mode languages front back excludes := by
    have hself := trimSlashes_normalizePath_spelling hdir List.mem_cons_self
    have hglob : directoryGlob s = directoryGlob dir := by
      rw [directoryGlob, directoryGlob, trimSlashes_normalizePath_spelling hdir hs, hself]
    simp only [CodePaths.make, CodePaths.includeGlobs, List.map_append, List.map_cons, hglob]
  sameScope hdir s hs codePaths catalog domains domain strict := by
    have hself := trimSlashes_normalizePath_spelling hdir List.mem_cons_self
    rw [Policy.make, Policy.make, Policy.mk.injEq]
    refine ⟨rfl, rfl, SortedMap.ext_get? fun k => ?_, rfl⟩
    rw [SortedMap.get?_mapValues, SortedMap.get?_mapValues, SortedMap.get?_insert,
      SortedMap.get?_insert]
    split
    · rw [Option.map_some, Option.map_some, trimSlashes_normalizePath_spelling hdir hs, hself]
    · rfl
  means hdir hbare s hs := by
    rw [← trimSlashes_normalizePath_spelling hdir hs]
    exact standsForDirectory s (isBareEntry_of_mem_spellings hbare hs)
  root left hform := by
    refine ⟨?_, fun path => isUnder_root hform⟩
    rw [← trimSlashes_normalizePath_root hform]
    exact standsForDirectory dir (isBareEntry_root hform)

/-- A directory in another spelling. -/
theorem directories_exact_auth :
    ∃ m, CodePaths.make .manual [] ["./src\\auth/"] [] = .ok m ∧
      m.isCode "src/auth/login.html" = true ∧ m.isCode "src/authors.rs" = false := by
  obtain ⟨m, hm, hcode⟩ := ((directories_exact "src\\auth").means (by decide) (by decide)
    "./src\\auth/" (by decide)).code [] [] (List.forall_mem_nil _)
  exact ⟨m, hm, (hcode _).trans (by decide +kernel), (hcode _).trans (by decide +kernel)⟩

/-- With its root for the code a project has no code, and code is reported for a domain with the root
for its directory. -/
theorem directories_root :
    isExcluded [] "src/auth.rs" = false ∧
    (∃ m, CodePaths.make .manual [] ["."] [] = .ok m ∧ m.isCode "src/auth.rs" = false) ∧
    ∃ m, CodePaths.make .auto [.rust] [] [] = .ok m ∧ m.isCode "src/auth.rs" = true ∧
      (((Policy.make m (.listed {}) (SortedMap.insert {} "AUTH" "./") true).afterModification {}
        "src/auth.rs" "// @CODE:SPEC-AUTH-001").ofRule .directoryScope).map Violation.message =
          ["SPEC-AUTH-001 belongs under /"] := by
  refine ⟨by decide +kernel, ?_, ?_⟩
  · obtain ⟨m, hm, hcode⟩ := (standsForDirectory "." (by decide)).code [] [] (List.forall_mem_nil _)
    exact ⟨m, hm, (hcode _).trans (by decide +kernel)⟩
  · have hread : ∀ g ∈ CodePaths.includeGlobs .auto [.rust] [], (Glob.parse? g).isSome = true :=
      CodePaths.isSome_includeGlobs (List.forall_mem_nil _)
    obtain ⟨m, hm⟩ := CodePaths.exists_make hread (List.forall_mem_nil _)
    have hcode : m.isCode "src/auth.rs" = true := by
      rw [CodePaths.isCode_of_make hm, CodePaths.any_includeGlobs (List.forall_mem_nil _)]
      decide +kernel
    have htags : ∀ t ∈ tagsIn "src/auth.rs" "// @CODE:SPEC-AUTH-001",
        t.category.isCode = true → t.specId.domain = "AUTH" := by decide +kernel
    have hnormal : normalizePath "src/auth.rs" = "src/auth.rs" := by decide
    have hscope := (standsForDirectory "./" (by decide)).scope m (.listed {}) {} "AUTH" true {}
      "src/auth.rs" "// @CODE:SPEC-AUTH-001" (hnormal.symm ▸ hcode) htags
    refine ⟨m, hm, hcode, ?_⟩
    rw [hscope]
    decide +kernel

end Policy

end SpecLinkage
