import SpecLinkage.Proofs.Policy.CodePaths
import SpecLinkage.Proofs.Policy.Gate

/-! # Test files and code

Files are told to be tests twice: `isTestPath` gives the category of TAGs that do not name one, and
the excludes that every project has keep tests from being code.  The excludes ask for a dot behind
the name of a test, and they do not know names such as `AuthTest`; for all other test files the two
agree.

* `isExcluded_nil`: the excludes by the directories and the name of a file (`isNeverCode`).
* `nameIsMissed_of_testPath`: the test files that they miss.
* `Policy.testPath_exact` is the result.  `Policy.testPath_isCode`: a test file that is code. -/

namespace SpecLinkage

open Text

/-! ## What is never code -/

theorem any_congr_of_mem {α : Type} {l : List α} {p q : α → Bool} (h : ∀ a ∈ l, p a = q a) :
    l.any p = l.any q := by
  rw [Bool.eq_iff_iff, List.any_eq_true, List.any_eq_true]
  exact exists_congr fun a => and_congr_right fun ha => by rw [h a ha]

/-- Directories with files that are never code. -/
def excludedDirectories : List String :=
  ["tests", "test", "__tests__", "spec", "node_modules", "target", "vendor", "dist", "build", ".git",
    ".tagtrace"]

/-- What stands in the names of files that are never code. -/
def excludedMarks : List String := ["_test.", "_tests.", ".test.", ".spec."]

/-- Whether a file is never code, by its directories and its name. -/
def isNeverCode (path : String) : Bool :=
  excludedDirectories.any (fun d => (pathDirectories path).contains d.toList)
    || excludedMarks.any (fun mark => occursIn mark.toList (pathName path))
    || (startsWith "test_".toList (pathName path) && (pathName path).contains '.')

theorem isNeverCode_eq_false_iff {path : String} : isNeverCode path = false ↔
    (∀ d ∈ excludedDirectories, d.toList ∉ pathDirectories path) ∧
      (∀ mark ∈ excludedMarks, occursIn mark.toList (pathName path) = false) ∧
        (startsWith "test_".toList (pathName path) = true → '.' ∉ pathName path) := by
  rw [isNeverCode, Bool.or_eq_false_iff, Bool.or_eq_false_iff, List.any_eq_false,
    List.any_eq_false, Bool.and_eq_false_imp, and_assoc]
  simp only [← Bool.not_eq_true, List.contains_iff_mem]

/-- The excludes of all projects by what they are about: directories, marks and the start of a
name. -/
theorem globalExcludes_perm : globalExcludes.Perm
    (excludedDirectories.map (fun d => "**/" ++ d ++ "/**") ++
      (excludedMarks.map (fun mark => "**/*" ++ mark ++ "*") ++ ["**/" ++ "test_" ++ "*.*"])) := by
  decide +kernel

section
variable (path : String)

theorem accepts_excludedDirectory {d : String} (h : d ∈ excludedDirectories) :
    Glob.accepts ("**/" ++ d ++ "/**") (normalizePath path) =
      (pathDirectories path).contains d.toList := by
  have hplain : ∀ d ∈ excludedDirectories,
      (d.toList.all fun c => Glob.isPlain c && c != '/') = true ∧ d.toList ≠ ['.'] := by decide
  obtain ⟨hall, hdot⟩ := hplain d h
  simp only [List.all_eq_true, Bool.and_eq_true, bne_iff_ne] at hall
  rw [Bool.eq_iff_iff, Glob.accepts_inside (List.all_eq_true.2 fun c hc => (hall c hc).1)
    (fun hslash => (hall '/' hslash).2 rfl), mem_directories_normalizePath hdot,
    List.contains_iff_mem]

theorem accepts_excludedMark {mark : String} (h : mark ∈ excludedMarks) :
    Glob.accepts ("**/*" ++ mark ++ "*") (normalizePath path) =
      occursIn mark.toList (pathName path) := by
  have hplain : ∀ mark ∈ excludedMarks, mark.toList.all Glob.isPlain = true ∧ '/' ∉ mark.toList ∧
      (mark.toList.head?.any fun c => c.toNat < 128) = true := by decide
  obtain ⟨hall, hslash, hhead⟩ := hplain mark h
  obtain ⟨c, hc, hascii⟩ := (Option.any_eq_true _ _).1 hhead
  obtain ⟨s, hs⟩ := List.head?_eq_some_iff.1 hc
  rw [Bool.eq_iff_iff, Glob.accepts_marked hs (of_decide_eq_true hascii) hall hslash,
    name_normalizePath]
  simp only [Option.some_inj, exists_eq_left']

theorem accepts_testLead :
    Glob.accepts ("**/" ++ "test_" ++ "*.*") (normalizePath path) =
      (startsWith "test_".toList (pathName path) && (pathName path).contains '.') := by
  rw [Bool.eq_iff_iff, Glob.accepts_lead (by decide) (by decide), name_normalizePath,
    Bool.and_eq_true, startsWith_iff, List.contains_iff_mem]
  simp only [Option.some_inj, exists_eq_left']
  constructor
  · rintro ⟨r, hname, hdot⟩
    exact ⟨⟨r, hname⟩, hname ▸ List.mem_append_right _ hdot⟩
  · rintro ⟨⟨r, hname⟩, hdot⟩
    rw [hname, List.mem_append] at hdot
    exact ⟨r, hname, hdot.resolve_left (by decide)⟩

/-- The excludes of all projects by directories and names. -/
theorem isExcluded_nil : isExcluded [] (normalizePath path) = isNeverCode path := by
  have hdirectories : (excludedDirectories.map fun d => "**/" ++ d ++ "/**").any
      (Glob.accepts · (normalizePath path)) =
        excludedDirectories.any fun d => (pathDirectories path).contains d.toList := by
    rw [List.any_map]
    exact any_congr_of_mem fun d hd => accepts_excludedDirectory path hd
  have hmarks : (excludedMarks.map fun mark => "**/*" ++ mark ++ "*").any
      (Glob.accepts · (normalizePath path)) =
        excludedMarks.any fun mark => occursIn mark.toList (pathName path) := by
    rw [List.any_map]
    exact any_congr_of_mem fun mark hmark => accepts_excludedMark path hmark
  rw [isExcluded, List.append_nil, globalExcludes_perm.any_eq, List.any_append, List.any_append,
    hdirectories, hmarks, List.any_cons, List.any_nil, Bool.or_false, accepts_testLead, isNeverCode,
    Bool.or_assoc]

theorem isNeverCode_normalizePath : isNeverCode (normalizePath path) = isNeverCode path := by
  have hdirectories : (excludedDirectories.any fun d =>
      (pathDirectories (normalizePath path)).contains d.toList) =
        excludedDirectories.any fun d => (pathDirectories path).contains d.toList := by
    have hdot : ∀ d ∈ excludedDirectories, d.toList ≠ ['.'] := by decide
    refine any_congr_of_mem fun d hd => ?_
    rw [Bool.eq_iff_iff, List.contains_iff_mem, List.contains_iff_mem,
      mem_pathDirectories_normalizePath (hdot d hd)]
  rw [isNeverCode, isNeverCode, hdirectories, pathName_normalizePath]

end

/-! ## Names of tests -/

/-- The part of a name before its first dot, with the dot. -/
theorem exists_eq_fileStem_append {name : List Char} (h : '.' ∈ name) :
    ∃ r, name = fileStem name ++ '.' :: r := by
  obtain ⟨s, r, rfl, hs⟩ := List.eq_append_cons_of_mem h
  refine ⟨r, ?_⟩
  rw [fileStem, takeWhile_of_stop (fun c hc => ?_) (by rintro _ ⟨⟩; rfl)]
  exact bne_iff_ne.2 fun hdot => hs (hdot ▸ hc)

/-- Whether the excludes do not know the name of a test: there is nothing behind it, or it ends with
`Test` or `Tests`. -/
def nameIsMissed (name : List Char) : Bool :=
  !name.contains '.' || endsWith "Test".toList (fileStem name)
    || endsWith "Tests".toList (fileStem name)

section
variable {path : String}

/-- The directories of tests are among those that are never code. -/
theorem isTestFileName_of_testPath (htest : isTestPath path = true)
    (hcode : isNeverCode path = false) : isTestFileName (pathName path) = true := by
  rw [isTestPath, Bool.or_eq_true] at htest
  refine htest.resolve_left fun hdirectory => ?_
  obtain ⟨d, hd, htests⟩ := List.any_eq_true.1 hdirectory
  have hsubset : testDirectories ⊆ excludedDirectories := by decide
  refine (isNeverCode_eq_false_iff.1 hcode).1 _ (hsubset (List.contains_iff_mem.1 htests)) ?_
  rw [String.toList_ofList]
  exact hd

/-- With a dot behind it, the end of the name of a test is a mark. -/
theorem not_endsWith_fileStem (stem : List Char) (hcode : isNeverCode path = false)
    (hdot : '.' ∈ pathName path) (hmark : String.ofList (stem ++ ['.']) ∈ excludedMarks) :
    ¬ endsWith stem (fileStem (pathName path)) = true := by
  intro hends
  obtain ⟨a, ha⟩ := endsWith_iff.1 hends
  obtain ⟨r, hr⟩ := exists_eq_fileStem_append hdot
  have hoccurs := (isNeverCode_eq_false_iff.1 hcode).2.1 _ hmark
  have hname : pathName path = a ++ ((stem ++ ['.']) ++ r) := by
    rw [hr, ha, List.append_assoc, List.append_assoc, List.singleton_append]
  rw [String.toList_ofList, hname, occursIn_append] at hoccurs
  exact Bool.noConfusion hoccurs

theorem not_startsWith_fileStem (hcode : isNeverCode path = false) (hdot : '.' ∈ pathName path) :
    ¬ startsWith "test_".toList (fileStem (pathName path)) = true := by
  intro hstarts
  obtain ⟨a, ha⟩ := startsWith_iff.1 hstarts
  obtain ⟨r, hr⟩ := exists_eq_fileStem_append hdot
  refine (isNeverCode_eq_false_iff.1 hcode).2.2 (startsWith_iff.2 ⟨a ++ '.' :: r, ?_⟩) hdot
  rw [← List.append_assoc, ← ha, ← hr]

/-- The test files that the excludes do not know have names that they do not know. -/
theorem nameIsMissed_of_testPath (htest : isTestPath path = true)
    (hcode : isNeverCode path = false) : nameIsMissed (pathName path) = true := by
  have hname := isTestFileName_of_testPath htest hcode
  have hmarks := (isNeverCode_eq_false_iff.1 hcode).2.1
  by_cases hdot : '.' ∈ pathName path
  · have hlead := not_startsWith_fileStem hcode hdot
    have hend := not_endsWith_fileStem "_test".toList hcode hdot (by decide)
    have hends := not_endsWith_fileStem "_tests".toList hcode hdot (by decide)
    have hinner := hmarks ".test." (by decide)
    have hspec := hmarks ".spec." (by decide)
    simp only [isTestFileName, nameIsMissed, Bool.or_eq_true, hlead, hend, hends, hinner, hspec,
      Bool.false_eq_true, false_or, or_false] at hname ⊢
    exact hname.imp_left .inr
  · simp [nameIsMissed, hdot]

end

/-! ## Tests that are code -/

namespace CodePaths

variable {mode : DetectionMode} {languages : List Language} {directories excludes : List String}
  {m : CodePaths} {path : String}

theorem isCode_eq_false (h : make mode languages directories excludes = .ok m)
    (hnever : isNeverCode path = true) : m.isCode path = false := by
  have hexcluded := (isExcluded_nil path).trans hnever
  rw [isCode_of_make h, isExcluded_mono (List.forall_mem_nil _) hexcluded, Bool.not_true,
    Bool.and_false]

/-- If all directories are code, so is all that is not excluded. -/
theorem exists_isCode_eq :
    ∃ m, make .manual [] ["**"] [] = .ok m ∧ ∀ path, m.isCode path = !isNeverCode path := by
  have hall : Glob.parse? "**" = some [.leadingDirs] := by
    simp [Glob.parse?, Glob.parseFrom?, Glob.Progress.doubleStar, Glob.Progress.push]
  have haccepts (path : String) : Glob.accepts "**" path = true := by
    rw [Glob.accepts, hall, Option.any_some, Glob.isMatch_iff]
    exact .inl rfl
  have hglobs : includeGlobs .manual [] ["**"] = ["**"] := by decide +kernel
  have hread : ∀ g ∈ includeGlobs .manual [] ["**"], (Glob.parse? g).isSome = true := by
    rw [hglobs, List.forall_mem_singleton, hall, Option.isSome_some]
  obtain ⟨m, hm⟩ := exists_make hread (List.forall_mem_nil _)
  refine ⟨m, hm, fun path => ?_⟩
  rw [isCode_of_make hm, hglobs, List.any_cons, haccepts, Bool.true_or, Bool.true_and,
    isExcluded_nil]

end CodePaths

namespace Policy

theorem tagsIn_empty (path : String) : tagsIn path "" = [] := by
  rw [tagsIn, TagSet.ofDocument]
  split <;> rfl

/-- What the excludes make of a test file. -/
structure TestFile (path : String) : Prop where
  /-- They keep it from being code, in every project, if they know it. -/
  code : (∀ mode languages directories excludes m,
    CodePaths.make mode languages directories excludes = .ok m → m.isCode path = false) ↔
      isNeverCode path = true
  /-- It is not reported either. -/
  reported : (∀ mode languages directories excludes m,
    CodePaths.make mode languages directories excludes = .ok m → ∀ p : Policy, p.codePaths = m →
      ∀ files r content, (p.beforeCreation files r path content).ofRule .speclessCode = []) ↔
        isNeverCode path = true
  /-- Only some names are not known. -/
  name : nameIsMissed (pathName path) = false → isNeverCode path = true

/-- **Test files are never code, except for some names.** -/
theorem testPath_exact (path : String) (htest : isTestPath path = true) : TestFile path := by
  obtain ⟨all, hall, hcode⟩ := CodePaths.exists_isCode_eq
  refine ⟨⟨fun h => ?_, fun h mode languages directories excludes m hm =>
    CodePaths.isCode_eq_false hm h⟩, ⟨fun h => ?_, ?_⟩, fun h => ?_⟩
  · have hnot := h _ _ _ _ all hall
    rwa [hcode, Bool.not_eq_false'] at hnot
  · have hnone := h _ _ _ _ all hall ⟨all, .listed {}, {}, true⟩ rfl {} {} ""
    rw [ofRule_speclessCode, List.eq_nil_iff_forall_not_mem] at hnone
    rw [← Bool.not_eq_false]
    refine fun hnever => hnone _ ((mem_checkSpecless_iff _ _).2 ⟨rfl, tagsIn_empty path, ?_⟩)
    rw [hcode, isNeverCode_normalizePath, hnever, Bool.not_false]
  · rintro h mode languages directories excludes m hm p rfl files r content
    rw [ofRule_speclessCode, List.eq_nil_iff_forall_not_mem]
    intro v hv
    have hcode := ((mem_checkSpecless_iff _ _).1 hv).2.2
    rw [CodePaths.isCode_eq_false hm ((isNeverCode_normalizePath path).trans h)] at hcode
    exact Bool.noConfusion hcode
  · rw [← Bool.not_eq_false]
    exact fun hnever => Bool.noConfusion (h.symm.trans (nameIsMissed_of_testPath htest hnever))

/-- A module with its tests, a name with several dots and a directory. -/
theorem testPath_exact_examples :
    (∀ m, CodePaths.make .auto [.rust] [] [] = .ok m → m.isCode "src/auth_test.rs" = false) ∧
    (∀ m, CodePaths.make .hybrid [.typeScript] ["web"] [] = .ok m → m.isCode "web\\login.spec.d.ts" = false) ∧
    ∀ m, CodePaths.make .manual [] ["."] [] = .ok m → m.isCode "./tests/AuthTest.java" = false := by
  refine ⟨fun m hm => (testPath_exact _ (by decide)).code.2 (by decide) _ _ _ _ m hm,
    fun m hm => (testPath_exact _ (by decide)).code.2 (by decide) _ _ _ _ m hm,
    fun m hm => (testPath_exact _ (by decide)).code.2 (by decide) _ _ _ _ m hm⟩

/-- The test of a class, named as usual, is code, and it is refused if it has no TAG. -/
theorem testPath_isCode :
    isTestPath "src/AuthTest.java" = true ∧
    ∃ m, CodePaths.make .auto [.java] [] [] = .ok m ∧ m.isCode "src/AuthTest.java" = true ∧
      (beforeCreation ⟨m, .listed {}, {}, true⟩ {} {} "src/AuthTest.java" "").isBlocking = true := by
  have hread : ∀ g ∈ CodePaths.includeGlobs .auto [.java] [], (Glob.parse? g).isSome = true :=
    CodePaths.isSome_includeGlobs (List.forall_mem_nil _)
  obtain ⟨m, hm⟩ := CodePaths.exists_make hread (List.forall_mem_nil _)
  have hcode : m.isCode "src/AuthTest.java" = true := by
    rw [CodePaths.isCode_of_make hm, CodePaths.any_includeGlobs (List.forall_mem_nil _),
      isExcluded_nil]
    decide +kernel
  refine ⟨by decide, m, hm, hcode, ?_⟩
  rw [isBlocking_beforeCreation, violations_beforeCreation_ne_nil_iff]
  exact ⟨rfl, .inl ⟨tagsIn_empty _, hcode⟩⟩

end Policy

end SpecLinkage
