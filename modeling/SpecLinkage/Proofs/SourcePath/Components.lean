import SpecLinkage.SourcePath
import SpecLinkage.Proofs.Text.Words

/-! # Directories and names in paths

A path is read as directories and the name of a file.  Each of them stands at the start or behind a
slash, and normalizing takes away no more than a leading `./`.

* `Text.mem_dropLast_splitAll_iff`, `Text.getLast?_splitAll_iff`: the directories and the name by what
  stands behind the slashes.
* `normalizePath_cases`: what normalizing does; `mem_directories_normalizePath`, `name_normalizePath`:
  it changes no name, and no directory other than the first.
* `isUnder_iff`: what lies below a directory. -/

namespace SpecLinkage

open Text

/-! ## Behind the slashes -/

namespace Text

/-- Whether `u` is the whole path or what follows one of its slashes. -/
def IsBehind (s u : List Char) : Prop := s = u ∨ ∃ t, s = t ++ '/' :: u

variable {s u l : List Char}

theorem isBehind_append (hl : '/' ∉ l) :
    IsBehind (l ++ '/' :: s) u ↔ l ++ '/' :: s = u ∨ IsBehind s u := by
  refine or_congr_right ⟨?_, ?_⟩
  · rintro ⟨t, ht⟩
    rcases List.append_eq_append_iff.1 ht with ⟨m, rfl, hm⟩ | ⟨m, rfl, hm⟩
    · cases m with
      | nil => exact .inl (List.cons.inj hm).2
      | cons c m =>
        obtain ⟨-, rfl⟩ := List.cons.inj hm
        exact .inr ⟨m, rfl⟩
    · cases m with
      | nil => exact .inl (List.cons.inj hm).2.symm
      | cons c m =>
        obtain ⟨rfl, -⟩ := List.cons.inj hm
        exact absurd (List.mem_append_right t List.mem_cons_self) hl
  · rintro (rfl | ⟨t, rfl⟩)
    · exact ⟨l, rfl⟩
    · exact ⟨l ++ '/' :: t, by simp⟩

theorem isBehind_of_notMem (hs : '/' ∉ s) : IsBehind s u ↔ s = u := by
  refine or_iff_left ?_
  rintro ⟨t, rfl⟩
  exact hs (List.mem_append_right t List.mem_cons_self)

theorem IsBehind.append (h : IsBehind s u) (r : List Char) : IsBehind (s ++ r) (u ++ r) := by
  rcases h with rfl | ⟨t, rfl⟩
  · exact .inl rfl
  · exact .inr ⟨t, List.append_assoc ..⟩

/-- A directory of a path stands behind a slash or at the start, with a slash behind it. -/
theorem mem_dropLast_splitAll_iff (hl : '/' ∉ l) :
    l ∈ (splitAll '/' s).dropLast ↔ ∃ r, IsBehind s (l ++ '/' :: r) := by
  induction s using pieces_induction '/' with
  | piece s hs =>
    rw [splitAll_of_notMem hs]
    refine ⟨fun h => absurd h List.not_mem_nil, ?_⟩
    rintro ⟨r, hr⟩
    rw [isBehind_of_notMem hs] at hr
    rw [hr] at hs
    exact absurd (List.mem_append_right l List.mem_cons_self) hs
  | cons p s hp ih =>
    simp only [isBehind_append hp, exists_or]
    rw [splitAll_append_cons, splitAll_of_notMem hp, List.singleton_append,
      List.dropLast_cons_of_ne_nil (splitAll_ne_nil '/' s), List.mem_cons, ih]
    refine or_congr_left ⟨?_, ?_⟩
    · rintro rfl
      exact ⟨s, rfl⟩
    · rintro ⟨r, hr⟩
      have hfirst := splitFirst?_eq_some_iff.2 ⟨hr, hl⟩
      rw [splitFirst?_eq_some_iff.2 ⟨rfl, hp⟩] at hfirst
      exact (Prod.mk.inj (Option.some.inj hfirst)).1.symm

/-- The name in a path is what stands behind its last slash. -/
theorem getLast?_splitAll_iff : (splitAll '/' s).getLast? = some u ↔ IsBehind s u ∧ '/' ∉ u := by
  induction s using pieces_induction '/' with
  | piece s hs =>
    rw [splitAll_of_notMem hs, isBehind_of_notMem hs, List.getLast?_singleton, Option.some_inj]
    refine (and_iff_left_of_imp ?_).symm
    rintro rfl
    exact hs
  | cons p s hp ih =>
    rw [splitAll_append_cons, splitAll_of_notMem hp, List.singleton_append, List.getLast?_cons_of_ne_nil
      (splitAll_ne_nil '/' s), ih, isBehind_append hp, or_and_right]
    refine (or_iff_right ?_).symm
    rintro ⟨rfl, hu⟩
    exact hu (List.mem_append_right p List.mem_cons_self)

theorem exists_getLast?_splitAll (s : List Char) : ∃ u, (splitAll '/' s).getLast? = some u :=
  ⟨_, List.getLast?_eq_some_getLast (splitAll_ne_nil '/' s)⟩

end Text

/-! ## Normalized paths -/

theorem slashChar_slashChar (c : Char) : slashChar (slashChar c) = slashChar c := by
  by_cases h : c = '\\'
  · rw [slashChar, slashChar, if_pos h]
    decide
  · simp only [slashChar, if_neg h]

/-- After one pass there are no backslashes left to turn. -/
theorem map_slashChar_normalizePath (path : String) :
    (normalizePath path).toList.map slashChar = (normalizePath path).toList := by
  have hmap : (path.toList.map slashChar).map slashChar = path.toList.map slashChar := by
    rw [List.map_map]
    exact List.map_congr_left fun c _ => slashChar_slashChar c
  rw [normalizePath, String.toList_ofList, Text.dropPrefix]
  rcases hs : Text.stripPrefix? ['.', '/'] (path.toList.map slashChar) with _ | r
  · exact hmap
  · rw [Text.stripPrefix?_eq_some_iff.1 hs, List.map_append] at hmap
    exact List.append_cancel_left hmap

/-- Normalizing turns the backslashes and leaves the rest, or takes a `./` away. -/
theorem normalizePath_cases (path : String) :
    path.toList.map slashChar = (normalizePath path).toList ∨
      path.toList.map slashChar = '.' :: '/' :: (normalizePath path).toList := by
  rw [normalizePath, String.toList_ofList, dropPrefix]
  cases h : stripPrefix? ['.', '/'] (path.toList.map slashChar) with
  | none => exact .inl rfl
  | some r => exact .inr (stripPrefix?_eq_some_iff.1 h)

/-- A normalized path does not start with a dot and a slash. -/
theorem ne_dot_slash {path : String} {rest : List Char} (h : normalizePath path = path) :
    path.toList ≠ '.' :: '/' :: rest := by
  intro hpath
  have hmap : path.toList.map slashChar = ['.', '/'] ++ rest.map slashChar := by
    rw [hpath]
    rfl
  have htext : (normalizePath path).toList = dropPrefix ['.', '/'] (path.toList.map slashChar) :=
    String.toList_ofList
  rw [hmap, dropPrefix, stripPrefix?_append, Option.getD_some, h, hpath] at htext
  have hlength := congrArg List.length htext
  rw [List.length_cons, List.length_cons, List.length_map] at hlength
  omega

/-- Normalizing makes no other file a markdown document. -/
theorem isMarkdownPath_normalizePath {path : String} (h : isMarkdownPath path = false) :
    isMarkdownPath (normalizePath path) = false := by
  rw [← Bool.not_eq_true, isMarkdownPath] at h ⊢
  refine mt (fun hnormal => ?_) h
  obtain ⟨s, hs⟩ := endsWith_iff.1 hnormal
  obtain ⟨u, hu⟩ : ∃ u, path.toList.map slashChar = u ++ (normalizePath path).toList := by
    rcases normalizePath_cases path with hmap | hmap
    · exact ⟨[], hmap⟩
    · exact ⟨['.', '/'], hmap⟩
  rw [hs, ← List.append_assoc, List.map_eq_append_iff] at hu
  obtain ⟨a, b, hpath, -, hb⟩ := hu
  have hplain : ∀ c ∈ b, slashChar c = c := by
    intro c hc
    have hmapped : slashChar c ∈ ".md".toList := hb ▸ List.mem_map_of_mem hc
    by_cases hslash : c = '\\'
    · subst hslash
      revert hmapped
      decide
    · rw [slashChar, if_neg hslash]
  rw [List.map_congr_left hplain, List.map_id'] at hb
  exact endsWith_iff.2 ⟨a, hb ▸ hpath⟩

theorem isUnder_iff {path dir : String} :
    isUnder path dir = true ↔ ∃ rest, path.toList = dir.toList ++ '/' :: rest := by
  simp only [← stripPrefix?_eq_some_iff]
  unfold isUnder
  split
  · next rest h => simp [h]
  · next h => simpa using h

/-! ## Directories and names -/

/-- The directories in a path. -/
def pathDirectories (path : String) : List (List Char) := (pathComponents path).dropLast

/-- The name of the file. -/
def pathName (path : String) : List Char := (pathComponents path).getLast?.getD []

theorem splitAll_dot (s : List Char) : splitAll '/' ('.' :: '/' :: s) = ['.'] :: splitAll '/' s :=
  splitAll_append_cons '/' ['.'] s

/-- Normalizing changes no directory but a dot at the start. -/
theorem mem_directories_normalizePath {path : String} {d : List Char} (hd : d ≠ ['.']) :
    d ∈ (splitAll '/' (normalizePath path).toList).dropLast ↔ d ∈ pathDirectories path := by
  rw [pathDirectories, pathComponents]
  rcases normalizePath_cases path with h | h
  · rw [h]
  · rw [h, splitAll_dot, List.dropLast_cons_of_ne_nil (splitAll_ne_nil '/' _), List.mem_cons,
      or_iff_right hd]

theorem name_normalizePath (path : String) :
    (splitAll '/' (normalizePath path).toList).getLast? = some (pathName path) := by
  obtain ⟨name, hname⟩ := exists_getLast?_splitAll (normalizePath path).toList
  rw [hname, pathName, pathComponents]
  rcases normalizePath_cases path with h | h
  · rw [h, hname, Option.getD_some]
  · rw [h, splitAll_dot, List.getLast?_cons_of_ne_nil (splitAll_ne_nil '/' _), hname,
      Option.getD_some]

/-- A second pass finds the same directories and the same name. -/
theorem mem_pathDirectories_normalizePath {path : String} {d : List Char} (hd : d ≠ ['.']) :
    d ∈ pathDirectories (normalizePath path) ↔ d ∈ pathDirectories path := by
  rw [pathDirectories, pathComponents, map_slashChar_normalizePath, mem_directories_normalizePath hd]

theorem pathName_normalizePath (path : String) : pathName (normalizePath path) = pathName path := by
  rw [pathName, pathComponents, map_slashChar_normalizePath, name_normalizePath, Option.getD_some]

end SpecLinkage
