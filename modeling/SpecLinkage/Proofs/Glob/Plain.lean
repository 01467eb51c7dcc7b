import SpecLinkage.Glob.Parser
import SpecLinkage.SourcePath
import SpecLinkage.Proofs.Glob.Texts

/-! # Globs around plain text

Characters without a meaning in globs are read as they stand.  Around them the recursive
wildcards say where in a path the text is.

* `accepts_directory`: `dir/**` matches what lies below `dir`; `accepts_inside`: `**/dir/**` matches
  what lies below any directory of that name.
* `accepts_extension`: `**/*.ext` matches what ends with `.ext`; `accepts_marked`, `accepts_lead`:
  `**/*text*` and `**/text*.*` match by the name of the file. -/

namespace SpecLinkage

open Text

namespace Glob

/-- Whether a glob can be read and matches the path. -/
def accepts (glob path : String) : Bool := (parse? glob).any (isMatch · path)

/-- Whether a character stands for itself in a glob, outside of classes and groups. -/
def isPlain (c : Char) : Bool := !(['?', '*', '[', '\x7b', '\x7d', '\\'].contains c)

/-! ## Reading -/

section
variable {before : Option Char} {read : List Token} {c : Char} {s rest : List Char}

theorem parseFrom?_plain (h : isPlain c = true) :
    parseFrom? before ⟨[], read⟩ (c :: rest) =
      parseFrom? (some c) ⟨[], .literal c :: read⟩ rest := by
  by_cases hc : c = ','
  · subst hc
    rw [parseFrom?]
    rfl
  · simp only [isPlain, List.contains_cons, List.contains_nil, Bool.or_false, Bool.not_eq_true',
      Bool.or_eq_false_iff, beq_eq_false_iff_ne] at h
    rw [parseFrom?] <;> simp_all [Progress.push]

/-- Plain text is read character by character. -/
theorem parseFrom?_append (h : s.all isPlain = true) :
    parseFrom? before ⟨[], read⟩ (s ++ rest) =
      parseFrom? (s.getLast?.or before) ⟨[], (s.map .literal).reverse ++ read⟩ rest := by
  induction s generalizing before read with
  | nil => rfl
  | cons c s ih =>
    rw [List.all_cons, Bool.and_eq_true] at h
    rw [List.cons_append, parseFrom?_plain h.1, ih h.2, List.map_cons, List.reverse_cons,
      List.append_assoc, List.singleton_append, List.getLast?_cons]
    cases s.getLast? <;> rfl

end

section
variable {before : Option Char} {read : List Token} {rest : List Char}

/-- `**` in front of the first slash. -/
theorem parseFrom?_leadingDirs :
    parseFrom? none ⟨[], []⟩ ('*' :: '*' :: '/' :: rest) =
      parseFrom? (some '/') ⟨[], [.leadingDirs]⟩ rest := by
  simp [parseFrom?, Progress.doubleStar, Progress.push]

/-- `**` behind the last slash, whose place it takes. -/
theorem parseFrom?_trailingDirs (read : List Token) :
    parseFrom? (some '/') ⟨[], .literal '/' :: read⟩ ['*', '*'] =
      some (.trailingDirs :: read).reverse := by
  simp [parseFrom?, Progress.doubleStar, Progress.pushDirs]

theorem parseFrom?_star {c : Char} (h : c ≠ '*') :
    parseFrom? before ⟨[], read⟩ ('*' :: c :: rest) =
      parseFrom? (some '*') ⟨[], .star :: read⟩ (c :: rest) := by
  rw [parseFrom?] <;> simp_all [Progress.push]

theorem parseFrom?_lastStar :
    parseFrom? before ⟨[], read⟩ ['*'] = some (.star :: read).reverse := by
  simp [parseFrom?, Progress.push]

end

theorem ne_star_of_isPlain {c : Char} (h : isPlain c = true) : c ≠ '*' := by
  rintro rfl
  revert h
  decide

/-- A directory with everything below it. -/
theorem parse?_directory {dir : String} (h : dir.toList.all isPlain = true) :
    parse? (dir ++ "/**") = some (dir.toList.map .literal ++ [.trailingDirs]) := by
  have hslash : (dir.toList ++ ['/']).all isPlain = true := by
    rw [List.all_append, h]
    rfl
  have htext : (dir ++ "/**").toList = dir.toList ++ ['/'] ++ ['*', '*'] := by simp
  have hlast : (dir.toList ++ ['/']).getLast?.or none = some '/' := by simp
  rw [parse?, htext, parseFrom?_append hslash, hlast, List.map_append, List.reverse_append,
    List.append_assoc]
  exact (parseFrom?_trailingDirs _).trans (by simp)

/-- A directory anywhere in a path, with everything below it. -/
theorem parse?_inside {dir : String} (h : dir.toList.all isPlain = true) :
    parse? ("**/" ++ dir ++ "/**") =
      some (.leadingDirs :: (dir.toList.map .literal ++ [.trailingDirs])) := by
  have hslash : (dir.toList ++ ['/']).all isPlain = true := by
    rw [List.all_append, h]
    rfl
  have htext : ("**/" ++ dir ++ "/**").toList =
      '*' :: '*' :: '/' :: (dir.toList ++ ['/'] ++ ['*', '*']) := by simp
  have hlast : (dir.toList ++ ['/']).getLast?.or (some '/') = some '/' := by simp
  rw [parse?, htext, parseFrom?_leadingDirs, parseFrom?_append hslash, hlast, List.map_append,
    List.reverse_append, List.append_assoc]
  exact (parseFrom?_trailingDirs _).trans (by simp)

/-- Everything with an extension. -/
theorem parse?_extension {ext : String} (h : ext.toList.all isPlain = true) :
    parse? ("**/*." ++ ext) =
      some ([.leadingDirs, .star] ++ ('.' :: ext.toList).map .literal) := by
  have hdot : ('.' :: ext.toList).all isPlain = true := by
    rw [List.all_cons, h]
    rfl
  have htext : ("**/*." ++ ext).toList = '*' :: '*' :: '/' :: '*' :: '.' :: ext.toList := by simp
  rw [parse?, htext, parseFrom?_leadingDirs, parseFrom?_star (by decide),
    ← List.append_nil ('.' :: ext.toList), parseFrom?_append hdot]
  simp [parseFrom?]

/-- Everything with a mark in its name. -/
theorem parse?_marked {mark : String} {c : Char} {s : List Char} (hmark : mark.toList = c :: s)
    (h : mark.toList.all isPlain = true) :
    parse? ("**/*" ++ mark ++ "*") =
      some (.leadingDirs :: .star :: (mark.toList.map .literal ++ [.star])) := by
  have htext : ("**/*" ++ mark ++ "*").toList =
      '*' :: '*' :: '/' :: '*' :: (mark.toList ++ ['*']) := by simp
  have hstar : c ≠ '*' := ne_star_of_isPlain (List.all_eq_true.1 h c (hmark ▸ List.mem_cons_self))
  rw [parse?, htext, parseFrom?_leadingDirs, hmark, List.cons_append, parseFrom?_star hstar,
    ← List.cons_append, ← hmark, parseFrom?_append h, parseFrom?_lastStar]
  simp

/-- Everything with a name that starts with some text and has a dot behind it. -/
theorem parse?_lead {lead : String} (h : lead.toList.all isPlain = true) :
    parse? ("**/" ++ lead ++ "*.*") =
      some (.leadingDirs :: (lead.toList.map .literal ++ [.star, .literal '.', .star])) := by
  have htext : ("**/" ++ lead ++ "*.*").toList =
      '*' :: '*' :: '/' :: (lead.toList ++ ['*', '.', '*']) := by simp
  rw [parse?, htext, parseFrom?_leadingDirs, parseFrom?_append h, parseFrom?_star (by decide),
    parseFrom?_plain (by decide), parseFrom?_lastStar]
  simp

/-! ## Matching -/

/-- A glob that has more to it than `**` matches the paths that it stands for. -/
theorem accepts_iff {glob path : String} {ts : List Token} (h : parse? glob = some ts)
    (hts : ts ≠ [.leadingDirs]) :
    accepts glob path = true ↔ StandsForText path.toList ts := by
  rw [accepts, h, Option.any_some, isMatch_iff, or_iff_right hts]
  rfl

/-- A directory stands for the paths below it, by whole components. -/
theorem accepts_directory {dir path : String} (h : dir.toList.all isPlain = true) :
    accepts (dir ++ "/**") path = isUnder path dir := by
  rw [Bool.eq_iff_iff, accepts_iff (parse?_directory h) (by simp [List.append_eq_singleton_iff]),
    isUnder_iff, standsForText_literals]
  simp only [standsForText_trailingDirs]
  constructor
  · rintro ⟨_, hpath, rest, rfl⟩
    exact ⟨rest, hpath⟩
  · rintro ⟨rest, hpath⟩
    exact ⟨_, hpath, rest, rfl⟩

/-- An extension stands for the paths that end with it. -/
theorem accepts_extension {ext path : String} (h : ext.toList.all isPlain = true) :
    accepts ("**/*." ++ ext) path = endsWith ('.' :: ext.toList) path.toList := by
  have htokens : ([.leadingDirs, .star] ++ ('.' :: ext.toList).map .literal : List Token) =
      .leadingDirs :: .star :: .literal '.' :: (ext.toList.map .literal ++ []) := by simp
  rw [Bool.eq_iff_iff, accepts_iff ((parse?_extension h).trans (congrArg some htokens)) (by simp),
    endsWith_iff, standsForText_leadingDirs]
  simp only [standsForText_star (show ('.' : Char).toNat < 128 by decide), standsForText_literals,
    standsForText_nil]
  constructor
  · rintro ⟨u, hu, t, _, rfl, -, _, rfl, rfl⟩
    rw [List.append_nil] at hu
    rcases hu with hu | ⟨q, hq⟩
    · exact ⟨t, hu⟩
    · exact ⟨q ++ '/' :: t, by rw [hq]; simp⟩
  · rintro ⟨q, hq⟩
    obtain ⟨t, ht⟩ := exists_getLast?_splitAll q
    obtain ⟨hbehind, hslash⟩ := getLast?_splitAll_iff.1 ht
    exact ⟨_, hq ▸ hbehind.append _, t, ext.toList, rfl, hslash, [], (List.append_nil _).symm, rfl⟩

/-- A directory stands for the paths that it is in, anywhere. -/
theorem accepts_inside {dir path : String} (h : dir.toList.all isPlain = true)
    (hslash : '/' ∉ dir.toList) :
    accepts ("**/" ++ dir ++ "/**") path = true ↔
      dir.toList ∈ (splitAll '/' path.toList).dropLast := by
  rw [accepts_iff (parse?_inside h) (by simp), standsForText_leadingDirs,
    mem_dropLast_splitAll_iff hslash]
  simp only [standsForText_literals, standsForText_trailingDirs]
  constructor
  · rintro ⟨_, hu, _, rfl, r, rfl⟩
    exact ⟨r, hu⟩
  · rintro ⟨r, hr⟩
    exact ⟨_, hr, _, rfl, r, rfl⟩

/-- A mark stands for the paths whose name it is in. -/
theorem accepts_marked {mark path : String} {c : Char} {s : List Char}
    (hmark : mark.toList = c :: s) (hc : c.toNat < 128) (h : mark.toList.all isPlain = true)
    (hslash : '/' ∉ mark.toList) :
    accepts ("**/*" ++ mark ++ "*") path = true ↔
      ∃ name, (splitAll '/' path.toList).getLast? = some name ∧
        occursIn mark.toList name = true := by
  have htokens : (.leadingDirs :: .star :: (mark.toList.map .literal ++ [.star]) : List Token) =
      .leadingDirs :: .star :: .literal c :: (s.map .literal ++ [.star]) := by simp [hmark]
  rw [accepts_iff ((parse?_marked hmark h).trans (congrArg some htokens)) (by simp),
    standsForText_leadingDirs]
  simp only [standsForText_star hc, standsForText_literals, standsForText_star_nil,
    getLast?_splitAll_iff, occursIn_iff]
  constructor
  · rintro ⟨_, hu, t, _, rfl, ht, r, rfl, hr⟩
    refine ⟨_, ⟨hu, ?_⟩, t, r, by simp [hmark]⟩
    rw [← List.cons_append, ← hmark, List.mem_append, List.mem_append]
    exact not_or.2 ⟨ht, not_or.2 ⟨hslash, hr⟩⟩
  · rintro ⟨_, ⟨hu, hname⟩, t, r, rfl⟩
    rw [List.mem_append, List.mem_append, not_or, not_or] at hname
    exact ⟨_, hu, t, s ++ r, by simp [hmark], hname.1, r, rfl, hname.2.2⟩

/-- What a name starts with stands for the paths with such a name and a dot behind the start. -/
theorem accepts_lead {lead path : String} (h : lead.toList.all isPlain = true)
    (hslash : '/' ∉ lead.toList) :
    accepts ("**/" ++ lead ++ "*.*") path = true ↔
      ∃ name, (splitAll '/' path.toList).getLast? = some name ∧
        ∃ r, name = lead.toList ++ r ∧ '.' ∈ r := by
  rw [accepts_iff (parse?_lead h) (by simp), standsForText_leadingDirs]
  simp only [standsForText_star (show ('.' : Char).toNat < 128 by decide), standsForText_literals,
    standsForText_star_nil, getLast?_splitAll_iff]
  constructor
  · rintro ⟨_, hu, _, rfl, t, r, rfl, ht, hr⟩
    refine ⟨_, ⟨hu, ?_⟩, _, rfl, List.mem_append_right t List.mem_cons_self⟩
    simp [hslash, ht, hr]
  · rintro ⟨_, ⟨hu, hname⟩, r, rfl, hdot⟩
    obtain ⟨t, r', rfl⟩ := List.append_of_mem hdot
    simp only [List.mem_append, List.mem_cons, not_or] at hname
    exact ⟨_, hu, _, rfl, t, r', rfl, hname.2.1, hname.2.2.2⟩

end Glob

end SpecLinkage
