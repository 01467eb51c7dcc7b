import SpecLinkage.Proofs.Candidate.RoundTrip

/-! # Closers

What the scan makes of a comment closer that stands in the middle of a line, or without a space
before it.

* `WrittenTag.comment`: a comment with one TAG and a closer; `WrittenTag.sideBySide`: complete
  comments on one line.
* `Candidate.scan_opener`: the candidates of a line that opens with a comment.
* `Candidate.scan_sideBySide`: block comments keep all their TAGs; of several markup comments all
  but the first are taken for the description of its TAG.
* `Candidate.scan_glued`: a closer glued to an identifier or to a description is removed; a verb
  with a closer glued to it is lost. -/

namespace SpecLinkage

open Text

/-! ## What is written -/

namespace WrittenTag

/-- A comment with one TAG and a closer behind it. -/
def comment (o : CommentOpener) (a : WrittenTag) (r : Option Remark) (closer : List Char) :
    List Char :=
  o.text ++ ' ' :: '@' :: (a.body ++ (Remark.textOf r ++ closer))

/-- Complete comments with one TAG each, and a space between them. -/
def sideBySide (o : CommentOpener) (as : List WrittenTag) : List Char :=
  [' '].intercalate (as.map fun a => a.comment o none o.closer)

theorem sideBySide_singleton (o : CommentOpener) (a : WrittenTag) :
    sideBySide o [a] = a.comment o none o.closer :=
  List.intercalate_singleton

theorem sideBySide_cons_cons (o : CommentOpener) (a b : WrittenTag) (as : List WrittenTag) :
    sideBySide o (a :: b :: as) =
      o.text ++ ' ' :: '@' :: (a.body ++ (o.closer ++ ' ' :: sideBySide o (b :: as))) := by
  have hjoin : sideBySide o (a :: b :: as) =
      a.comment o none o.closer ++ [' '] ++ sideBySide o (b :: as) := List.intercalate_cons_cons
  rw [hjoin, comment]
  simp [Remark.textOf]

/-- The line starts with an opener. -/
theorem exists_sideBySide (o : CommentOpener) (a : WrittenTag) (as : List WrittenTag) :
    ∃ t, sideBySide o (a :: as) = o.text ++ t := by
  cases as with
  | nil => exact ⟨_, sideBySide_singleton o a⟩
  | cons b as => exact ⟨_, sideBySide_cons_cons o a b as⟩

/-- The line ends with the closer of the last comment, behind a letter or a digit. -/
theorem exists_sideBySide_closer (o : CommentOpener) (a : WrittenTag) (as : List WrittenTag) :
    ∃ t c, sideBySide o (a :: as) = t ++ o.closer ∧ t.getLast? = some c ∧ c.isAlphanum = true := by
  induction as generalizing a with
  | nil =>
    obtain ⟨c, hc, hlast⟩ := a.last_body
    refine ⟨o.text ++ ' ' :: '@' :: a.body, c, ?_, ?_, hlast⟩
    · simp [sideBySide_singleton, comment, Remark.textOf]
    · simp [List.getLast?_append, List.getLast?_cons, hc]
  | cons b as ih =>
    obtain ⟨t, c, ht, hc, hlast⟩ := ih b
    refine ⟨o.text ++ ' ' :: '@' :: (a.body ++ (o.closer ++ ' ' :: t)), c, ?_, ?_, hlast⟩
    · simp [sideBySide_cons_cons, ht]
    · simp [List.getLast?_append, List.getLast?_cons, hc]

theorem last_sideBySide (o : CommentOpener) (a : WrittenTag) (as : List WrittenTag) :
    ∀ c ∈ (sideBySide o (a :: as)).getLast?, isBlank c = false := by
  obtain ⟨t, c, ht, hc, hlast⟩ := exists_sideBySide_closer o a as
  rw [ht]
  refine last_append ?_ o.last_closer
  rw [hc]
  rintro _ ⟨⟩
  exact isBlank_of_isAlphanum hlast

theorem last_comment {closer : List Char} (h : ∀ c ∈ closer.getLast?, isBlank c = false)
    (o : CommentOpener) (a : WrittenTag) (r : Option Remark) :
    ∀ c ∈ (a.comment o r closer).getLast?, isBlank c = false := by
  have htext : a.comment o r closer =
      o.text ++ ' ' :: '@' :: a.body ++ (Remark.textOf r ++ closer) := by
    simp [comment]
  obtain ⟨d, hd, hlast⟩ := a.last_body
  rw [htext]
  refine last_append ?_ (last_append (Remark.last_textOf r) h)
  rw [List.getLast?_append, List.getLast?_cons, List.getLast?_cons, hd]
  rintro _ ⟨⟩
  exact isBlank_of_isAlphanum hlast

theorem newline_notMem_comment {closer : List Char} (h : '\n' ∉ closer) (o : CommentOpener)
    (a : WrittenTag) (r : Option Remark) : '\n' ∉ a.comment o r closer := by
  have hbody : '\n' ∉ a.body := fun hmem => newline_notMem_textOf [a] (by simp [textOf, hmem])
  simp [comment, o.newline_notMem.1, hbody, Remark.newline_notMem_textOf, h]

theorem newline_notMem_sideBySide (o : CommentOpener) (as : List WrittenTag) :
    '\n' ∉ sideBySide o as := by
  have hcomment : ∀ a : WrittenTag, '\n' ∉ a.comment o none o.closer := fun a =>
    a.newline_notMem_comment o.newline_notMem.2 o none
  induction as with
  | nil => exact List.not_mem_nil
  | cons a as ih =>
    cases as with
    | nil =>
      rw [sideBySide_singleton]
      exact hcomment a
    | cons b as =>
      have hjoin : sideBySide o (a :: b :: as) =
          a.comment o none o.closer ++ [' '] ++ sideBySide o (b :: as) := List.intercalate_cons_cons
      simp [hjoin, hcomment a, ih]

end WrittenTag

namespace Candidate

open WrittenTag

variable {s t rest : List Char}

/-! ## One line -/

/-- The candidates of a text are those of its comment, if it is one line that opens with one. -/
theorem scan_opener {cs : List Clause} (path : String) (o : CommentOpener)
    (hline : '\n' ∉ o.text ++ s) (hlast : ∀ c ∈ (o.text ++ s).getLast?, isBlank c = false)
    (hs : ∀ before offset, (scanComment before offset (o.text ++ s)).map Prod.fst = cs) :
    (scan path (String.ofList (o.text ++ s))).map (fun c => (c.clause, c.filePath, c.line)) =
      cs.map fun clause => (clause, path, 1) := by
  have hscan : scan path (String.ofList (o.text ++ s)) = onLine path 1 0 (o.text ++ s) := by
    rw [scan, String.toList_ofList]
    exact scanFrom_line hline
  have hclauses := scanLine_opener (List.forall_mem_nil _) o hlast hs 0
  rw [List.nil_append] at hclauses
  rw [hscan, onLine, List.map_map, ← hclauses, List.map_map]
  rfl

/-- A comment with one TAG says what was written. -/
theorem scanComment_comment (o : CommentOpener) (a : WrittenTag) (r : Option Remark)
    (before : Option Char) (offset : Nat) :
    (scanComment before offset (a.comment o r o.closer)).map Prod.fst = [a.clause r] := by
  refine clauses_append o.at_notMem (fun before offset => ?_) before offset
  have hscan := scanComment_textOf (List.cons_ne_nil a []) r o before offset
  rw [textOf, List.flatMap_singleton] at hscan
  exact hscan

/-! ## Comments side by side -/

/-- A closer in the middle of a line is no closer to the scan. -/
theorem isCloser_mark (o : CommentOpener) (ht : t ≠ [])
    (hlast : ∀ c ∈ t.getLast?, isBlank c = false) : isCloser (o.mark ++ ' ' :: t) = false := by
  have htrim : trimEnd (o.mark ++ ' ' :: t) = o.mark ++ ' ' :: t := by
    refine dropEndWhile_of_last fun c hc => hlast c ?_
    rwa [← List.singleton_append, ← List.append_assoc, List.getLast?_append,
      Option.or_of_isSome (List.getLast?_isSome.2 ht)] at hc
  rw [isCloser, htrim]
  cases o <;> rfl

/-- Behind the closer of a block comment the scan goes on. -/
theorem readTail_block (ht : t ≠ []) (hlast : ∀ c ∈ t.getLast?, isBlank c = false) :
    readTail (CommentOpener.block.closer ++ ' ' :: t) =
      (none, CommentOpener.block.closer ++ ' ' :: t) := by
  have hstart : trimStart (CommentOpener.block.closer ++ ' ' :: t) =
      CommentOpener.block.mark ++ ' ' :: t := rfl
  have hdash : startsWithDash (CommentOpener.block.mark ++ ' ' :: t) = false := rfl
  rw [readTail, hstart, isCloser_mark .block ht hlast, hdash]
  rfl

/-- The closer of a markup comment starts with a dash, so what follows it is a description. -/
theorem readTail_markup {c : Char} (hc : t.getLast? = some c) (hlast : c.isAlphanum = true) :
    readTail (CommentOpener.markup.closer ++ ' ' :: (t ++ CommentOpener.markup.closer)) =
      (some ('>' :: ' ' :: t), []) := by
  have hdescription : ∀ d ∈ ('>' :: ' ' :: t).getLast?, d.isAlphanum = true := by
    rw [List.getLast?_cons, List.getLast?_cons, hc]
    rintro _ ⟨⟩
    exact hlast
  have hblank : ∀ d ∈ ('>' :: ' ' :: t).getLast?, isBlank d = false := fun d hd =>
    isBlank_of_isAlphanum (hdescription d hd)
  have hcloser : isCloser (CommentOpener.markup.mark ++
      ' ' :: (t ++ CommentOpener.markup.closer)) = false := by
    refine isCloser_mark .markup (by simp [CommentOpener.closer]) ?_
    rw [List.getLast?_append]
    rintro _ ⟨⟩
    decide
  have hclosers : trimClosers ('>' :: ' ' :: (t ++ CommentOpener.markup.closer)) =
      '>' :: ' ' :: t := by
    have hgap : '>' :: ' ' :: (t ++ CommentOpener.markup.closer) =
        '>' :: ' ' :: t ++ ([' '] ++ CommentOpener.markup.mark) := rfl
    rw [hgap]
    exact trimClosers_append .markup (List.forall_mem_singleton.2 (by decide)) hblank
      (not_closed_of_last hdescription)
  have htrim : trim ('>' :: ' ' :: t) = '>' :: ' ' :: t := by
    rw [trim, trimStart_of_head (by rintro _ ⟨⟩; decide)]
    exact dropEndWhile_of_last hblank
  have hstart : trimStart (CommentOpener.markup.closer ++
      ' ' :: (t ++ CommentOpener.markup.closer)) =
        CommentOpener.markup.mark ++ ' ' :: (t ++ CommentOpener.markup.closer) := rfl
  have hdash : startsWithDash (CommentOpener.markup.mark ++
      ' ' :: (t ++ CommentOpener.markup.closer)) = true := rfl
  have hdashes : (CommentOpener.markup.mark ++
      ' ' :: (t ++ CommentOpener.markup.closer)).dropWhile isDash =
        '>' :: ' ' :: (t ++ CommentOpener.markup.closer) := rfl
  rw [readTail, hstart, hcloser, if_neg Bool.false_ne_true, hdash, if_pos rfl, hdashes, hclosers,
    htrim]
  simp only [if_neg (List.cons_ne_nil _ _)]

/-- A TAG with a closer behind it is read, and then what follows the closer. -/
theorem readClause_closer (o : CommentOpener) (ho : o.mark ≠ []) (a : WrittenTag) :
    readClause (a.body ++ (o.closer ++ t)) =
      some (⟨a.keyword, a.specId.text, a.verb.map Verb.text,
        (readTail (o.closer ++ t)).1.map String.ofList⟩, (readTail (o.closer ++ t)).2) := by
  refine readClause_body a ?_ ?_
  · cases o
    case block | markup => exact startsBlank_cons (by decide)
    all_goals exact absurd rfl ho
  · cases o
    case block | markup => rintro _ ⟨⟩; decide
    all_goals exact absurd rfl ho

/-- The TAGs of block comments are found one after the other. -/
theorem scanComment_blocks (as : List WrittenTag) (before : Option Char) (offset : Nat) :
    (scanComment before offset (sideBySide .block as)).map Prod.fst =
      as.map fun a => a.clause none := by
  induction as generalizing before offset with
  | nil =>
    rw [sideBySide, List.map_nil, List.intercalate_nil, scanComment]
    rfl
  | cons a as ih =>
    cases as with
    | nil =>
      rw [sideBySide_singleton]
      exact scanComment_comment .block a none before offset
    | cons b as =>
      rw [sideBySide_cons_cons]
      refine clauses_append (CommentOpener.at_notMem _) (fun before offset => ?_) before offset
      have hne : sideBySide .block (b :: as) ≠ [] := by
        obtain ⟨t, ht⟩ := exists_sideBySide .block b as
        rw [ht]
        exact List.cons_ne_nil _ _
      have hread := readClause_closer (t := ' ' :: sideBySide .block (b :: as)) .block (by decide) a
      rw [readTail_block hne (last_sideBySide .block b as)] at hread
      obtain ⟨offset', hscan⟩ := scanComment_of_readClause hread before offset
      have hrest := clauses_append (u := CommentOpener.block.closer ++ [' ']) (by decide) ih none
        offset'
      rw [List.append_assoc, List.singleton_append] at hrest
      rw [hscan, hrest]
      rfl

/-- Of two markup comments or more the first TAG is found, with all the others in its
description. -/
theorem scanComment_markups (a b : WrittenTag) (as : List WrittenTag) (before : Option Char)
    (offset : Nat) :
    (scanComment before offset (sideBySide .markup (a :: b :: as))).map Prod.fst =
      [{ a.clause none with description := some (String.ofList ('>' :: ' ' ::
          dropSuffix CommentOpener.markup.closer (sideBySide .markup (b :: as)))) }] := by
  obtain ⟨t, c, ht, hc, hlast⟩ := exists_sideBySide_closer .markup b as
  rw [sideBySide_cons_cons, ht, dropSuffix_append]
  refine clauses_append (CommentOpener.at_notMem _) (fun before offset => ?_) before offset
  have hread := readClause_closer (t := ' ' :: (t ++ CommentOpener.markup.closer)) .markup
    (by decide) a
  rw [readTail_markup hc hlast] at hread
  obtain ⟨offset', hscan⟩ := scanComment_of_readClause hread before offset
  rw [hscan, scanComment]
  rfl

/-- Comments side by side are one line that opens with a comment. -/
theorem scan_ofList_sideBySide {cs : List Clause} (path : String) (o : CommentOpener)
    (a : WrittenTag) (as : List WrittenTag)
    (hs : ∀ before offset,
      (scanComment before offset (sideBySide o (a :: as))).map Prod.fst = cs) :
    (scan path (String.ofList (sideBySide o (a :: as)))).map
        (fun c => (c.clause, c.filePath, c.line)) =
      cs.map fun clause => (clause, path, 1) := by
  have hline := newline_notMem_sideBySide o (a :: as)
  have hlast := last_sideBySide o a as
  obtain ⟨t, ht⟩ := exists_sideBySide o a as
  rw [ht] at hs hline hlast ⊢
  exact scan_opener path o hline hlast hs

/-- **Comments side by side.**  On a line of complete block comments all TAGs are found, in order
and without descriptions, and so is the TAG of a single markup comment.  Of several markup comments
only the first TAG is found; what follows the dashes of its closer is taken for its description. -/
theorem scan_sideBySide (path : String) :
    (∀ as : List WrittenTag,
      (scan path (String.ofList (sideBySide .block as))).map
          (fun c => (c.clause, c.filePath, c.line)) =
        as.map fun a => (a.clause none, path, 1)) ∧
    (∀ a : WrittenTag,
      (scan path (String.ofList (sideBySide .markup [a]))).map
          (fun c => (c.clause, c.filePath, c.line)) =
        [(a.clause none, path, 1)]) ∧
    ∀ (a b : WrittenTag) (as : List WrittenTag),
      (scan path (String.ofList (sideBySide .markup (a :: b :: as)))).map
          (fun c => (c.clause, c.filePath, c.line)) =
        [({ a.clause none with description := some (String.ofList ('>' :: ' ' ::
          dropSuffix CommentOpener.markup.closer (sideBySide .markup (b :: as)))) }, path, 1)] := by
  refine ⟨fun as => ?_, fun a => ?_, fun a b as => ?_⟩
  · cases as with
    | nil => rfl
    | cons a as =>
      rw [scan_ofList_sideBySide path .block a as (scanComment_blocks (a :: as)), List.map_map]
      rfl
  · rw [scan_ofList_sideBySide path .markup a [] (by
      rw [sideBySide_singleton]
      exact scanComment_comment .markup a none)]
    rfl
  · rw [scan_ofList_sideBySide path .markup a (b :: as) (scanComment_markups a b as)]
    rfl

/-- Two complete markup comments on one line lose the second TAG. -/
theorem scan_twoMarkupComments :
    (scan "a.md" "<!-- @CODE:SPEC-A-001 --> <!-- @TEST:SPEC-A-001 verify -->").map
        Candidate.clause ≠
      [⟨.category .code, "SPEC-A-001", none, none⟩,
        ⟨.category .test, "SPEC-A-001", some "verify", none⟩] := by
  decide +kernel

/-! ## Glued closers -/

/-- A word with a mark glued to it is no verb. -/
theorem readVerb_mark (v : Verb) (o : CommentOpener) (ho : o.mark ≠ []) :
    readVerb (' ' :: (v.text.toList ++ o.mark)) = .absent := by
  have hword : ∀ c ∈ v.text.toList ++ o.mark, isBlank c = false := by
    intro c hc
    rcases List.mem_append.1 hc with hc | hc
    · exact v.isBlank_text c hc
    · exact o.isBlank_mark c hc
  have hstart : trimStart (' ' :: (v.text.toList ++ o.mark)) = v.text.toList ++ o.mark := by
    rw [trimStart_cons (by decide)]
    exact trimStart_of_head fun c hc => hword c (List.mem_of_mem_head? hc)
  have hlower : o.mark.all Char.isLower = false := by
    cases o
    case block | markup => decide
    all_goals exact absurd rfl ho
  have hread := word_append hword startsBlank_nil
  rw [List.append_nil] at hread
  rw [readVerb, hstart, hread, if_neg]
  rintro ⟨-, hall⟩
  rw [List.all_append, hlower, Bool.and_false] at hall
  cases hall

/-- The word is no part of the TAG, and there is nothing to find in it. -/
theorem readTail_verb (v : Verb) (o : CommentOpener) :
    readTail (' ' :: (v.text.toList ++ o.mark)) = (none, ' ' :: (v.text.toList ++ o.mark)) := by
  obtain ⟨c, t, hct⟩ := List.exists_cons_of_ne_nil v.isLower_text.1
  have hlower : c.isLower = true := v.isLower_text.2 c (by rw [hct]; exact List.mem_cons_self)
  have hblank : isBlank c = false := isBlank_of_isAlphanum (isAlphanum_of_isLower hlower)
  have hstart : trimStart (' ' :: (v.text.toList ++ o.mark)) = c :: (t ++ o.mark) := by
    rw [trimStart_cons (by decide), hct]
    exact trimStart_of_head (by rintro _ ⟨⟩; exact hblank)
  refine readTail_of_head hstart ⟨hblank, ?_, ?_⟩
  · rintro rfl
    exact absurd hlower (by decide)
  · rw [isDash, Bool.or_eq_false_iff, beq_eq_false_iff_ne, beq_eq_false_iff_ne]
    constructor <;> rintro rfl <;> exact absurd hlower (by decide)

theorem readTail_nil : readTail [] = (none, []) := rfl

/-- A mark glued to a description is removed. -/
theorem readClause_remark_mark (o : CommentOpener) (a : WrittenTag) (r : Remark) :
    readClause (a.body ++ (Remark.textOf (some r) ++ o.mark)) = some (a.clause (some r), []) := by
  have hblank : StartsBlank (Remark.textOf (some r) ++ o.mark) := startsBlank_cons (by decide)
  have htail := readTail_mark r o (List.forall_mem_nil _)
  rw [List.nil_append] at htail
  rw [readClause_body a hblank (by rintro _ ⟨⟩; decide), htail, Option.map_some,
    String.ofList_toList]
  rfl

/-- A mark glued to an identifier is removed. -/
theorem readClause_id_mark (o : CommentOpener) {a : WrittenTag} (hv : a.verb = none) :
    readClause (a.body ++ o.mark) = some (a.clause none, []) := by
  have hbody : a.body ++ o.mark =
      a.keyword.text.toList ++ a.separator.char :: (a.specId.text.toList ++ (o.mark ++ [])) := by
    simp [body, verbText, hv]
  rw [hbody, readClause, readHead_mark _ _ _ o startsBlank_nil]
  simp only [readVerb_absent (s := []) (by rintro c ⟨⟩), readTail_nil, String.ofList_toList,
    WrittenTag.clause, hv, Option.map_none]

/-- A verb with a mark glued to it is left behind. -/
theorem readClause_verb_mark (o : CommentOpener) (ho : o.mark ≠ []) {a : WrittenTag} {v : Verb}
    (hv : a.verb = some v) :
    readClause (a.body ++ o.mark) =
      some ({ a.clause none with verb := none }, ' ' :: (v.text.toList ++ o.mark)) := by
  have hbody : a.body ++ o.mark = a.keyword.text.toList ++
      a.separator.char :: (a.specId.text.toList ++ ' ' :: (v.text.toList ++ o.mark)) := by
    simp [body, verbText, hv]
  rw [hbody, readClause, readHead_body _ _ _ (startsBlank_cons (by decide))]
  simp only [readVerb_mark v o ho, readTail_verb, String.ofList_toList]
  rfl

/-- What is read of a TAG with a mark glued to it; there is no other TAG behind it. -/
theorem readClause_mark (o : CommentOpener) (a : WrittenTag) (r : Option Remark) :
    ∃ rest, '@' ∉ rest ∧ readClause (a.body ++ (Remark.textOf r ++ o.mark)) =
      some ({ a.clause r with
        verb := if r = none ∧ o.mark ≠ [] then none else a.verb.map Verb.text }, rest) := by
  cases r with
  | some r => exact ⟨[], List.not_mem_nil, readClause_remark_mark o a r⟩
  | none =>
    have htext : Remark.textOf none ++ o.mark = o.mark := rfl
    rw [htext]
    cases hv : a.verb with
    | none =>
      refine ⟨[], List.not_mem_nil, ?_⟩
      rw [readClause_id_mark o hv]
      simp [WrittenTag.clause, hv]
    | some v =>
      by_cases ho : o.mark = []
      · refine ⟨[], List.not_mem_nil, ?_⟩
        rw [ho, readClause_body a startsBlank_nil (by rintro c ⟨⟩), readTail_nil]
        simp [WrittenTag.clause, hv]
      · have hmark : '@' ∉ o.mark := by cases o <;> decide
        have hverb : '@' ∉ v.text.toList := by cases v <;> decide +kernel
        refine ⟨' ' :: (v.text.toList ++ o.mark), by simp [hmark, hverb], ?_⟩
        rw [readClause_verb_mark o ho hv, if_pos ⟨rfl, ho⟩]

/-- A comment with a mark glued to what it says. -/
theorem scanComment_mark (o : CommentOpener) (a : WrittenTag) (r : Option Remark)
    (before : Option Char) (offset : Nat) :
    (scanComment before offset (a.comment o r o.mark)).map Prod.fst = [{ a.clause r with
      verb := if r = none ∧ o.mark ≠ [] then none else a.verb.map Verb.text }] := by
  refine clauses_append o.at_notMem (fun before offset => ?_) before offset
  obtain ⟨rest, hrest, hread⟩ := readClause_mark o a r
  obtain ⟨offset', hscan⟩ := scanComment_of_readClause hread before offset
  rw [hscan, scanComment_of_notMem hrest]
  rfl

/-- **Glued closers.**  With a space before the closer a comment says what was written.  Without it
the comment says the same, unless a verb stands directly before the closer: then the verb is
lost. -/
theorem scan_glued (path : String) (o : CommentOpener) (a : WrittenTag) (r : Option Remark) :
    (scan path (String.ofList (a.comment o r o.closer))).map
        (fun c => (c.clause, c.filePath, c.line)) = [(a.clause r, path, 1)] ∧
    (scan path (String.ofList (a.comment o r o.mark))).map
        (fun c => (c.clause, c.filePath, c.line)) =
      [({ a.clause r with
        verb := if r = none ∧ o.mark ≠ [] then none else a.verb.map Verb.text }, path, 1)] := by
  constructor
  · exact scan_opener path o (newline_notMem_comment o.newline_notMem.2 o a r)
      (last_comment o.last_closer o a r) (scanComment_comment o a r)
  · have hnewline : '\n' ∉ o.mark := by cases o <;> decide
    have hlast : ∀ c ∈ o.mark.getLast?, isBlank c = false := fun c hc =>
      o.isBlank_mark c (List.mem_of_getLast? hc)
    exact scan_opener path o (newline_notMem_comment hnewline o a r) (last_comment hlast o a r)
      (scanComment_mark o a r)

/-- A verb that stands directly before the closer is lost. -/
theorem scan_gluedVerb :
    (scan "a.rs" "/* @TEST:SPEC-A-001 verify*/").map Candidate.clause ≠
      (scan "a.rs" "/* @TEST:SPEC-A-001 verify */").map Candidate.clause := by
  decide +kernel

end Candidate
end SpecLinkage
