import SpecLinkage.TagSet
import SpecLinkage.Proofs.Candidate.Lines
import SpecLinkage.Proofs.Candidate.Written

/-! # Reading what was written

A text of written lines has the TAGs that were written, in order and on their lines, and nothing
else is found in it.  The readers of the scan are taken in turn, each on the text that the one
before it leaves.

* `Candidate.readHead_body`, `Candidate.readVerb_text`, `Candidate.readTail_remark` and
  `Candidate.readClause_body`: one TAG.
* `Candidate.scanComment_textOf`: the TAGs of a comment; the scan resumes behind each of them.
* `Candidate.scanLine_text`: the TAGs of a line.
* `Candidate.scan_written` is the result, for candidates and for tags. -/

namespace SpecLinkage.Candidate

open Text

variable {s t rest : List Char}

/-! ## One TAG -/

theorem not_isTrailingPunctuation {c : Char} (h : c.isAlphanum = true) :
    isTrailingPunctuation c = false := by
  rw [Bool.eq_false_iff]
  intro hc
  simp only [isTrailingPunctuation, Bool.or_eq_true, beq_iff_eq] at hc
  rcases hc with ((rfl | rfl) | rfl) | rfl <;> revert h <;> decide

/-- A text that ends with a letter or a digit does not end like a comment. -/
theorem not_closed_of_last (h : ∀ c ∈ s.getLast?, c.isAlphanum = true) :
    endsWith "*/".toList s = false ∧ endsWith "-->".toList s = false := by
  have hother : ∀ {p : List Char} (d : Char), p.getLast? = some d → d.isAlphanum = false →
      endsWith p s = false := by
    intro p d hp hd
    rw [Bool.eq_false_iff]
    intro hend
    obtain ⟨r, rfl⟩ := endsWith_iff.1 hend
    rw [h d (by rw [List.getLast?_append, hp]; rfl)] at hd
    cases hd
  exact ⟨hother '/' (by simp) (by decide), hother '>' (by simp) (by decide)⟩

/-- The mark of a closer is removed from the end, with the blanks before it. -/
theorem trimClosers_append {gap : List Char} (o : CommentOpener)
    (hgap : ∀ c ∈ gap, isBlank c = true) (hlast : ∀ c ∈ s.getLast?, isBlank c = false)
    (h : endsWith "*/".toList s = false ∧ endsWith "-->".toList s = false) :
    trimClosers (s ++ (gap ++ o.mark)) = s := by
  have hs : trimEnd s = s := dropEndWhile_of_last hlast
  have hspaced : trimEnd (s ++ gap) = s := (dropEndWhile_append hgap s).trans hs
  have hmark : o.mark ≠ [] → trimEnd (s ++ gap ++ o.mark) = s ++ gap ++ o.mark := by
    intro hne
    refine dropEndWhile_of_last fun c hc => o.isBlank_mark c (List.mem_of_getLast? ?_)
    rwa [List.getLast?_append, Option.or_of_isSome (List.getLast?_isSome.2 hne)] at hc
  have hmarks : o.mark = [] ∨ o.mark = "*/".toList ∨ o.mark = "-->".toList := by
    cases o <;> simp [CommentOpener.mark]
  rw [trimClosers, ← List.append_assoc]
  rcases hmarks with hc | hc | hc
  · rw [hc, List.append_nil, hspaced, dropSuffix_of_not_endsWith h.1,
      dropSuffix_of_not_endsWith h.2, hs]
  · have hclosed : endsWith "-->".toList (s ++ gap) = false :=
      endsWith_append_blanks hgap (by simp)
        (fun c hc => CommentOpener.markup.isBlank_mark c (List.mem_of_getLast? hc)) h.2
    rw [hmark (by rw [hc]; simp), hc, dropSuffix_append,
      dropSuffix_of_not_endsWith hclosed, hspaced]
  · have hother : dropSuffix "*/".toList (s ++ gap ++ "-->".toList) = s ++ gap ++ "-->".toList :=
      dropSuffix_of_last (by simp) (by simp)
    rw [hmark (by rw [hc]; simp), hc, hother, dropSuffix_append, hspaced]

/-- From an identifier with a mark glued to it the mark is removed, and nothing else. -/
theorem trimToken_mark (id : SpecId) (o : CommentOpener) :
    trimToken (id.text.toList ++ o.mark) = id.text.toList := by
  obtain ⟨d, hd, hdigit⟩ := id.last_text
  have hlast : ∀ c ∈ id.text.toList.getLast?, c.isAlphanum = true := by
    rw [hd]
    rintro _ ⟨⟩
    exact isAlphanum_of_isDigit hdigit
  have hclosers : trimClosers (id.text.toList ++ ([] ++ o.mark)) = id.text.toList :=
    trimClosers_append o (List.forall_mem_nil _)
      (fun c hc => isBlank_of_isAlphanum (hlast c hc)) (not_closed_of_last hlast)
  rw [trimToken, ← List.nil_append o.mark, hclosers]
  exact dropEndWhile_of_last fun c hc => not_isTrailingPunctuation (hlast c hc)

/-- Keyword, separator and identifier are read up to the blank behind them, also with the mark of a
closer glued to the identifier. -/
theorem readHead_mark (k : Keyword) (sep : HeadSeparator) (id : SpecId) (o : CommentOpener)
    (h : StartsBlank rest) :
    readHead (k.text.toList ++ sep.char :: (id.text.toList ++ (o.mark ++ rest))) =
      some ((k, id.text.toList), rest) := by
  have hstop : ∀ c ∈ (sep.char :: (id.text.toList ++ (o.mark ++ rest))).head?,
      c.isUpper = false := by
    rintro _ ⟨⟩
    cases sep <;> decide
  have hstart : trimStart (id.text.toList ++ (o.mark ++ rest)) =
      id.text.toList ++ o.mark ++ rest := by
    rw [← List.append_assoc]
    refine trimStart_of_head ?_
    rw [id.toList_text]
    rintro _ ⟨⟩
    decide
  have hseparator : (readSeparator (sep.char :: (id.text.toList ++ (o.mark ++ rest)))).map
      trimStart = some (id.text.toList ++ o.mark ++ rest) := by
    cases sep with
    | colon => exact congrArg some hstart
    | space => exact congrArg some ((trimStart_cons (by decide) _).trans hstart)
  obtain ⟨t, ht, htrim⟩ := Option.map_eq_some_iff.1 hseparator
  have hkeyword : Keyword.ofText? (String.ofList k.text.toList) = some k := by
    rw [String.ofList_toList]
    exact Keyword.ofText?_eq_some_iff.2 rfl
  have hword : ∀ c ∈ id.text.toList ++ o.mark, isBlank c = false := by
    intro c hc
    rcases List.mem_append.1 hc with hc | hc
    · exact id.isBlank_text c hc
    · exact o.isBlank_mark c hc
  have hne : id.text.toList ≠ [] := by
    rw [id.toList_text]
    exact List.cons_ne_nil _ _
  rw [readHead, takeWhile_of_stop k.isUpper_text hstop, dropWhile_of_stop k.isUpper_text hstop,
    hkeyword, ht]
  simp only [htrim, word_append hword h, afterWord_append hword h, trimToken_mark, if_neg hne]

theorem readHead_body (k : Keyword) (sep : HeadSeparator) (id : SpecId) (h : StartsBlank rest) :
    readHead (k.text.toList ++ sep.char :: (id.text.toList ++ rest)) =
      some ((k, id.text.toList), rest) := readHead_mark k sep id .slashes h

/-- A known verb is read, up to the blank behind it. -/
theorem readVerb_text (v : Verb) (h : StartsBlank rest) :
    readVerb (' ' :: (v.text.toList ++ rest)) = .written v.text.toList rest := by
  have hstart : trimStart (' ' :: (v.text.toList ++ rest)) = v.text.toList ++ rest := by
    rw [trimStart_cons (by decide)]
    refine trimStart_of_head fun c hc => ?_
    rw [List.head?_append, Option.or_of_isSome (List.isSome_head?.2 v.isLower_text.1)] at hc
    exact v.isBlank_text c (List.mem_of_mem_head? hc)
  have hlower : v.text.toList.all Char.isLower = true := List.all_eq_true.2 v.isLower_text.2
  have hknown : (Verb.ofText? (String.ofList v.text.toList)).isSome = true := by
    rw [String.ofList_toList, v.ofText?_text]
    rfl
  rw [readVerb, hstart, word_append v.isBlank_text h, afterWord_append v.isBlank_text h,
    if_pos ⟨v.isLower_text.1, hlower⟩, hknown, Bool.true_or, if_pos rfl]

/-- A word that does not start with a small letter is no verb. -/
theorem readVerb_absent (h : ∀ c ∈ (trimStart s).head?, c.isLower = false) :
    readVerb s = .absent := by
  rw [readVerb, if_neg]
  rintro ⟨hne, hlower⟩
  rcases hs : trimStart s with _ | ⟨c, t⟩
  · rw [hs] at hne
    exact hne rfl
  · rw [hs] at h hlower hne
    by_cases hc : isBlank c
    · exact hne (List.takeWhile_cons_of_neg (by simp [hc]))
    · rw [word, List.takeWhile_cons_of_pos (by simp [hc]), List.all_cons, h c rfl] at hlower
      cases hlower

/-- What follows is read later, if it starts neither like a closer nor like a description. -/
theorem readTail_of_head {c : Char} (h : trimStart s = c :: t)
    (hc : isBlank c = false ∧ c ≠ '*' ∧ isDash c = false) : readTail s = (none, s) := by
  have hdash : c ≠ '-' := by
    rintro rfl
    exact absurd hc.2.2 (by decide)
  have hcloser : isCloser (c :: t) = false := by
    rw [isCloser, trimEnd_cons hc.1]
    show (c :: trimEnd t == ['*', '/'] || c :: trimEnd t == ['-', '-', '>']) = false
    simp [hc.2.1, hdash]
  have hstart : startsWithDash (c :: t) = false := hc.2.2
  rw [readTail, h, hcloser, hstart]
  rfl

/-- A description is read up to the mark of the closer. -/
theorem readTail_mark {gap : List Char} (r : Remark) (o : CommentOpener)
    (hgap : ∀ c ∈ gap, isBlank c = true) :
    readTail (Remark.textOf (some r) ++ (gap ++ o.mark)) = (some r.text.toList, []) := by
  obtain ⟨hhead, hlast⟩ := ends_of_trim r.trimmed
  have hne : r.text.toList ≠ [] := fun h => r.ne_empty (String.toList_eq_nil_iff.1 h)
  have hspaced : ∀ c ∈ (' ' :: r.text.toList).getLast?, isBlank c = false := by
    rw [← List.singleton_append, List.getLast?_append,
      Option.or_of_isSome (List.getLast?_isSome.2 hne)]
    exact hlast
  have hclosers : trimClosers (' ' :: (r.text.toList ++ (gap ++ o.mark))) = ' ' :: r.text.toList := by
    rw [← List.cons_append]
    exact trimClosers_append o hgap hspaced ⟨endsWith_cons (by simp) r.not_closed.1,
      endsWith_cons (by simp) r.not_closed.2⟩
  have htrim : trim (' ' :: r.text.toList) = r.text.toList := by
    rw [trim, trimStart_cons (by decide)]
    exact r.trimmed
  have hcloser : isCloser ('-' :: ' ' :: (r.text.toList ++ (gap ++ o.mark))) = false := by
    obtain ⟨d, t, hd⟩ := List.exists_cons_of_ne_nil hne
    rw [hd] at hhead
    have hvisible : trimEnd ('-' :: ' ' :: (r.text.toList ++ (gap ++ o.mark))) =
        '-' :: ' ' :: d :: trimEnd (t ++ (gap ++ o.mark)) := by
      rw [hd]
      exact dropEndWhile_append_cons (hhead d rfl) ['-', ' '] _
    rw [isCloser, hvisible]
    rfl
  have hstart : trimStart (Remark.textOf (some r) ++ (gap ++ o.mark)) =
      '-' :: ' ' :: (r.text.toList ++ (gap ++ o.mark)) := rfl
  have hdash : startsWithDash ('-' :: ' ' :: (r.text.toList ++ (gap ++ o.mark))) = true := by
    rw [startsWithDash]
    decide
  have hdashes : ('-' :: ' ' :: (r.text.toList ++ (gap ++ o.mark))).dropWhile isDash =
      ' ' :: (r.text.toList ++ (gap ++ o.mark)) := by
    rw [List.dropWhile_cons_of_pos (by decide), List.dropWhile_cons_of_neg (by decide)]
  rw [readTail, hstart, hcloser, if_neg Bool.false_ne_true, hdash, if_pos rfl, hdashes, hclosers,
    htrim]
  simp only [if_neg hne]

/-- A description is read up to the closer. -/
theorem readTail_remark (r : Option Remark) (o : CommentOpener) :
    readTail (Remark.textOf r ++ o.closer) = (r.map fun r => r.text.toList, []) := by
  cases r with
  | none => cases o <;> decide +kernel
  | some r =>
    obtain ⟨gap, hgap, hcloser⟩ := o.exists_closer
    rw [hcloser]
    exact readTail_mark r o hgap

/-- One TAG is read; what is behind it starts with a blank, and there is no verb in it. -/
theorem readClause_body (a : WrittenTag) (h : StartsBlank rest)
    (hverb : ∀ c ∈ (trimStart rest).head?, c.isLower = false) :
    readClause (a.body ++ rest) =
      some (⟨a.keyword, a.specId.text, a.verb.map Verb.text, (readTail rest).1.map String.ofList⟩,
        (readTail rest).2) := by
  have hblank : StartsBlank (a.verbText ++ rest) := by
    rw [WrittenTag.verbText]
    cases a.verb with
    | none => exact h
    | some v => exact startsBlank_cons (by decide)
  have hbody : a.body ++ rest =
      a.keyword.text.toList ++ a.separator.char :: (a.specId.text.toList ++ (a.verbText ++ rest)) := by
    rw [WrittenTag.body, List.append_assoc, List.cons_append, List.append_assoc]
  rw [hbody, readClause, readHead_body _ _ _ hblank]
  rw [WrittenTag.verbText]
  cases a.verb with
  | none =>
    simp only [List.nil_append, readVerb_absent hverb, String.ofList_toList, Option.map_none]
  | some v =>
    simp only [List.cons_append, readVerb_text v h, String.ofList_toList, Option.map_some]

/-! ## The TAGs of a comment -/

/-- A text without an `@` in front says nothing more. -/
theorem clauses_append {u : List Char} {cs : List Clause} (hu : '@' ∉ u)
    (hs : ∀ before offset, (scanComment before offset s).map Prod.fst = cs)
    (before : Option Char) (offset : Nat) :
    (scanComment before offset (u ++ s)).map Prod.fst = cs := by
  rw [scanComment_append hu]
  exact hs _ _

/-- Behind a space a TAG is found, and the scan resumes behind it. -/
theorem scanComment_of_readClause {clause : Clause} (h : readClause s = some (clause, rest))
    (before : Option Char) (offset : Nat) :
    ∃ offset', (scanComment before offset (' ' :: '@' :: s)).map Prod.fst =
      clause :: (scanComment none offset' rest).map Prod.fst := by
  rw [scanComment_cons (by decide), scanComment_of_some ⟨rfl, by decide⟩ h]
  exact ⟨_, rfl⟩

/-- The end of a comment starts with a blank, and does not go on like a verb. -/
theorem startsBlank_end (r : Option Remark) (o : CommentOpener) :
    StartsBlank (Remark.textOf r ++ o.closer) ∧
      ∀ c ∈ (trimStart (Remark.textOf r ++ o.closer)).head?, c.isLower = false := by
  cases r with
  | none =>
    have hlower : ∀ c ∈ (trimStart o.closer).head?, c.isLower = false := by
      cases o <;> rintro _ ⟨⟩ <;> decide
    refine ⟨?_, hlower⟩
    cases o with
    | block => exact startsBlank_cons (by decide)
    | markup => exact startsBlank_cons (by decide)
    | _ => exact startsBlank_nil
  | some r =>
    refine ⟨startsBlank_cons (by decide), ?_⟩
    rintro _ ⟨⟩
    decide

/-- The TAGs of a comment are found one after the other, the last one with its description. -/
theorem scanComment_textOf {as : List WrittenTag} (hne : as ≠ []) (r : Option Remark)
    (o : CommentOpener) (before : Option Char) (offset : Nat) :
    (scanComment before offset (WrittenTag.textOf as ++ (Remark.textOf r ++ o.closer))).map
      Prod.fst = (WrittenTag.describe r as).map fun s => s.1.clause s.2 := by
  induction as generalizing before offset with
  | nil => exact absurd rfl hne
  | cons a as ih =>
    rcases as with _ | ⟨b, as⟩
    · obtain ⟨hblank, hverb⟩ := startsBlank_end r o
      have hread := readClause_body a hblank hverb
      rw [readTail_remark] at hread
      obtain ⟨offset', hscan⟩ := scanComment_of_readClause hread before offset
      have htext : WrittenTag.textOf [a] ++ (Remark.textOf r ++ o.closer) =
          ' ' :: '@' :: (a.body ++ (Remark.textOf r ++ o.closer)) := by
        rw [WrittenTag.textOf, List.flatMap_singleton]
        rfl
      have hdescription : (r.map fun r => r.text.toList).map String.ofList = r.map Remark.text := by
        cases r with
        | none => rfl
        | some r => exact congrArg some String.ofList_toList
      rw [htext, hscan, hdescription, scanComment]
      rfl
    · have hnext : WrittenTag.textOf (b :: as) ++ (Remark.textOf r ++ o.closer) =
          ' ' :: '@' :: (b.body ++ (WrittenTag.textOf as ++ (Remark.textOf r ++ o.closer))) := by
        rw [WrittenTag.textOf, List.flatMap_cons, List.append_assoc]
        rfl
      have htrim : trimStart (WrittenTag.textOf (b :: as) ++ (Remark.textOf r ++ o.closer)) =
          '@' :: (b.body ++ (WrittenTag.textOf as ++ (Remark.textOf r ++ o.closer))) := by
        rw [hnext]
        rfl
      have hblank : StartsBlank (WrittenTag.textOf (b :: as) ++ (Remark.textOf r ++ o.closer)) := by
        rw [hnext]
        exact startsBlank_cons (by decide)
      have hread := readClause_body a hblank (by rw [htrim]; rintro _ ⟨⟩; decide)
      rw [readTail_of_head htrim (by decide)] at hread
      obtain ⟨offset', hscan⟩ := scanComment_of_readClause hread before offset
      have htext : WrittenTag.textOf (a :: b :: as) ++ (Remark.textOf r ++ o.closer) =
          ' ' :: '@' :: (a.body ++ (WrittenTag.textOf (b :: as) ++
            (Remark.textOf r ++ o.closer))) := by
        rw [WrittenTag.textOf, List.flatMap_cons, List.append_assoc]
        rfl
      rw [htext, hscan, ih (List.cons_ne_nil b as)]
      rfl

/-! ## Lines -/

theorem fromMarker?_of_blank {c : Char} (h : isBlank c = true) (s : List Char) :
    fromMarker? (c :: s) = fromMarker? s := by
  have hvisible : ∀ m ∈ commentMarkers, ∃ d r, m = d :: r ∧ isBlank d = false := by
    rw [commentMarkers]
    simp only [List.forall_mem_cons]
    exact ⟨⟨_, _, rfl, by decide⟩, ⟨_, _, rfl, by decide⟩, ⟨_, _, rfl, by decide⟩,
      ⟨_, _, rfl, by decide⟩, ⟨_, _, rfl, by decide⟩, ⟨_, _, rfl, by decide⟩,
      List.forall_mem_nil _⟩
  rw [fromMarker?, if_neg]
  intro hany
  obtain ⟨m, hm, hstart⟩ := List.any_eq_true.1 hany
  obtain ⟨r, hr⟩ := startsWith_iff.1 hstart
  obtain ⟨d, r', rfl, hd⟩ := hvisible m hm
  obtain rfl := (List.cons.inj hr).1
  rw [hd] at h
  cases h

theorem fromMarker?_indent {u : List Char} (hu : ∀ c ∈ u, isBlank c = true) (s : List Char) :
    fromMarker? (u ++ s) = fromMarker? s := by
  induction u with
  | nil => rfl
  | cons c u ih =>
    rw [List.cons_append, fromMarker?_of_blank (hu c List.mem_cons_self)]
    exact ih fun d hd => hu d (List.mem_cons_of_mem c hd)

/-- The comment of a line starts where it was opened. -/
theorem commentText?_opener {u : List Char} (hu : ∀ c ∈ u, isBlank c = true) (o : CommentOpener)
    (s : List Char) : commentText? (u ++ (o.text ++ s)) = some (o.text ++ s) := by
  have htrim : trimStart (u ++ (o.text ++ s)) = o.text ++ s := by
    rw [trimStart_append hu]
    cases o <;> rfl
  rw [commentText?, htrim]
  cases o with
  | star => rfl
  | _ =>
    refine (fromMarker?_indent hu _).trans ?_
    rfl

/-- What a comment says is what its line says. -/
theorem scanLine_opener {u : List Char} {cs : List Clause} (hu : ∀ c ∈ u, isBlank c = true)
    (o : CommentOpener) (hlast : ∀ c ∈ (o.text ++ s).getLast?, isBlank c = false)
    (hs : ∀ before offset, (scanComment before offset (o.text ++ s)).map Prod.fst = cs)
    (offset : Nat) : (scanLine offset (u ++ (o.text ++ s))).map Prod.fst = cs := by
  have hne : o.text ≠ [] := by cases o <;> decide
  have hreturn : dropSuffix ['\r'] (u ++ (o.text ++ s)) = u ++ (o.text ++ s) := by
    refine dropSuffix_of_last (by decide) fun h => ?_
    rw [List.getLast?_append, Option.or_of_isSome
      (List.getLast?_isSome.2 (List.append_ne_nil_of_left_ne_nil hne s))] at h
    have hblank := hlast '\r' h
    revert hblank
    decide
  simp only [scanLine, hreturn, commentText?_opener hu]
  exact hs _ _

/-- The TAGs of a line are found, with their descriptions. -/
theorem scanLine_text (l : AnnotatedLine) (offset : Nat) :
    (scanLine offset l.text).map Prod.fst = l.statements.map fun s => s.1.clause s.2 := by
  have htext : l.text = l.indent ++ (l.opener.text ++
      (WrittenTag.textOf l.tags ++ (Remark.textOf l.remark ++ l.opener.closer))) := by
    simp only [AnnotatedLine.text, List.append_assoc]
  rw [htext]
  exact scanLine_opener (fun c hc => (l.indent_blank c hc).1) l.opener l.last_comment
    (clauses_append l.opener.at_notMem (scanComment_textOf l.tagged l.remark l.opener)) offset

theorem scanLines_text (path : String) (number offset : Nat) (ls : List AnnotatedLine) :
    (scanLines path number offset (ls.map AnnotatedLine.text)).map
        (fun c => (c.clause, c.filePath, c.line)) =
      (ls.zipIdx number).flatMap fun (l, n) =>
        l.statements.map fun s => (s.1.clause s.2, path, n) := by
  induction ls generalizing number offset with
  | nil => rfl
  | cons l ls ih =>
    rw [List.map_cons, scanLines, List.map_append, ih, List.zipIdx_cons, List.flatMap_cons]
    congr 1
    rw [List.map_map]
    have hline := congrArg (List.map fun clause => (clause, path, number)) (scanLine_text l offset)
    rw [List.map_map, List.map_map] at hline
    exact hline

/-! ## Texts -/

theorem scan_textOf (path : String) (ls : List AnnotatedLine) :
    (scan path (AnnotatedLine.textOf ls)).map (fun c => (c.clause, c.filePath, c.line)) =
      (AnnotatedLine.statementsOf ls).map fun s => (s.1.1.clause s.1.2, path, s.2) := by
  have hstatements : (AnnotatedLine.statementsOf ls).map
      (fun s => (s.1.1.clause s.1.2, path, s.2)) =
      (ls.zipIdx 1).flatMap fun (l, n) => l.statements.map fun s => (s.1.clause s.2, path, n) := by
    rw [AnnotatedLine.statementsOf, List.map_flatMap]
    congr 1
    funext ⟨l, n⟩
    rw [List.map_map]
    rfl
  rw [hstatements, scan, AnnotatedLine.textOf, String.toList_ofList]
  rcases ls with _ | ⟨l, ls⟩
  · rfl
  · have hlines : ∀ line ∈ (l :: ls).map AnnotatedLine.text, '\n' ∉ line := by
      intro line hline
      obtain ⟨l', -, rfl⟩ := List.mem_map.1 hline
      exact l'.newline_notMem_text
    rw [splitAll_intercalate (by rw [List.map_cons]; exact List.cons_ne_nil _ _) hlines]
    exact scanLines_text path 1 0 (l :: ls)

/-- What was written is well formed. -/
theorem tag?_clause (a : WrittenTag) (r : Option Remark) (path : String) (line : Nat)
    (span : Span) : tag? ⟨a.clause r, path, line, span⟩ = some (a.tag r path line) := by
  have hverb : verb? ⟨a.clause r, path, line, span⟩ = some (a.verb.getD .impl) := by
    rw [verb?, WrittenTag.clause]
    cases a.verb with
    | none => rfl
    | some v => exact v.ofText?_text
  have hcategory : category ⟨a.clause r, path, line, span⟩ (a.verb.getD .impl) =
      (a.tag r path line).category := by
    rw [category, WrittenTag.clause, WrittenTag.tag, Tag.make]
    cases a.keyword <;> rfl
  rw [tag?, hverb]
  simp only [WrittenTag.clause, a.specId.ofText?_text] at hcategory ⊢
  rw [hcategory]
  rfl

/-- **Reading undoes writing.**  In a text of written lines exactly the TAGs that were written are
found, in order, each with its keyword, identifier, verb, description and line; and every one of
them becomes a tag, without any error. -/
theorem scan_written (path : String) (ls : List AnnotatedLine) :
    (scan path (AnnotatedLine.textOf ls)).map (fun c => (c.clause, c.filePath, c.line)) =
        (AnnotatedLine.statementsOf ls).map (fun s => (s.1.1.clause s.1.2, path, s.2)) ∧
      TagSet.ofContent path (AnnotatedLine.textOf ls) =
        ⟨(AnnotatedLine.statementsOf ls).map fun s =>
          s.1.1.tag s.1.2 (normalizePath path) s.2, []⟩ := by
  refine ⟨scan_textOf path ls, ?_⟩
  -- tags and errors do not depend on the spans
  let ofPlace : Clause × String × Nat → Candidate := fun k => ⟨k.1, k.2.1, k.2.2, ⟨0, 0⟩⟩
  have htags : ∀ cs : List Candidate, cs.filterMap tag? =
      (cs.map fun c => (c.clause, c.filePath, c.line)).filterMap fun k => (ofPlace k).tag? := by
    intro cs
    rw [List.filterMap_map]
    rfl
  have herrors : ∀ cs : List Candidate, cs.flatMap formatErrors =
      (cs.map fun c => (c.clause, c.filePath, c.line)).flatMap fun k =>
        (ofPlace k).formatErrors := by
    intro cs
    rw [List.flatMap_map]
    rfl
  rw [TagSet.ofContent, TagSet.ofCandidates, htags, herrors, scan_textOf, List.filterMap_map,
    List.flatMap_map]
  congr 1
  · have hsome : ((fun k => (ofPlace k).tag?) ∘
        fun s : (WrittenTag × Option Remark) × Nat =>
          (s.1.1.clause s.1.2, normalizePath path, s.2)) =
        some ∘ fun s => s.1.1.tag s.1.2 (normalizePath path) s.2 :=
      funext fun s => tag?_clause _ _ _ _ _
    rw [hsome]
    exact congrFun List.filterMap_eq_map _
  · rw [List.flatMap_eq_nil_iff]
    intro s _
    rw [formatErrors_eq_nil_iff, tag?_clause]
    rfl

end SpecLinkage.Candidate
