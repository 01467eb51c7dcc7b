import SpecLinkage.FormatError
import SpecLinkage.Candidate.Scan
import SpecLinkage.Proofs.Text.Words
import SpecLinkage.Proofs.SpecId.Grammar

/-! # Written TAGs

How TAGs are written into the comments of a file.  A line is indented, opens a comment,
holds one TAG or more, and may end with a description of the last one; a comment that needs a closer
is closed.

* `WrittenTag` is a TAG, `Remark` a description, and `AnnotatedLine` a line.
* `AnnotatedLine.text` is how a line is written, and `AnnotatedLine.textOf` how many are.
* `AnnotatedLine.statements` are the TAGs of a line, each with its description.
* `AnnotatedLine.last_comment`: a comment does not end with a blank, and
  `AnnotatedLine.newline_notMem_text`: a line is one line. -/

namespace SpecLinkage

open Text

/-! ## What is written -/

/-- What opens a comment on a line. -/
inductive CommentOpener
  | slashes | hash | semicolon | dashes
  /-- A line inside of a block comment. -/
  | star
  /-- A block comment of one line. -/
  | block
  /-- A markup comment. -/
  | markup
  deriving DecidableEq, Repr

namespace CommentOpener

def text : CommentOpener → List Char
  | slashes => ['/', '/']
  | hash => ['#']
  | semicolon => [';']
  | dashes => ['-', '-']
  | star => ['*']
  | block => ['/', '*']
  | markup => ['<', '!', '-', '-']

/-- What closes the comment, with the space before it. -/
def closer : CommentOpener → List Char
  | block => [' ', '*', '/']
  | markup => [' ', '-', '-', '>']
  | _ => []

/-- What closes the comment, without the space. -/
def mark : CommentOpener → List Char
  | block => ['*', '/']
  | markup => ['-', '-', '>']
  | _ => []

end CommentOpener

/-- What stands between the keyword and the identifier of a TAG. -/
inductive HeadSeparator
  | colon | space
  deriving DecidableEq, Repr

def HeadSeparator.char : HeadSeparator → Char
  | colon => ':'
  | space => ' '

/-- A TAG without its description. -/
structure WrittenTag where
  keyword : Keyword
  separator : HeadSeparator
  specId : SpecId
  verb : Option Verb
  deriving DecidableEq

/-- A description that is read back as it is: one line that is not empty, has no blanks at its ends
and does not end like a comment. -/
structure Remark where
  text : String
  ne_empty : text ≠ ""
  trimmed : trim text.toList = text.toList
  one_line : '\n' ∉ text.toList
  not_closed : endsWith "*/".toList text.toList = false ∧ endsWith "-->".toList text.toList = false
  deriving DecidableEq

/-- A line with TAGs in a comment. -/
structure AnnotatedLine where
  indent : List Char
  indent_blank : ∀ c ∈ indent, isBlank c = true ∧ c ≠ '\n'
  opener : CommentOpener
  tags : List WrittenTag
  tagged : tags ≠ []
  /-- The description of the last TAG. -/
  remark : Option Remark

/-! ## How it is written -/

namespace WrittenTag

def verbText (a : WrittenTag) : List Char :=
  match a.verb with
  | none => []
  | some v => ' ' :: v.text.toList

/-- The TAG behind its `@`. -/
def body (a : WrittenTag) : List Char :=
  a.keyword.text.toList ++ a.separator.char :: (a.specId.text.toList ++ a.verbText)

/-- TAGs, with a space before each of them. -/
def textOf (as : List WrittenTag) : List Char := as.flatMap fun a => ' ' :: '@' :: a.body

end WrittenTag

/-- A description behind its dash, if there is one. -/
def Remark.textOf : Option Remark → List Char
  | none => []
  | some r => ' ' :: '-' :: ' ' :: r.text.toList

namespace AnnotatedLine

def text (l : AnnotatedLine) : List Char :=
  l.indent ++ l.opener.text ++ WrittenTag.textOf l.tags ++ Remark.textOf l.remark ++
    l.opener.closer

/-- Lines joined by line breaks. -/
def textOf (ls : List AnnotatedLine) : String := String.ofList (['\n'].intercalate (ls.map text))

end AnnotatedLine

/-! ## What it says -/

namespace WrittenTag

/-- TAGs, of which the last one has a description. -/
def describe (r : Option Remark) : List WrittenTag → List (WrittenTag × Option Remark)
  | [] => []
  | [a] => [(a, r)]
  | a :: b :: as => (a, none) :: describe r (b :: as)

def clause (a : WrittenTag) (r : Option Remark) : Clause where
  keyword := a.keyword
  specId := a.specId.text
  verb := a.verb.map Verb.text
  description := r.map Remark.text

/-- The tag of a TAG on a line of a file. -/
def tag (a : WrittenTag) (r : Option Remark) (path : String) (line : Nat) : Tag :=
  let verb := a.verb.getD .impl
  let category := match a.keyword with
    | .generic => .infer verb path
    | .category c => c
  Tag.make a.specId verb category path line (r.map Remark.text)

end WrittenTag

/-- The TAGs of a line with their descriptions. -/
def AnnotatedLine.statements (l : AnnotatedLine) : List (WrittenTag × Option Remark) :=
  WrittenTag.describe l.remark l.tags

/-- The TAGs of lines with their descriptions and the numbers of their lines. -/
def AnnotatedLine.statementsOf (ls : List AnnotatedLine) :
    List ((WrittenTag × Option Remark) × Nat) :=
  (ls.zipIdx 1).flatMap fun (l, n) => l.statements.map fun s => (s, n)

example : AnnotatedLine.textOf
    [⟨[' '], List.forall_mem_singleton.2 (by decide), .block,
      [⟨.category .code, .colon, ⟨"A", 1, by decide⟩, none⟩,
        ⟨.generic, .space, ⟨"B", 2, by decide⟩, some .verify⟩],
      by decide, some ⟨"user@HOST -- why", by decide, by decide, by decide, by decide⟩⟩,
     ⟨[], List.forall_mem_nil _, .dashes, [⟨.category .test, .colon, ⟨"A", 1, by decide⟩, none⟩],
      by decide, none⟩] =
    " /* @CODE:SPEC-A-001 @TAG SPEC-B-002 verify - user@HOST -- why */\n-- @TEST:SPEC-A-001" := by
  decide +kernel

/-! ## Characters -/

theorem Keyword.isUpper_text (k : Keyword) : ∀ c ∈ k.text.toList, c.isUpper = true := by
  have hall : k.text.toList.all Char.isUpper = true := by
    rcases k with _ | c
    · decide +kernel
    · cases c <;> decide +kernel
  exact List.all_eq_true.1 hall

theorem Verb.isLower_text (v : Verb) :
    v.text.toList ≠ [] ∧ ∀ c ∈ v.text.toList, c.isLower = true := by
  have hall : v.text.toList ≠ [] ∧ v.text.toList.all Char.isLower = true := by
    cases v <;> decide +kernel
  exact ⟨hall.1, List.all_eq_true.1 hall.2⟩

/-- A spec identifier ends with a digit. -/
theorem SpecId.last_text (id : SpecId) :
    ∃ c, id.text.toList.getLast? = some c ∧ c.isDigit = true := by
  have hdigit := isDigit_digitChar ⟨id.number.val % 10, by omega⟩
  refine ⟨_, ?_, hdigit⟩
  rw [toList_text, threeDigits]
  simp [List.getLast?_append, List.getLast?_cons]

theorem CommentOpener.at_notMem (o : CommentOpener) : '@' ∉ o.text := by cases o <;> decide

theorem CommentOpener.last_text (o : CommentOpener) :
    ∀ c ∈ o.text.getLast?, isBlank c = false := by
  cases o <;> rintro _ ⟨⟩ <;> decide

/-- No closer ends with a blank. -/
theorem CommentOpener.last_closer (o : CommentOpener) :
    ∀ c ∈ o.closer.getLast?, isBlank c = false := by
  cases o <;> rintro _ ⟨⟩ <;> decide

theorem CommentOpener.isBlank_mark (o : CommentOpener) : ∀ c ∈ o.mark, isBlank c = false := by
  have hall : o.mark.all (fun c => !isBlank c) = true := by cases o <;> decide
  intro c hc
  simpa using List.all_eq_true.1 hall c hc

/-- The closer is the mark behind a space, if it is anything. -/
theorem CommentOpener.exists_closer (o : CommentOpener) :
    ∃ gap, (∀ c ∈ gap, isBlank c = true) ∧ o.closer = gap ++ o.mark := by
  cases o
  case block | markup => exact ⟨[' '], List.forall_mem_singleton.2 (by decide), rfl⟩
  all_goals exact ⟨[], List.forall_mem_nil _, rfl⟩

/-- A known verb is one word. -/
theorem Verb.isBlank_text (v : Verb) : ∀ c ∈ v.text.toList, isBlank c = false := fun c hc =>
  isBlank_of_isAlphanum (isAlphanum_of_isLower (v.isLower_text.2 c hc))

namespace WrittenTag

/-- A TAG has visible characters and spaces. -/
theorem chars_body (a : WrittenTag) : ∀ c ∈ a.body, isBlank c = false ∨ c = ' ' := by
  have hkeyword : ∀ c ∈ a.keyword.text.toList, isBlank c = false := fun c hc =>
    isBlank_of_isAlphanum (isAlphanum_of_isUpper (a.keyword.isUpper_text c hc))
  have hseparator : isBlank a.separator.char = false ∨ a.separator.char = ' ' := by
    cases a.separator <;> decide
  have hverb : ∀ c ∈ a.verbText, isBlank c = false ∨ c = ' ' := by
    rw [verbText]
    intro c hc
    split at hc
    · cases hc
    · next v _ =>
      rcases List.mem_cons.1 hc with rfl | hc
      · exact .inr rfl
      · exact .inl (v.isBlank_text c hc)
  intro c hc
  rw [body, List.mem_append, List.mem_cons, List.mem_append] at hc
  rcases hc with hc | rfl | hc | hc
  · exact .inl (hkeyword c hc)
  · exact hseparator
  · exact .inl (a.specId.isBlank_text c hc)
  · exact hverb c hc

/-- A TAG ends with a letter or a digit. -/
theorem last_body (a : WrittenTag) : ∃ c, a.body.getLast? = some c ∧ c.isAlphanum = true := by
  obtain ⟨d, hd, hdigit⟩ := a.specId.last_text
  rw [body, List.getLast?_append, List.getLast?_cons, List.getLast?_append, hd, verbText]
  cases hv : a.verb with
  | none => exact ⟨d, by simp, isAlphanum_of_isDigit hdigit⟩
  | some v =>
    have hne := List.getLast?_isSome.2 v.isLower_text.1
    obtain ⟨c, hc⟩ := Option.isSome_iff_exists.1 hne
    refine ⟨c, by simp [List.getLast?_cons, hc], ?_⟩
    exact isAlphanum_of_isLower (v.isLower_text.2 c (List.mem_of_getLast? hc))

theorem chars_textOf (as : List WrittenTag) : ∀ c ∈ textOf as, isBlank c = false ∨ c = ' ' := by
  intro c hc
  obtain ⟨a, -, hc⟩ := List.mem_flatMap.1 hc
  rcases List.mem_cons.1 hc with rfl | hc
  · exact .inr rfl
  rcases List.mem_cons.1 hc with rfl | hc
  · exact .inl (by decide)
  · exact a.chars_body c hc

theorem last_textOf {as : List WrittenTag} (h : as ≠ []) :
    ∃ c, (textOf as).getLast? = some c ∧ isBlank c = false := by
  obtain ⟨c, hc, hlast⟩ := (as.getLast h).last_body
  refine ⟨c, ?_, isBlank_of_isAlphanum hlast⟩
  rw [textOf, ← List.dropLast_concat_getLast h, List.flatMap_append, List.flatMap_singleton,
    List.getLast?_append, List.getLast?_cons, List.getLast?_cons, hc]
  rfl

end WrittenTag

theorem Remark.last_textOf (r : Option Remark) :
    ∀ c ∈ (Remark.textOf r).getLast?, isBlank c = false := by
  cases r with
  | none => rintro c ⟨⟩
  | some r =>
    have hlast := (ends_of_trim r.trimmed).2
    rw [textOf, List.getLast?_cons, List.getLast?_cons, List.getLast?_cons]
    cases hr : r.text.toList.getLast? with
    | none => exact absurd (String.toList_eq_nil_iff.1 (List.getLast?_eq_none_iff.1 hr)) r.ne_empty
    | some c =>
      rintro _ ⟨⟩
      exact hlast c hr

/-! ## Lines -/

theorem CommentOpener.newline_notMem (o : CommentOpener) : '\n' ∉ o.text ∧ '\n' ∉ o.closer := by
  cases o <;> decide

theorem WrittenTag.newline_notMem_textOf (as : List WrittenTag) : '\n' ∉ textOf as := by
  intro h
  rcases chars_textOf as _ h with h | h <;> revert h <;> decide

theorem Remark.newline_notMem_textOf (r : Option Remark) : '\n' ∉ Remark.textOf r := by
  cases r with
  | none => exact List.not_mem_nil
  | some r => simp [Remark.textOf, r.one_line]

namespace AnnotatedLine

/-- A comment does not end with a blank. -/
theorem last_comment (l : AnnotatedLine) :
    ∀ c ∈ (l.opener.text ++ (WrittenTag.textOf l.tags ++
      (Remark.textOf l.remark ++ l.opener.closer))).getLast?, isBlank c = false := by
  obtain ⟨d, hd, hblank⟩ := WrittenTag.last_textOf l.tagged
  refine last_append l.opener.last_text <| last_append ?_ <|
    last_append (Remark.last_textOf l.remark) l.opener.last_closer
  rw [hd]
  rintro _ ⟨⟩
  exact hblank

/-- A line is one line. -/
theorem newline_notMem_text (l : AnnotatedLine) : '\n' ∉ l.text := by
  have hindent : '\n' ∉ l.indent := fun h => (l.indent_blank _ h).2 rfl
  simp only [text, List.mem_append, hindent, l.opener.newline_notMem.1, l.opener.newline_notMem.2,
    WrittenTag.newline_notMem_textOf, Remark.newline_notMem_textOf, or_self, not_false_eq_true]

end AnnotatedLine

end SpecLinkage
