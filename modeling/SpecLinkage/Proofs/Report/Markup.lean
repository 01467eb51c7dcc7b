import Mathlib.Data.List.Forall2
import SpecLinkage.Report.Markup
import SpecLinkage.Text.Affix

/-! # Escaped text and the tags of a document

Text that is escaped has no character with a meaning in HTML, and it can be read back; so what
stands between the raw pieces of a document does not change its tags.

* `escapeHtml_safe`, `escapeHtml_ampersand`: what escaped text has in it.
* `unescapeHtml_escapeHtml`: escaped text reads back.
* `Markup.tags` are the tags of a text, from each `<` to the next `>`.
* `Markup.sameTags_writeAll`: documents that differ in their texts only have the same tags, if no
  raw piece of them ends inside of a tag. -/

namespace SpecLinkage

open Text

/-! ## Entities -/

/-- The entities that are written for characters with a meaning. -/
def htmlEntities : List (List Char × Char) :=
  [("&amp;".toList, '&'), ("&lt;".toList, '<'), ("&gt;".toList, '>'), ("&quot;".toList, '"'),
    ("&#39;".toList, '\'')]

/-- The character of the entity that a text starts with, and the text behind it. -/
def readEntity? (s : List Char) : Option (Char × List Char) :=
  htmlEntities.findSome? fun e => (stripPrefix? e.1 s).map fun rest => (e.2, rest)

theorem length_readEntity?_lt {s rest : List Char} {c : Char}
    (h : readEntity? s = some (c, rest)) : rest.length < s.length := by
  obtain ⟨e, he, hrest⟩ := List.exists_of_findSome?_eq_some h
  obtain ⟨r, hr, heq⟩ := Option.map_eq_some_iff.1 hrest
  obtain ⟨-, rfl⟩ := Prod.mk.inj heq
  have hlength : 0 < e.1.length := by
    have hall : htmlEntities.all (fun e => 0 < e.1.length) = true := by decide +kernel
    simpa using List.all_eq_true.1 hall e he
  rw [stripPrefix?_eq_some_iff.1 hr, List.length_append]
  omega

/-- Read a text with entities. -/
def unescapeHtmlChars : List Char → List Char
  | [] => []
  | c :: s =>
    match _h : readEntity? (c :: s) with
    | some (d, rest) => d :: unescapeHtmlChars rest
    | none => c :: unescapeHtmlChars s
termination_by s => s.length
decreasing_by
  · exact length_readEntity?_lt _h
  · exact Nat.lt_succ_self _

/-- Read a text with entities. -/
def unescapeHtml (s : String) : String := String.ofList (unescapeHtmlChars s.toList)

/-- A character is written as an entity, or it has no meaning and is written as it is. -/
theorem escapeHtmlChar_cases (c : Char) :
    (escapeHtmlChar c, c) ∈ htmlEntities ∨
      escapeHtmlChar c = [c] ∧ c ≠ '&' ∧ c ≠ '<' ∧ c ≠ '>' ∧ c ≠ '"' ∧ c ≠ '\'' := by
  unfold escapeHtmlChar htmlEntities
  split
  · next h => simp [h]
  split
  · next h => simp [h]
  split
  · next h => simp [h]
  split
  · next h => simp [h]
  split
  · next h => simp [h]
  · next h1 h2 h3 h4 h5 => exact .inr ⟨rfl, h1, h2, h3, h4, h5⟩

theorem toList_escapeHtml (s : String) :
    (escapeHtml s).toList = s.toList.flatMap escapeHtmlChar := String.toList_ofList

/-- Escaped text has no bracket and no quote. -/
theorem escapeHtml_safe (s : String) :
    ∀ c ∈ ['<', '>', '"', '\''], c ∉ (escapeHtml s).toList := by
  have hentities : htmlEntities.all (fun e => ['<', '>', '"', '\''].all fun c =>
      !e.1.contains c) = true := by decide +kernel
  intro c hc hmem
  rw [toList_escapeHtml, List.mem_flatMap] at hmem
  obtain ⟨d, -, hd⟩ := hmem
  rcases escapeHtmlChar_cases d with he | ⟨he, h⟩
  · have hfree := List.all_eq_true.1 (List.all_eq_true.1 hentities _ he) c hc
    rw [Bool.not_eq_true', List.contains_eq_mem, decide_eq_false_iff_not] at hfree
    exact hfree hd
  · rw [he, List.mem_singleton] at hd
    subst hd
    simp only [List.mem_cons, List.not_mem_nil, or_false] at hc
    rcases hc with rfl | rfl | rfl | rfl <;> simp at h

/-- In an entity there is one ampersand, at its start. -/
theorem eq_nil_of_mem_htmlEntities {e : List Char × Char} (he : e ∈ htmlEntities)
    {a b : List Char} (h : e.1 = a ++ '&' :: b) : a = [] := by
  have hentities : htmlEntities.all (fun e => !e.1.tail.contains '&') = true := by decide +kernel
  have htail := List.all_eq_true.1 hentities e he
  cases a with
  | nil => rfl
  | cons x a =>
    rw [h] at htail
    simp at htail

/-- Every ampersand in escaped text starts an entity. -/
theorem escapeHtml_ampersand (s : List Char) {a b : List Char}
    (h : s.flatMap escapeHtmlChar = a ++ '&' :: b) :
    ∃ e ∈ htmlEntities, e.1 <+: '&' :: b := by
  induction s generalizing a with
  | nil => simp at h
  | cons c s ih =>
    rw [List.flatMap_cons, List.append_eq_append_iff] at h
    rcases h with ⟨m, -, hm⟩ | ⟨m, hc, hm⟩
    · exact ih hm
    · cases m with
      | nil => exact ih (a := []) hm.symm
      | cons x m =>
        -- the ampersand is written for `c`
        obtain ⟨rfl, rfl⟩ := List.cons.inj hm
        rcases escapeHtmlChar_cases c with he | ⟨he, hne, -⟩
        · obtain rfl := eq_nil_of_mem_htmlEntities he hc
          exact ⟨_, he, _, by rw [hc]; rfl⟩
        · rw [he] at hc
          have hmem : '&' ∈ [c] := by simp [hc]
          exact absurd (List.mem_singleton.1 hmem).symm hne

/-! ## Reading back -/

/-- An entity is read, whatever stands behind it. -/
theorem readEntity?_append {e : List Char × Char} (h : e ∈ htmlEntities) (t : List Char) :
    readEntity? (e.1 ++ t) = some (e.2, t) := by
  simp only [htmlEntities, List.mem_cons, List.not_mem_nil, or_false] at h
  rcases h with rfl | rfl | rfl | rfl | rfl <;> rfl

theorem readEntity?_of_ne {c : Char} (h : c ≠ '&') (t : List Char) :
    readEntity? (c :: t) = none := by
  rw [readEntity?, List.findSome?_eq_none_iff]
  intro e he
  simp only [htmlEntities, List.mem_cons, List.not_mem_nil, or_false] at he
  rcases he with rfl | rfl | rfl | rfl | rfl <;> simp [stripPrefix?, Ne.symm h]

theorem unescapeHtmlChars_of_some {s rest : List Char} {d : Char}
    (h : readEntity? s = some (d, rest)) :
    unescapeHtmlChars s = d :: unescapeHtmlChars rest := by
  cases s with
  | nil => exact absurd (length_readEntity?_lt h) (Nat.not_lt_zero _)
  | cons c s =>
    rw [unescapeHtmlChars]
    split
    · next heq =>
      rw [h] at heq
      cases heq
      rfl
    · next heq =>
      rw [h] at heq
      cases heq

theorem unescapeHtmlChars_of_none {c : Char} {s : List Char} (h : readEntity? (c :: s) = none) :
    unescapeHtmlChars (c :: s) = c :: unescapeHtmlChars s := by
  rw [unescapeHtmlChars]
  split
  · next heq =>
    rw [h] at heq
    cases heq
  · rfl

/-- Escaped text reads back. -/
theorem unescapeHtml_escapeHtml (s : String) : unescapeHtml (escapeHtml s) = s := by
  have hchars : ∀ l : List Char, unescapeHtmlChars (l.flatMap escapeHtmlChar) = l := by
    intro l
    induction l with
    | nil => rw [List.flatMap_nil, unescapeHtmlChars]
    | cons c l ih =>
      rw [List.flatMap_cons]
      rcases escapeHtmlChar_cases c with he | ⟨he, hc, -⟩
      · rw [unescapeHtmlChars_of_some (readEntity?_append he _), ih]
      · rw [he, List.singleton_append, unescapeHtmlChars_of_none (readEntity?_of_ne hc _), ih]
  rw [unescapeHtml, toList_escapeHtml, hchars, String.ofList_toList]

/-! ## Tags -/

namespace Markup

/-- A text up to its first `>`. -/
def throughBracket? : List Char → Option (List Char)
  | [] => none
  | c :: s => if c = '>' then some ['>'] else (throughBracket? s).map (c :: ·)

/-- The tags of a text: what stands from each `<` to the next `>`. -/
def tags : List Char → List (List Char)
  | [] => []
  | c :: s =>
    if c = '<' then ((throughBracket? s).map (c :: ·)).toList ++ tags s else tags s

/-- Whether a tag is open behind a text, if one is open before it or not. -/
def isInside (before : Bool) (s : List Char) : Bool :=
  s.foldl (fun b c => if c = '<' then true else if c = '>' then false else b) before

theorem isInside_append (b : Bool) (s t : List Char) :
    isInside b (s ++ t) = isInside (isInside b s) t := List.foldl_append

theorem isInside_cons (b : Bool) (c : Char) (s : List Char) :
    isInside b (c :: s) = isInside (if c = '<' then true else if c = '>' then false else b) s := rfl

/-- Text without brackets opens and closes nothing. -/
theorem isInside_of_notMem {s : List Char} (b : Bool) (h : '<' ∉ s ∧ '>' ∉ s) :
    isInside b s = b := by
  induction s with
  | nil => rfl
  | cons c s ih =>
    simp only [List.mem_cons, not_or] at h
    rw [isInside_cons, if_neg (Ne.symm h.1.1), if_neg (Ne.symm h.2.1), ih ⟨h.1.2, h.2.2⟩]

/-- A tag that is open before a text and not behind it is closed in it; and then no tag is open
behind the text if none is open before it. -/
theorem of_isInside_true {s : List Char} (h : isInside true s = false) :
    '>' ∈ s ∧ isInside false s = false := by
  induction s with
  | nil => cases h
  | cons c s ih =>
    rw [isInside_cons] at h ⊢
    by_cases hopen : c = '<'
    · rw [if_pos hopen] at h ⊢
      exact ⟨List.mem_cons_of_mem c (ih h).1, h⟩
    · rw [if_neg hopen] at h ⊢
      by_cases hclose : c = '>'
      · rw [if_pos hclose] at h ⊢
        exact ⟨by simp [hclose], h⟩
      · rw [if_neg hclose] at h ⊢
        exact ⟨List.mem_cons_of_mem c (ih h).1, (ih h).2⟩

theorem throughBracket?_append {s : List Char} (h : '>' ∈ s) (t : List Char) :
    throughBracket? (s ++ t) = throughBracket? s := by
  induction s with
  | nil => cases h
  | cons c s ih =>
    rw [List.cons_append, throughBracket?, throughBracket?]
    split
    · rfl
    · next hc => rw [ih ((List.mem_cons.1 h).resolve_left (Ne.symm hc))]

/-- The tags of a text that ends outside of a tag do not depend on what follows it. -/
theorem tags_append {s : List Char} (h : isInside false s = false) (t : List Char) :
    tags (s ++ t) = tags s ++ tags t := by
  induction s with
  | nil => rfl
  | cons c s ih =>
    rw [List.cons_append, tags, tags]
    rw [isInside_cons] at h
    split
    · next hc =>
      rw [if_pos hc] at h
      obtain ⟨hmem, houtside⟩ := of_isInside_true h
      rw [throughBracket?_append hmem, ih houtside, List.append_assoc]
    · next hc =>
      rw [if_neg hc, ite_self] at h
      exact ih h

theorem tags_of_notMem {s : List Char} (h : '<' ∉ s) : tags s = [] := by
  induction s with
  | nil => rfl
  | cons c s ih =>
    rw [List.mem_cons, not_or] at h
    rw [tags, if_neg (Ne.symm h.1), ih h.2]

/-! ## Texts with the same tags -/

/-- Two texts with the same tags, each of which ends outside of a tag. -/
structure SameTags (s t : String) : Prop where
  left : isInside false s.toList = false
  right : isInside false t.toList = false
  tags : tags s.toList = tags t.toList

theorem SameTags.refl {s : String} (h : isInside false s.toList = false) : SameTags s s := ⟨h, h, rfl⟩

theorem SameTags.append {s s' t t' : String} (h : SameTags s s') (h' : SameTags t t') :
    SameTags (s ++ t) (s' ++ t') where
  left := by rw [String.toList_append, isInside_append, h.left, h'.left]
  right := by rw [String.toList_append, isInside_append, h.right, h'.right]
  tags := by
    rw [String.toList_append, String.toList_append, tags_append h.left, tags_append h.right,
      h.tags, h'.tags]

theorem SameTags.join {l l' : List String} (h : List.Forall₂ SameTags l l') :
    SameTags (String.join l) (String.join l') := by
  induction h with
  | nil => exact .refl (by decide)
  | cons h _ ih =>
    rw [String.join_cons, String.join_cons]
    exact h.append ih

/-- Escaped texts have no tags, whatever they are. -/
theorem sameTags_escapeHtml (s t : String) : SameTags (escapeHtml s) (escapeHtml t) := by
  have hsafe : ∀ s, '<' ∉ (escapeHtml s).toList ∧ '>' ∉ (escapeHtml s).toList := fun s =>
    ⟨escapeHtml_safe s '<' (by simp), escapeHtml_safe s '>' (by simp)⟩
  refine ⟨isInside_of_notMem _ (hsafe s), isInside_of_notMem _ (hsafe t), ?_⟩
  rw [tags_of_notMem (hsafe s).1, tags_of_notMem (hsafe t).1]

/-- Pieces that differ in their texts only; a raw piece ends outside of a tag. -/
inductive Similar : Markup → Markup → Prop
  | raw {s : String} (h : isInside false s.toList = false) : Similar (raw s) (raw s)
  | text (s t : String) : Similar (text s) (text t)

/-- Documents that differ in their texts only have the same tags. -/
theorem sameTags_writeAll {l l' : List Markup} (h : List.Forall₂ Similar l l') :
    SameTags (writeAll l) (writeAll l') := by
  refine SameTags.join ?_
  rw [List.forall₂_map_left_iff, List.forall₂_map_right_iff]
  refine h.imp fun p p' hp => ?_
  cases hp with
  | raw h => exact .refl h
  | text s t => exact sameTags_escapeHtml s t

end Markup

end SpecLinkage
