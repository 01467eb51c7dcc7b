import SpecLinkage.Proofs.Candidate.Lines
import SpecLinkage.Proofs.Policy.Duplicates
import SpecLinkage.Proofs.SourcePath.Components

/-! # Removing repeated TAGs

The repair of a duplicate is to remove its line.  All lines that the duplicates of a file name are
removed at once, and what is on the other lines does not change; so no duplicate is left, and a link
is lost exactly if its first TAG stands on one of these lines.

* `Candidate.links_withoutLines`: what a text states without some of its lines.
* `mem_repeatLines_iff`, `Policy.removed_iff`: the lines that are removed.
* `Policy.repaired_exact` is the result.  `Policy.repaired_sharedLine`: two TAGs on one line. -/

namespace SpecLinkage

open Text

/-! ## Texts without some lines -/

/-- The lines that are not removed; the first line has number `number`. -/
def withoutLines (removed : Nat → Bool) (number : Nat) : List (List Char) → List (List Char)
  | [] => []
  | line :: lines =>
    if removed number then withoutLines removed (number + 1) lines
    else line :: withoutLines removed (number + 1) lines

theorem withoutLines_sublist (removed : Nat → Bool) (number : Nat) (lines : List (List Char)) :
    (withoutLines removed number lines).Sublist lines := by
  induction lines generalizing number with
  | nil => exact .slnil
  | cons line lines ih =>
    rw [withoutLines]
    split
    · exact (ih _).cons _
    · exact (ih _).cons_cons _

/-- Whether the repair of a violation is to remove the line with number `n`. -/
def Violation.removesLine (v : Violation) (n : Nat) : Bool :=
  v.fix == some ("remove line " ++ toString n)

/-- The text without the lines that the repairs of some violations remove. -/
def repaired (vs : List Violation) (content : String) : String :=
  String.ofList <| ['\n'].intercalate <|
    withoutLines (fun n => vs.any (·.removesLine n)) 1 (splitAll '\n' content.toList)

namespace Candidate

/-- The link that a candidate states. -/
def link? (c : Candidate) : Option (SpecId × Verb × Category) := c.tag?.map Tag.link

/-- What a candidate states does not depend on its line and its bytes. -/
theorem link?_moved (clause : Clause) (path : String) (number number' : Nat) (span span' : Span) :
    link? ⟨clause, path, number, span⟩ = link? ⟨clause, path, number', span'⟩ := by
  rw [link?, link?, tag?, tag?, verb?, verb?]
  split <;> simp_all [Tag.link, Tag.make, category]

theorem line_of_tag? {c : Candidate} {t : Tag} (h : c.tag? = some t) : t.line = c.line := by
  rw [tag?] at h
  split at h
  · cases h; rfl
  · cases h

/-- A line states the same wherever it stands. -/
theorem links_onLine (path : String) (number number' offset offset' : Nat) (line : List Char) :
    (onLine path number offset line).filterMap link? =
      (onLine path number' offset' line).filterMap link? := by
  have hshift (offset : Nat) : scanLine offset line =
      (scanLine 0 line).map fun x => (x.1, x.2.shift offset) := by
    rw [← scanLine_shift, Nat.zero_add]
  rw [onLine, onLine, hshift offset, hshift offset', List.map_map, List.map_map,
    List.filterMap_map, List.filterMap_map]
  congr 1
  funext x
  exact link?_moved ..

theorem line_of_mem_onLine {path : String} {number offset : Nat} {line : List Char} {t : Tag}
    (h : t ∈ (onLine path number offset line).filterMap tag?) : t.line = number := by
  obtain ⟨c, hc, ht⟩ := List.mem_filterMap.1 h
  obtain ⟨x, -, rfl⟩ := List.mem_map.1 hc
  exact line_of_tag? ht

theorem links_filterMap (cs : List Candidate) :
    (cs.filterMap tag?).map Tag.link = cs.filterMap link? := by
  rw [List.map_filterMap]
  rfl

/-- The other lines state what they stated before. -/
theorem links_withoutLines (path : String) (removed : Nat → Bool)
    (number number' offset offset' : Nat) (lines : List (List Char)) :
    ((scanLines path number' offset' (withoutLines removed number lines)).filterMap tag?).map
        Tag.link =
      (((scanLines path number offset lines).filterMap tag?).filter
        fun t => !removed t.line).map Tag.link := by
  induction lines generalizing number number' offset offset' with
  | nil => rfl
  | cons line lines ih =>
    have hline : ∀ t ∈ (onLine path number offset line).filterMap tag?,
        (!removed t.line) = !removed number := fun t ht => by rw [line_of_mem_onLine ht]
    rw [withoutLines, scanLines, ← onLine, List.filterMap_append, List.filter_append,
      List.map_append, List.filter_congr hline]
    cases removed number with
    | true =>
      rw [if_pos rfl, ih (number + 1) number' (offset + utf8Length line + 1) offset', Bool.not_true,
        List.filter_false, List.map_nil, List.nil_append]
    | false =>
      rw [if_neg Bool.false_ne_true, scanLines, ← onLine, List.filterMap_append, List.map_append,
        ih (number + 1) (number' + 1) (offset + utf8Length line + 1), Bool.not_false,
        List.filter_true, links_filterMap, links_filterMap,
        links_onLine path number' number offset' offset]

/-- The same for a whole text, also if no line is left. -/
theorem links_scan_withoutLines (path content : String) (removed : Nat → Bool) :
    ((scan path (String.ofList (['\n'].intercalate
        (withoutLines removed 1 (splitAll '\n' content.toList))))).filterMap tag?).map Tag.link =
      (((scan path content).filterMap tag?).filter fun t => !removed t.line).map Tag.link := by
  rw [scan, scan, String.toList_ofList, ← links_withoutLines path removed 1 1 0 0]
  by_cases hnone : withoutLines removed 1 (splitAll '\n' content.toList) = []
  · rw [hnone]
    rfl
  · rw [splitAll_intercalate hnone]
    exact fun line hline =>
      notMem_of_mem_splitAll ((withoutLines_sublist removed 1 _).subset hline)

end Candidate

/-! ## Paths -/

theorem tagsIn_eq {path : String} (h : isMarkdownPath path = false) (content : String) :
    Policy.tagsIn path content = (Candidate.scan (normalizePath (normalizePath path)) content).filterMap
      Candidate.tag? := by
  rw [Policy.tagsIn, TagSet.ofDocument, if_neg]
  · rfl
  · rw [isMarkdownPath_normalizePath h]
    exact Bool.false_ne_true

/-! ## The lines of duplicates -/

theorem toString_nat_injective {m n : Nat} (h : toString m = toString n) : m = n := by
  have hdigits : Nat.toDigits 10 m = Nat.toDigits 10 n := by
    rw [← Nat.toList_repr, ← Nat.toList_repr]
    exact congrArg String.toList h
  have hvalue (k : Nat) : Nat.ofDigitChars 10 (Nat.toDigits 10 k) 0 = k :=
    Nat.ofDigitChars_toDigits (by omega) (by omega)
  rw [← hvalue m, hdigits, hvalue]

/-- The lines of the tags that state the link of an earlier one. -/
def repeatLines (tags : List Tag) : List Nat :=
  (repeatPlaces tags).filterMap fun i => tags[i]?.map Tag.line

theorem mem_repeatLines_iff {tags : List Tag} {n : Nat} : n ∈ repeatLines tags ↔
    ∃ i ∈ repeatPlaces tags, ∃ t, tags[i]? = some t ∧ t.line = n := by
  rw [repeatLines, List.mem_filterMap]
  simp only [Option.map_eq_some_iff]

theorem Violation.TellsRepeat.removesLine_iff {v : Violation} {path : String} {again first : Tag}
    (h : v.TellsRepeat path again first) (n : Nat) : v.removesLine n = true ↔ again.line = n := by
  rw [removesLine, h.fix, beq_iff_eq, Option.some_inj, String.append_right_inj]
  exact ⟨toString_nat_injective, congrArg toString⟩

/-- The repairs remove the lines on which a link is stated again. -/
theorem removed_iff {path : String} {tags : List Tag} {places : List Nat} {vs : List Violation}
    (h : List.Forall₂ (TellsPlace path tags) places vs) (n : Nat) :
    vs.any (·.removesLine n) = true ↔
      n ∈ places.filterMap fun i => tags[i]?.map Tag.line := by
  induction h with
  | nil => exact ⟨fun h => absurd h Bool.false_ne_true, fun h => absurd h List.not_mem_nil⟩
  | cons hv _ ih =>
    obtain ⟨again, first, hagain, -, htells⟩ := hv
    rw [List.any_cons, Bool.or_eq_true, htells.removesLine_iff, ih, List.filterMap_cons, hagain,
      Option.map_some, List.mem_cons, eq_comm]

section
variable {tags : List Tag}

/-- Of two tags with the same link the second is on a line that is removed. -/
theorem pairwise_repeatLines (tags : List Tag) :
    tags.Pairwise fun e t => e.link = t.link → t.line ∈ repeatLines tags := by
  rw [List.pairwise_iff_getElem]
  intro j i hj hi hji hlink
  refine mem_repeatLines_iff.2 ⟨i, ?_, tags[i], List.getElem?_eq_getElem hi, rfl⟩
  rw [mem_repeatPlaces_iff_link (List.getElem?_eq_getElem hi), ← hlink]
  exact List.mem_map_of_mem (List.mem_take_iff_getElem.2 ⟨j, by omega, rfl⟩)

/-- The tags that are left. -/
def keptTags (tags : List Tag) : List Tag := tags.filter fun t => t.line ∉ repeatLines tags

theorem nodup_keptTags (tags : List Tag) : ((keptTags tags).map Tag.link).Nodup := by
  rw [List.Nodup, List.pairwise_map, keptTags, List.pairwise_filter]
  refine (pairwise_repeatLines tags).imp fun {e t} hrepeat _ ht hlink => ?_
  exact of_decide_eq_true ht (hrepeat hlink)

/-- Tags of different links are no duplicates. -/
theorem repeatPlaces_of_nodup (h : (tags.map Tag.link).Nodup) : repeatPlaces tags = [] := by
  rw [List.eq_nil_iff_forall_not_mem]
  intro i hi
  obtain ⟨t, ht, e, he, hlink⟩ := mem_repeatPlaces_iff.1 hi
  obtain ⟨hi, rfl⟩ := List.getElem?_eq_some_iff.1 ht
  obtain ⟨j, hj, rfl⟩ := List.mem_take_iff_getElem.1 he
  rw [List.Nodup, List.pairwise_map, List.pairwise_iff_getElem] at h
  exact h j i (by omega) hi (by omega) (Tag.sameLink_iff.1 hlink)

/-- A link is kept if its first tag is not on a line that is removed. -/
theorem mem_links_keptTags_iff {i : Nat} {t : Tag} (ht : tags[i]? = some t)
    (hfirst : i ∉ repeatPlaces tags) :
    t.link ∈ (keptTags tags).map Tag.link ↔ t.line ∉ repeatLines tags := by
  have hmem : t ∈ tags := List.mem_of_getElem? ht
  have hlink : t.link ∈ tags.map Tag.link := List.mem_map_of_mem hmem
  constructor
  · intro h
    obtain ⟨t', ht', hsame⟩ := List.mem_map.1 h
    obtain ⟨hmem', hkept⟩ := List.mem_filter.1 ht'
    obtain ⟨j, hj⟩ := List.mem_iff_getElem?.1 hmem'
    have hkept := of_decide_eq_true hkept
    -- a tag that is kept is the first of its link
    have hj' : j ∉ repeatPlaces tags := fun hj' =>
      hkept (mem_repeatLines_iff.2 ⟨j, hj', t', hj, rfl⟩)
    have hplace := (eq_idxOf_iff hlink).1 ⟨congrArg (Option.map Tag.link) ht, hfirst⟩
    have hplace' := (eq_idxOf_iff hlink).1
      ⟨(congrArg (Option.map Tag.link) hj).trans (congrArg some hsame), hj'⟩
    rw [hplace, ← hplace', hj] at ht
    obtain rfl := Option.some.inj ht
    exact hkept
  · exact fun h => List.mem_map_of_mem (List.mem_filter.2 ⟨hmem, decide_eq_true h⟩)

end

/-! ## The repaired file -/

namespace Policy

/-- What is left of the tags of a file when the lines of all duplicates are removed. -/
structure Repaired (before after : List Tag) (vs : List Violation) : Prop where
  /-- Nothing new is stated. -/
  links : ∀ l ∈ linksOf after, l ∈ linksOf before
  /-- A link is kept if its first tag is on no line that is removed. -/
  kept : ∀ i t, before[i]? = some t → i ∉ repeatPlaces before →
    (t.link ∈ linksOf after ↔ ∀ v ∈ vs, v.removesLine t.line = false)

theorem Duplicates.eq_nil {path : String} {tags : List Tag} {vs : List Violation}
    (h : Duplicates path tags vs) (hnodup : (tags.map Tag.link).Nodup) : vs = [] := by
  have htold := h.told
  rw [repeatPlaces_of_nodup hnodup] at htold
  exact List.forall₂_nil_left_iff.1 htold

theorem Duplicates.repaired {path : String} {tags after : List Tag} {vs : List Violation}
    (h : Duplicates path tags vs)
    (hlinks : after.map Tag.link = (keptTags tags).map Tag.link) : Repaired tags after vs where
  links l hl := by
    rw [mem_linksOf, hlinks] at hl
    rw [mem_linksOf]
    exact (List.filter_sublist.map Tag.link).subset hl
  kept i t ht hfirst := by
    rw [mem_linksOf, hlinks, mem_links_keptTags_iff ht hfirst, repeatLines,
      ← removed_iff h.told, List.any_eq_true, not_exists]
    simp only [not_and, Bool.not_eq_true]

theorem links_repaired (p : Policy) (r : Records) {path : String}
    (hpath : isMarkdownPath path = false) (content : String) :
    (tagsIn path (repaired ((p.afterModification r path content).ofRule .duplicateTags)
        content)).map Tag.link = (keptTags (tagsIn path content)).map Tag.link := by
  have htold := (p.duplicates_exact r path content).told
  generalize (p.afterModification r path content).ofRule .duplicateTags = vs at htold
  rw [tagsIn_eq hpath, SpecLinkage.repaired, Candidate.links_scan_withoutLines,
    ← tagsIn_eq hpath, keptTags]
  refine congrArg (List.map Tag.link) (List.filter_congr fun t _ => ?_)
  rw [Bool.eq_iff_iff, Bool.not_eq_true', ← Bool.not_eq_true, removed_iff htold,
    decide_eq_true_iff]
  rfl

/-- **Removing the lines of duplicates leaves no duplicate.**  It keeps all links if no line with the
first TAG of a link is among them; each link whose first TAG is on one of them is lost. -/
theorem repaired_exact (p : Policy) (r : Records) (path content : String)
    (hpath : isMarkdownPath path = false) :
    (∀ r', (p.afterModification r' path
        (repaired ((p.afterModification r path content).ofRule .duplicateTags) content)).ofRule
          .duplicateTags = []) ∧
      Repaired (tagsIn path content)
        (tagsIn path (repaired ((p.afterModification r path content).ofRule .duplicateTags) content))
        ((p.afterModification r path content).ofRule .duplicateTags) := by
  have hlinks := p.links_repaired r hpath content
  have hvs := p.duplicates_exact r path content
  generalize (p.afterModification r path content).ofRule .duplicateTags = vs at hlinks hvs ⊢
  generalize repaired vs content = content' at hlinks ⊢
  refine ⟨fun r' => ?_, hvs.repaired hlinks⟩
  have hnodup := nodup_keptTags (tagsIn path content)
  rw [← hlinks] at hnodup
  exact (p.duplicates_exact r' path content').eq_nil hnodup

/-- The third line states what the first line states. -/
def statedAgain : String :=
  "/* @CODE:SPEC-A-001 @TEST:SPEC-A-001 */\nfn f() {}\n# @CODE:SPEC-A-001 - again"

/-- The third line goes, and nothing is stated twice in the two that are left. -/
theorem repaired_exact_thirdLine :
    isMarkdownPath "a.rs" = false ∧
    repaired ((afterModification ⟨⟨.auto, [], []⟩, .listed {}, {}, true⟩ {} "a.rs"
        statedAgain).ofRule .duplicateTags) statedAgain =
      "/* @CODE:SPEC-A-001 @TEST:SPEC-A-001 */\nfn f() {}" ∧
    (afterModification ⟨⟨.auto, [], []⟩, .listed {}, {}, true⟩ {} "a.rs"
      "/* @CODE:SPEC-A-001 @TEST:SPEC-A-001 */\nfn f() {}").ofRule .duplicateTags = [] := by
  have hclean := (repaired_exact ⟨⟨.auto, [], []⟩, .listed {}, {}, true⟩ {} "a.rs" statedAgain
    (by decide)).1 {}
  generalize hrest : repaired _ statedAgain = rest at hclean ⊢
  have htext : "/* @CODE:SPEC-A-001 @TEST:SPEC-A-001 */\nfn f() {}" = rest := by
    rw [← hrest]
    decide +kernel
  rw [htext]
  exact ⟨by decide, rfl, hclean⟩

/-- Two TAGs for one link on one line: the line goes with both, and the link is lost. -/
theorem repaired_sharedLine :
    (linksOf (tagsIn "a.rs" "// @CODE:SPEC-A-001 @CODE:SPEC-A-001")).length = 1 ∧
    linksOf (tagsIn "a.rs"
      (repaired ((afterModification ⟨⟨.auto, [], []⟩, .listed {}, {}, true⟩ {} "a.rs"
        "// @CODE:SPEC-A-001 @CODE:SPEC-A-001").ofRule .duplicateTags)
          "// @CODE:SPEC-A-001 @CODE:SPEC-A-001")) = [] := by
  decide +kernel

end Policy

end SpecLinkage
