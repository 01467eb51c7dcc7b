import SpecLinkage.Proofs.Report.Layout
import SpecLinkage.Proofs.Report.Markup

/-! # Texts in an HTML report

Whatever the texts of a report are, its HTML has the same tags.  Two reports of the same shape are
written side by side: their pieces differ in texts only, and the template puts them outside of its
own tags.

* `Report.SameShape`: two reports with the same figures and as many texts in each place.
* `Report.similar_htmlSections`: their sections differ in texts only.
* `Report.htmlTemplate_eq`: the template in pieces.
* `Report.markup_unaltered` is the result. -/

namespace SpecLinkage

/-- Two reports with the same figures and with as many texts in each place. -/
structure Report.SameShape (r r' : Report) : Prop where
  totalTags : r.totalTags = r'.totalTags
  summary : r.summary = r'.summary
  /-- As many identifiers in each stage. -/
  ids : ∀ c ∈ Category.primaryChain, (r.matrix.stage c).length = (r'.matrix.stage c).length
  /-- As many gaps, at the same stages. -/
  missing : r.missing.map MissingLink.category = r'.missing.map MissingLink.category
  totalChains : r.coverage.totalChains = r'.coverage.totalChains
  completeChains : r.coverage.completeChains = r'.coverage.completeChains
  percentage : r.coverage.percentage = r'.coverage.percentage
  stages : r.coverage.stages = r'.coverage.stages
  incomplete : r.coverage.incompleteChains.length = r'.coverage.incompleteChains.length

namespace Report

open Markup Template

variable {r r' : Report}

/-! ## Figures and names in raw pieces -/

theorem isInside_toString (b : Bool) (n : Nat) : isInside b (toString n).toList = b :=
  isInside_of_notMem b ⟨notMem_toString (by decide) n, notMem_toString (by decide) n⟩

theorem isInside_percentText (b : Bool) (x : Binary64) : isInside b (percentText x).toList = b :=
  isInside_of_notMem b ⟨notMem_percentText (by decide) x, notMem_percentText (by decide) x⟩

theorem isInside_category (b : Bool) (c : Category) : isInside b c.text.toList = b :=
  isInside_of_notMem b (by cases c <;> simp [Category.text])

theorem isInside_group (b : Bool) (g : CategoryGroup) : isInside b g.text.toList = b :=
  isInside_of_notMem b (by cases g <;> simp [CategoryGroup.text])

theorem isInside_gradeClass (b : Bool) (g : Grade) : isInside b (gradeClass g).toList = b :=
  isInside_of_notMem b (by cases g <;> simp [gradeClass])

/-! ## Sections -/

theorem isEmpty_congr {α : Type} {l l' : List α} (h : l.length = l'.length) :
    l.isEmpty = l'.isEmpty := by
  cases l <;> cases l' <;> simp_all

theorem forall₂_flatMap {α : Type} {l : List α} {f g : α → List Markup}
    (h : ∀ a ∈ l, List.Forall₂ Similar (f a) (g a)) :
    List.Forall₂ Similar (l.flatMap f) (l.flatMap g) := by
  induction l with
  | nil => exact .nil
  | cons a l ih =>
    rw [List.flatMap_cons, List.flatMap_cons]
    exact List.rel_append (h a List.mem_cons_self) (ih fun b hb => h b (List.mem_cons_of_mem a hb))

theorem similar_codeMarkup (s t : String) :
    List.Forall₂ Similar (codeMarkup s) (codeMarkup t) :=
  .cons (.raw (by simp [isInside])) (.cons (.text s t) (.cons (.raw (by simp [isInside])) .nil))

theorem similar_codeList {l l' : List String} (h : l.length = l'.length) :
    List.Forall₂ Similar (codeList l) (codeList l') := by
  induction l generalizing l' with
  | nil =>
    obtain rfl := List.length_eq_zero_iff.1 h.symm
    exact .nil
  | cons s l ih =>
    cases l' with
    | nil => cases h
    | cons t l' =>
      have hlength : l.length = l'.length := Nat.succ.inj h
      have hrest := ih hlength
      cases l with
      | nil =>
        obtain rfl := List.length_eq_zero_iff.1 hlength.symm
        exact similar_codeMarkup s t
      | cons s' l =>
        cases l' with
        | nil => cases hlength
        | cons t' l' =>
          exact List.rel_append (similar_codeMarkup s t) (.cons (.raw (by simp [isInside])) hrest)

theorem similar_htmlSummary (h : r.SameShape r') :
    List.Forall₂ Similar (htmlSummary r) (htmlSummary r') := by
  have heq : htmlSummary r = htmlSummary r' := by
    simp only [htmlSummary, h.totalTags, h.summary]
  rw [heq, List.forall₂_same]
  intro p hp
  simp only [htmlSummary, List.mem_append, List.mem_cons, List.mem_map, List.not_mem_nil,
    or_false] at hp
  rcases hp with (rfl | rfl | ⟨g, -, rfl⟩) | rfl
  · refine .raw ?_
    simp only [toString_string, String.toList_append, isInside_append, isInside_toString]
    simp [isInside]
  · exact .raw (by simp [isInside])
  · refine .raw ?_
    simp only [toString_string, String.toList_append, isInside_append, isInside_toString,
      isInside_group, isInside_gradeClass, isInside_percentText]
    simp [isInside]
  · exact .raw (by simp [isInside])

theorem similar_htmlMatrix (h : r.SameShape r') :
    List.Forall₂ Similar (htmlMatrix r) (htmlMatrix r') := by
  rw [htmlMatrix, htmlMatrix, stages, stages, List.flatMap_map, List.flatMap_map]
  refine .cons (.raw (by simp [isInside])) (List.rel_append (forall₂_flatMap fun c hc => ?_)
    (.cons (.raw (by simp [isInside])) .nil))
  refine .cons (.raw ?_) (List.rel_append ?_ (.cons (.raw (by simp [isInside])) .nil))
  · simp only [toString_string, String.toList_append, isInside_append, isInside_category]
    simp [isInside]
  · rw [isEmpty_congr (h.ids c hc)]
    split
    · exact .cons (.raw (by simp [isInside])) .nil
    · exact similar_codeList (h.ids c hc)

theorem similar_htmlMissing (h : r.SameShape r') :
    List.Forall₂ Similar (htmlMissing r) (htmlMissing r') := by
  have hcategories : List.Forall₂ (fun m m' : MissingLink => m.category = m'.category)
      r.missing r'.missing := by
    have heq : List.Forall₂ Eq (r.missing.map MissingLink.category)
        (r'.missing.map MissingLink.category) := by
      rw [List.forall₂_eq_eq_eq]
      exact h.missing
    rwa [List.forall₂_map_left_iff, List.forall₂_map_right_iff] at heq
  rw [htmlMissing, htmlMissing, isEmpty_congr hcategories.length_eq]
  split
  · exact .cons (.raw (by simp [isInside])) .nil
  · refine .cons (.raw (by simp [isInside])) (List.rel_append
      (List.rel_flatMap hcategories fun m m' hc => ?_) (.cons (.raw (by simp [isInside])) .nil))
    rw [hc]
    refine .cons (.raw (by simp [isInside])) (List.rel_append
      (List.rel_append (List.rel_append (similar_codeMarkup _ _)
        (.cons (.raw ?_) (similar_codeMarkup _ _)))
        (.cons (.raw (by simp [isInside])) (similar_codeMarkup _ _)))
      (.cons (.raw (by simp [isInside])) .nil))
    simp only [toString_string, String.toList_append, isInside_append, isInside_category]
    simp [isInside]

theorem similar_htmlCoverage (h : r.SameShape r') :
    List.Forall₂ Similar (htmlCoverage r) (htmlCoverage r') := by
  simp only [htmlCoverage, h.percentage, h.completeChains, h.totalChains, h.stages,
    isEmpty_congr h.incomplete]
  refine List.rel_append (List.forall₂_same.2 fun p hp => ?_) (.cons (.raw (by simp [isInside])) ?_)
  · simp only [List.mem_cons, List.mem_map] at hp
    rcases hp with rfl | rfl | ⟨c, -, rfl⟩
    · refine .raw ?_
      simp only [toString_string, String.toList_append, isInside_append, isInside_toString,
        isInside_gradeClass, isInside_percentText]
      simp [isInside]
    · exact .raw (by simp [isInside])
    · refine .raw ?_
      simp only [toString_string, String.toList_append, isInside_append, isInside_toString,
        isInside_category, isInside_gradeClass, isInside_percentText]
      simp [isInside]
  · split
    · exact .nil
    · exact List.rel_append (.cons (.raw (by simp [isInside])) (similar_codeList h.incomplete))
        (.cons (.raw (by simp [isInside])) .nil)

theorem isEmpty_eq (h : r.SameShape r') : r.isEmpty = r'.isEmpty := by
  rw [isEmpty, isEmpty, h.totalTags]

theorem similar_htmlSections (h : r.SameShape r') :
    (htmlSections r).Rel (List.Forall₂ Similar) (htmlSections r') := by
  have htitle : List.Forall₂ Similar [text r.title] [text r'.title] := .cons (.text _ _) .nil
  rw [htmlSections, htmlSections, isEmpty_eq h]
  split
  · exact ⟨htitle, .cons (.raw (by simp [isInside])) .nil, .nil, .nil, .nil⟩
  · exact ⟨htitle, similar_htmlSummary h, similar_htmlMatrix h, similar_htmlMissing h,
      similar_htmlCoverage h⟩

/-! ## The template -/

def styleRuleParts (selector body : String) : List Part :=
  [.literal selector, .literal " \x7b ", .literal body, .literal " \x7d\n"]

def styleSheetParts : List Part :=
  .literal "<style>\n" ::
    styleRuleParts "body" ("font-family: system-ui, sans-serif; max-width: 800px; " ++
      "margin: 2rem auto; padding: 0 1rem;") ++
    styleRuleParts ".good" "color: green;" ++
    styleRuleParts ".warn" "color: orange;" ++
    styleRuleParts ".bad" "color: red;" ++
    styleRuleParts "code" "background: #f0f0f0; padding: 0.2em 0.4em; border-radius: 3px;" ++
    styleRuleParts "table" "border-collapse: collapse;" ++
    styleRuleParts "td, th" "padding: 0.2em 0.8em; text-align: left;" ++
    [.literal "</style>\n"]

/-- The built-in template in pieces. -/
def htmlParts (empty : Bool) : List Part :=
  [.literal "<!DOCTYPE html>\n<html>\n<head>\n<meta charset=\"utf-8\">\n", .literal "<title>",
      .slot "title", .literal "</title>\n"] ++
    (if empty then [] else styleSheetParts) ++
    [.literal "</head>\n<body>\n<h1>", .slot "title", .literal "</h1>\n", .slot "summary",
      .literal "\n"] ++
    (if empty then []
      else [.literal "<h2>Chain Matrix</h2>\n", .slot "matrix",
        .literal "\n<h2>Missing Links</h2>\n", .slot "missing",
        .literal "\n<h2>Coverage</h2>\n", .slot "coverage", .literal "\n"]) ++
    [.literal "</body>\n</html>\n"]

theorem htmlTemplate_eq (empty : Bool) :
    htmlTemplate empty = String.join ((htmlParts empty).map Part.text) := by
  have hrule : ∀ selector body : String,
      String.join ((styleRuleParts selector body).map Part.text) = styleRule selector body := by
    intro selector body
    simp only [styleRuleParts, styleRule, List.map_cons, List.map_nil, Part.text, String.join_cons,
      String.join_nil, String.append_empty, String.append_assoc]
  have hsheet : String.join (styleSheetParts.map Part.text) = styleSheet := by
    unfold styleSheet
    simp only [styleSheetParts, List.map_cons, List.map_append, List.map_nil, Part.text,
      List.cons_append, String.join_cons, String.join_append, String.join_nil, hrule,
      String.append_empty, String.append_assoc]
  unfold htmlTemplate
  cases empty
  · simp only [htmlParts, Bool.false_eq_true, reduceIte, List.map_append, List.map_cons,
      List.map_nil, Part.text, String.join_append, String.join_cons, String.join_nil, hsheet,
      String.append_empty, String.append_assoc]
  · simp only [htmlParts, reduceIte, String.append_empty, List.append_nil, List.map_append,
      List.map_cons, List.map_nil, Part.text, String.join_append, String.join_cons, String.join_nil]
    simp only [String.append_assoc]

/-- Whether a piece of a template ends outside of a tag; a placeholder is none. -/
def isOutside : Part → Bool
  | .literal s => !isInside false s.toList
  | .slot _ => true

/-- A template whose tags are complete has the same tags with values that have the same tags. -/
theorem sameTags_fill {values values' : List (String × String)} {parts : List Part}
    (h : Alike SameTags values values')
    (hread : parts.all (Part.isRead (values.map Prod.fst)) = true)
    (houtside : parts.all isOutside = true) :
    SameTags (fill values (String.join (parts.map Part.text)))
      (fill values' (String.join (parts.map Part.text))) := by
  rw [fill_join hread, fill_join (by rwa [← h.names])]
  refine SameTags.join ?_
  rw [List.forall₂_map_left_iff, List.forall₂_map_right_iff, List.forall₂_same]
  intro p hp
  cases p with
  | literal s =>
    have hs : (!isInside false s.toList) = true := List.all_eq_true.1 houtside _ hp
    exact .refl (Bool.not_eq_true' _ ▸ hs)
  | slot name =>
    rcases h.find? (· == name) with ⟨hv, hv'⟩ | ⟨v, v', hv, hv', hsame⟩
    · rw [Part.value, Part.value, hv, hv']
      exact .refl (by decide)
    · rw [Part.value, Part.value, hv, hv']
      exact hsame

theorem names_placeholderValues (s : Sections String) :
    (placeholderValues s).map Prod.fst = ["title", "summary", "matrix", "missing", "coverage"] :=
  rfl

theorem render_html (r : Report) :
    r.render .html none = fill (placeholderValues ((htmlSections r).map writeAll))
      (String.join ((htmlParts r.isEmpty).map Part.text)) := by
  rw [← htmlTemplate_eq]
  rfl

/-- Texts do not alter the markup of a report: two reports of the same shape have the same tags in
the same order, whatever their texts are.  Escaped text has no bracket and no quote, each ampersand
in it starts an entity, and it reads back. -/
theorem markup_unaltered (r r' : Report) (h : r.SameShape r') (s : String) :
    tags (r.render .html none).toList = tags (r'.render .html none).toList ∧
      (∀ c ∈ ['<', '>', '"', '\''], c ∉ (escapeHtml s).toList) ∧
      (∀ a b, (escapeHtml s).toList = a ++ '&' :: b → ∃ e ∈ htmlEntities, e.1 <+: '&' :: b) ∧
      unescapeHtml (escapeHtml s) = s := by
  have hvalues : Alike SameTags (placeholderValues ((htmlSections r).map writeAll))
      (placeholderValues ((htmlSections r').map writeAll)) :=
    (similar_htmlSections h).alike fun _ _ => sameTags_writeAll
  refine ⟨?_, escapeHtml_safe s, fun a b hab => ?_, unescapeHtml_escapeHtml s⟩
  · rw [render_html, render_html, ← isEmpty_eq h]
    refine (sameTags_fill hvalues ?_ ?_).tags
    · rw [names_placeholderValues]
      cases r.isEmpty <;> decide +kernel
    · cases r.isEmpty <;> decide +kernel
  · rw [toList_escapeHtml] at hab
    exact escapeHtml_ampersand s.toList hab

/-- Two gaps in one chain, with ordinary texts and with texts that look like tags, entities and
placeholders. -/
theorem markup_unaltered_hostile :
    (ofLinks [⟨.req, "REQ-A-1"⟩, ⟨.test, "TEST-A-1"⟩] "Report").SameShape
        (ofLinks [⟨.req, "<b>"⟩, ⟨.test, "<b>"⟩] "</title>\x7b\x7bsummary\x7d\x7d") ∧
      tags ((ofLinks [⟨.req, "REQ-A-1"⟩, ⟨.test, "TEST-A-1"⟩] "Report").render .html none).toList =
        tags ((ofLinks [⟨.req, "<b>"⟩, ⟨.test, "<b>"⟩]
          "</title>\x7b\x7bsummary\x7d\x7d").render .html none).toList ∧
      unescapeHtml (escapeHtml "&lt;'") = "&lt;'" := by
  have hshape : (ofLinks [⟨.req, "REQ-A-1"⟩, ⟨.test, "TEST-A-1"⟩] "Report").SameShape
      (ofLinks [⟨.req, "<b>"⟩, ⟨.test, "<b>"⟩] "</title>\x7b\x7bsummary\x7d\x7d") := by
    constructor <;> decide +kernel
  obtain ⟨htags, -, -, hread⟩ := markup_unaltered _ _ hshape "&lt;'"
  exact ⟨hshape, htags, hread⟩

end Report

end SpecLinkage
