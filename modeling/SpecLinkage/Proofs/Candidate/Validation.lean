import SpecLinkage.TagSet

/-! # Validation and conversion

Validation and conversion are two rules that read a candidate on their own.  They agree, so every
candidate gives its tag or its errors, and none gives both or neither.

* `Candidate.Has`: the faults of a candidate, said by what can be written at all.
* `Candidate.formatErrors_eq`, `Candidate.isSome_tag?_iff`: validation reports one error for each
  fault, conversion succeeds when there is none.
* `TagSet.add`: a candidate is validated and then converted, `TagSet.foldl_add`: the candidates of a
  text one after the other.
* `TagSet.every_candidate_counts` is the result. -/

namespace SpecLinkage

/-! ## Faults -/

/-- The faults in the order in which they are reported. -/
def FormatFault.all : List FormatFault := [malformedSpecId, unknownVerb]

namespace Candidate

variable {c : Candidate}

/-- Whether a candidate has a fault: its identifier, or the verb that it has, is none that can be
written. -/
def Has (c : Candidate) : FormatFault → Prop
  | .malformedSpecId => ∀ id : SpecId, c.clause.specId ≠ id.text
  | .unknownVerb => ∃ v, c.clause.verb = some v ∧ ∀ w : Verb, v ≠ w.text

/-- The text that a fault is about. -/
def textAt (c : Candidate) : FormatFault → String
  | .malformedSpecId => c.clause.specId
  | .unknownVerb => c.clause.verb.getD ""

/-- The error of a fault. -/
def error (c : Candidate) (f : FormatFault) : FormatError := ⟨f, c.textAt f, c.filePath, c.line⟩

theorem has_malformedSpecId_iff :
    c.Has .malformedSpecId ↔ SpecId.ofText? c.clause.specId = none := by
  rw [Has, Option.eq_none_iff_forall_ne_some]
  exact forall_congr' fun id => not_congr SpecId.ofText?_eq_some_iff.symm

/-- A verb that is not written is no fault. -/
theorem has_unknownVerb_iff : c.Has .unknownVerb ↔ c.verb? = none := by
  rw [Has, verb?]
  cases c.clause.verb with
  | none => simp
  | some v =>
    have hunknown : (∀ w : Verb, v ≠ w.text) ↔ Verb.ofText? v = none := by
      rw [Option.eq_none_iff_forall_ne_some]
      exact forall_congr' fun w => not_congr Verb.ofText?_eq_some_iff.symm
    simpa using hunknown

instance (c : Candidate) : DecidablePred c.Has
  | .malformedSpecId => decidable_of_iff _ has_malformedSpecId_iff.symm
  | .unknownVerb => decidable_of_iff _ has_unknownVerb_iff.symm

/-- Validation reports the faults of a candidate, each once and in order. -/
theorem formatErrors_eq (c : Candidate) :
    c.formatErrors = (FormatFault.all.filter fun f => c.Has f).map c.error := by
  have hid : (if (SpecId.ofText? c.clause.specId).isSome = true then []
      else [c.error .malformedSpecId]) =
        ([FormatFault.malformedSpecId].filter fun f => c.Has f).map c.error := by
    cases h : SpecId.ofText? c.clause.specId with
    | none => simp [has_malformedSpecId_iff.2 h]
    | some id => simp [has_malformedSpecId_iff, h]
  have hverb : (c.clause.verb.elim [] fun v => if (Verb.ofText? v).isSome = true then []
      else [(⟨.unknownVerb, v, c.filePath, c.line⟩ : FormatError)]) =
        ([FormatFault.unknownVerb].filter fun f => c.Has f).map c.error := by
    cases hv : c.clause.verb with
    | none => simp [has_unknownVerb_iff, verb?, hv]
    | some v =>
      cases h : Verb.ofText? v with
      | none => simp [has_unknownVerb_iff, verb?, hv, h, error, textAt]
      | some w => simp [has_unknownVerb_iff, verb?, hv, h]
  rw [FormatFault.all, ← List.singleton_append, List.filter_append, List.map_append, ← hid,
    ← hverb, formatErrors]
  cases c.clause.verb <;> rfl

end Candidate

/-! ## Extraction -/

namespace TagSet

open Candidate

/-- A candidate is validated, and if it has no error it is converted. -/
def add (set : TagSet) (c : Candidate) : TagSet :=
  match c.formatErrors with
  | [] =>
    match c.tag? with
    | some t => { set with tags := set.tags ++ [t] }
    | none => set
  | e :: errors => { set with errors := set.errors ++ e :: errors }

/-- The candidates of a text are added one after the other. -/
def addText (set : TagSet) (path content : String) : TagSet :=
  (scan (normalizePath path) content).foldl add set

theorem append_eq (a b : TagSet) : a ++ b = ⟨a.tags ++ b.tags, a.errors ++ b.errors⟩ := rfl

theorem append_assoc (a b c : TagSet) : a ++ b ++ c = a ++ (b ++ c) := by
  simp only [append_eq, List.append_assoc]

theorem ofCandidates_cons (c : Candidate) (cs : List Candidate) :
    ofCandidates (c :: cs) = ofCandidates [c] ++ ofCandidates cs := by
  rw [append_eq, ofCandidates, ofCandidates, ofCandidates, ← List.filterMap_append,
    ← List.flatMap_append, List.singleton_append]

/-- No candidate without an error is left without a tag. -/
theorem add_eq (set : TagSet) (c : Candidate) : set.add c = set ++ ofCandidates [c] := by
  have hagree := formatErrors_eq_nil_iff c
  rw [append_eq, ofCandidates, add, List.flatMap_singleton, List.filterMap_cons, List.filterMap_nil]
  cases herrors : c.formatErrors with
  | nil =>
    obtain ⟨t, ht⟩ := Option.isSome_iff_exists.1 (hagree.1 herrors)
    simp [ht]
  | cons e errors =>
    have hnone : c.tag? = none := by
      rw [← Option.not_isSome_iff_eq_none, ← hagree, herrors]
      exact List.cons_ne_nil e errors
    simp [hnone]

theorem foldl_add (set : TagSet) (cs : List Candidate) :
    cs.foldl add set = set ++ ofCandidates cs := by
  induction cs generalizing set with
  | nil => simp [append_eq, ofCandidates]
  | cons c cs ih => rw [List.foldl_cons, ih, add_eq, append_assoc, ← ofCandidates_cons]

theorem addText_eq (set : TagSet) (path content : String) :
    set.addText path content = set ++ ofContent path content := foldl_add set _

/-- The tags are the conversions of the candidates without errors. -/
theorem map_tags_ofCandidates (cs : List Candidate) :
    (ofCandidates cs).tags.map some =
      (cs.filter fun c => c.formatErrors = []).map tag? := by
  induction cs with
  | nil => rfl
  | cons c cs ih =>
    rw [ofCandidates] at ih ⊢
    by_cases h : c.formatErrors = []
    · obtain ⟨t, ht⟩ := Option.isSome_iff_exists.1 ((formatErrors_eq_nil_iff c).1 h)
      simp only [List.filterMap_cons, ht, List.map_cons, ih, List.filter_cons, h, decide_true,
        if_true]
    · have hnone := Option.not_isSome_iff_eq_none.1 (mt (formatErrors_eq_nil_iff c).2 h)
      simp only [List.filterMap_cons, hnone, ih, List.filter_cons, h, decide_false,
        Bool.false_eq_true, if_false]

/-- The errors are those of the other candidates. -/
theorem errors_ofCandidates (cs : List Candidate) :
    (ofCandidates cs).errors =
      (cs.filter fun c => c.formatErrors ≠ []).flatMap formatErrors := by
  show cs.flatMap formatErrors = _
  induction cs with
  | nil => rfl
  | cons c cs ih =>
    rw [List.flatMap_cons, ih, List.filter_cons]
    by_cases h : c.formatErrors = [] <;> simp [h]

theorem foldl_append (set : TagSet) (files : List (String × String)) :
    files.foldl (fun set f => set ++ ofContent f.1 f.2) set =
      set ++ ⟨files.flatMap fun f => (ofContent f.1 f.2).tags,
        files.flatMap fun f => (ofContent f.1 f.2).errors⟩ := by
  induction files generalizing set with
  | nil => simp [append_eq]
  | cons f files ih =>
    rw [List.foldl_cons, ih, append_assoc, append_eq (ofContent f.1 f.2)]
    rfl

/-- **Every candidate counts, and counts once.**  Conversion gives a tag exactly when validation
reports no error, and validation reports the faults of a candidate, each once and in order.  So a
text gives the tags of its candidates without errors and the errors of the others, each in the order
of the text, and several texts give what each of them gives, in order. -/
theorem every_candidate_counts :
    (∀ c : Candidate,
      (c.tag?.isSome = true ↔ c.formatErrors = []) ∧
      c.formatErrors = (FormatFault.all.filter fun f => c.Has f).map c.error) ∧
    (∀ path content : String,
      let cs := scan (normalizePath path) content
      ofContent path content = addText {} path content ∧
      (ofContent path content).tags.map some =
        (cs.filter fun c => c.formatErrors = []).map tag? ∧
      (ofContent path content).errors =
        (cs.filter fun c => c.formatErrors ≠ []).flatMap formatErrors) ∧
    ∀ files : List (String × String),
      ofContents files = files.foldl (fun set f => set.addText f.1 f.2) {} ∧
      ofContents files = ⟨files.flatMap fun f => (ofContent f.1 f.2).tags,
        files.flatMap fun f => (ofContent f.1 f.2).errors⟩ := by
  refine ⟨fun c => ⟨(formatErrors_eq_nil_iff c).symm, formatErrors_eq c⟩, fun path content => ?_,
    fun files => ?_⟩
  · exact ⟨(addText_eq {} path content).symm, map_tags_ofCandidates _, errors_ofCandidates _⟩
  · simp only [addText_eq]
    exact ⟨rfl, foldl_append ⟨[], []⟩ files⟩

end TagSet

end SpecLinkage
