import SpecLinkage.Proofs.Report.Layout

/-! # Colours of a terminal report

The report for a terminal is the report as text with graphic renditions put in, whatever the report
and the template are.  So deleting the control sequences gives the text back, if the text has none
of its own.

* `Ansi.afterSequence?` reads a control sequence: an escape, a bracket, parameters, intermediates
  and a final character.  `Ansi.deleteSequences` deletes all of them.
* `Ansi.Coloured s t`: `s` is `t` with graphic renditions put in.  `deleteSequences_of_coloured`
  goes back.
* `Report.coloured_render`: the two reports, in any template.
* `Report.isPlain_render`: what has to be free of escapes.
* `Report.terminal_deleteSequences` is the result. -/

namespace SpecLinkage

namespace Ansi

/-! ## Control sequences -/

/-- The escape character. -/
def esc : Char := '\x1b'

def isParameter (c : Char) : Bool := '0' ≤ c && c ≤ '?'

def isIntermediate (c : Char) : Bool := ' ' ≤ c && c ≤ '/'

def isFinal (c : Char) : Bool := '@' ≤ c && c ≤ '~'

/-- The text behind the control sequence that a text starts with. -/
def afterSequence? : List Char → Option (List Char)
  | [] => none
  | [_] => none
  | c :: d :: s =>
    if c = esc ∧ d = '[' then
      match (s.dropWhile isParameter).dropWhile isIntermediate with
      | [] => none
      | final :: rest => if isFinal final then some rest else none
    else none

theorem length_afterSequence?_lt {s rest : List Char} (h : afterSequence? s = some rest) :
    rest.length < s.length := by
  fun_cases afterSequence? s with
  | case1 => cases h
  | case2 => cases h
  | case3 c d s hc heq => simp [afterSequence?, hc, heq] at h
  | case4 c d s hc final rest' heq hfinal =>
    simp [afterSequence?, hc, heq, hfinal] at h
    subst h
    have hlength := congrArg List.length heq
    have hparameters := (List.dropWhile_suffix isParameter (l := s)).length_le
    have hintermediates :=
      (List.dropWhile_suffix isIntermediate (l := s.dropWhile isParameter)).length_le
    simp only [List.length_cons] at hlength ⊢
    omega
  | case5 c d s hc final rest' heq hfinal => simp [afterSequence?, hc, heq, hfinal] at h
  | case6 c d s hc => simp [afterSequence?, hc] at h

/-- Delete the control sequences of a text. -/
def deleteSequences : List Char → List Char
  | [] => []
  | c :: s =>
    match _h : afterSequence? (c :: s) with
    | some rest => deleteSequences rest
    | none => c :: deleteSequences s
termination_by s => s.length
decreasing_by
  · exact length_afterSequence?_lt _h
  · exact Nat.lt_succ_self _

theorem deleteSequences_of_some {s rest : List Char} (h : afterSequence? s = some rest) :
    deleteSequences s = deleteSequences rest := by
  cases s with
  | nil => cases h
  | cons c s =>
    rw [deleteSequences]
    split
    · next heq =>
      rw [h] at heq
      cases heq
      rfl
    · next heq =>
      rw [h] at heq
      cases heq

theorem afterSequence?_of_ne {c : Char} (h : c ≠ esc) (s : List Char) :
    afterSequence? (c :: s) = none := by
  cases s with
  | nil => rfl
  | cons d s => rw [afterSequence?, if_neg fun hc => h hc.1]

theorem deleteSequences_cons {c : Char} (h : c ≠ esc) (s : List Char) :
    deleteSequences (c :: s) = c :: deleteSequences s := by
  rw [deleteSequences]
  split
  · next heq =>
    rw [afterSequence?_of_ne h] at heq
    cases heq
  · rfl

/-- A graphic rendition is one control sequence. -/
theorem afterSequence?_graphicRendition {code : String}
    (h : code.toList.all isParameter = true) (s : List Char) :
    afterSequence? ((graphicRendition code).toList ++ s) = some s := by
  have hwritten : (graphicRendition code).toList ++ s = esc :: '[' :: (code.toList ++ 'm' :: s) := by
    simp [graphicRendition, esc]
  have hparameters : (code.toList ++ 'm' :: s).dropWhile isParameter = 'm' :: s := by
    rw [List.dropWhile_append_of_pos (List.all_eq_true.1 h)]
    rfl
  have hintermediates : ('m' :: s).dropWhile isIntermediate = 'm' :: s := rfl
  rw [hwritten, afterSequence?, if_pos ⟨rfl, rfl⟩, hparameters, hintermediates]
  rfl

/-! ## Coloured text -/

/-- A text with graphic renditions put in. -/
inductive Coloured : List Char → List Char → Prop
  | nil : Coloured [] []
  | char (c : Char) {s t : List Char} (h : Coloured s t) : Coloured (c :: s) (c :: t)
  | rendition {code : String} (hcode : code.toList.all isParameter = true) {s t : List Char}
      (h : Coloured s t) : Coloured ((graphicRendition code).toList ++ s) t

theorem Coloured.refl (s : List Char) : Coloured s s := by
  induction s with
  | nil => exact .nil
  | cons c s ih => exact .char c ih

theorem Coloured.append {s s' t t' : List Char} (h : Coloured s t) (h' : Coloured s' t') :
    Coloured (s ++ s') (t ++ t') := by
  induction h with
  | nil => exact h'
  | char c _ ih => exact .char c ih
  | rendition hcode _ ih =>
    rw [List.append_assoc]
    exact .rendition hcode ih

theorem Coloured.renditions {codes : List String}
    (h : ∀ code ∈ codes, code.toList.all isParameter = true) {s t : List Char}
    (hst : Coloured s t) :
    Coloured ((String.join (codes.map graphicRendition)).toList ++ s) t := by
  induction codes with
  | nil => simpa using hst
  | cons code codes ih =>
    rw [List.map_cons, String.join_cons, String.toList_append, List.append_assoc]
    exact .rendition (h code List.mem_cons_self)
      (ih fun code' hcode' => h code' (List.mem_cons_of_mem code hcode'))

/-- Deleting the control sequences gives the text back. -/
theorem deleteSequences_of_coloured {s t : List Char} (h : Coloured s t) (hesc : esc ∉ t) :
    deleteSequences s = t := by
  induction h with
  | nil => rw [deleteSequences]
  | char c _ ih =>
    rw [List.mem_cons, not_or] at hesc
    rw [deleteSequences_cons (Ne.symm hesc.1), ih hesc.2]
  | rendition hcode _ ih =>
    rw [deleteSequences_of_some (afterSequence?_graphicRendition hcode _), ih hesc]

/-! ## Text without escapes -/

/-- A text without escape characters. -/
def IsPlain (s : String) : Prop := esc ∉ s.toList

instance : DecidablePred IsPlain := fun s => inferInstanceAs (Decidable (esc ∉ s.toList))

@[simp]
theorem isPlain_append {s t : String} : IsPlain (s ++ t) ↔ IsPlain s ∧ IsPlain t := by
  simp [IsPlain, not_or]

@[simp]
theorem isPlain_toString (n : Nat) : IsPlain (toString n) := notMem_toString (by decide) n

@[simp]
theorem isPlain_percentText (x : Binary64) : IsPlain (percentText x) :=
  notMem_percentText (by decide) x

@[simp]
theorem isPlain_category (c : Category) : IsPlain c.text := by
  unfold IsPlain
  cases c <;> decide +kernel

@[simp]
theorem isPlain_group (g : CategoryGroup) : IsPlain g.text := by
  unfold IsPlain
  cases g <;> decide +kernel

@[simp]
theorem isPlain_padRight {n : Nat} {s : String} : IsPlain (padRight n s) ↔ IsPlain s := by
  simp [IsPlain, padRight, esc]

@[simp]
theorem isPlain_padLeft {n : Nat} {s : String} : IsPlain (padLeft n s) ↔ IsPlain s := by
  simp [IsPlain, padLeft, esc]

theorem isPlain_join {l : List String} (h : ∀ s ∈ l, IsPlain s) : IsPlain (String.join l) := by
  induction l with
  | nil => simp [IsPlain]
  | cons s l ih =>
    rw [String.join_cons, isPlain_append]
    exact ⟨h s List.mem_cons_self, ih fun t ht => h t (List.mem_cons_of_mem s ht)⟩

theorem isPlain_intercalate {sep : String} {l : List String} (hsep : IsPlain sep)
    (h : ∀ s ∈ l, IsPlain s) : IsPlain (sep.intercalate l) := by
  induction l with
  | nil => simp [IsPlain]
  | cons s l ih =>
    have hs := h s List.mem_cons_self
    have hl := ih fun t ht => h t (List.mem_cons_of_mem s ht)
    cases l with
    | nil => simpa using hs
    | cons t l =>
      rw [String.intercalate_cons_cons, isPlain_append, isPlain_append]
      exact ⟨⟨hs, hsep⟩, hl⟩

end Ansi

open Ansi

/-! ## Pieces of a terminal text -/

namespace Styled

/-- A painted piece is its text with graphic renditions around it. -/
theorem coloured_paint (p : Styled) : Coloured p.paint.toList p.text.toList := by
  have hopeners : ∀ style : Style, ∀ code ∈ style.openers, code.toList.all isParameter = true := by
    intro style
    cases style <;> decide +kernel
  have hclosers : ∀ style : Style, ∀ code ∈ style.closers, code.toList.all isParameter = true := by
    intro style
    cases style <;> decide +kernel
  obtain ⟨style, text⟩ := p
  cases style with
  | none => exact .refl _
  | some style =>
    have hclosed := (Coloured.refl text.toList).append (Coloured.renditions (hclosers style) .nil)
    rw [List.append_nil, List.append_nil] at hclosed
    rw [paint, String.toList_append, String.toList_append, List.append_assoc]
    exact Coloured.renditions (hopeners style) hclosed

theorem coloured_ansi (l : List Styled) : Coloured (ansi l).toList (plain l).toList := by
  induction l with
  | nil => exact .refl _
  | cons p l ih =>
    rw [ansi, plain, List.map_cons, List.map_cons, String.join_cons, String.join_cons,
      String.toList_append, String.toList_append]
    exact (coloured_paint p).append ih

end Styled

/-- A template with coloured values is the template with the plain ones, coloured. -/
theorem Template.coloured_fillChars {values values' : List (String × String)}
    (h : Alike (fun v v' => Coloured v.toList v'.toList) values values') (s : List Char) :
    Coloured (fillChars values s) (fillChars values' s) := by
  -- both sides read the same template, so they see the same placeholders
  fun_induction fillChars values s with
  | case1 => rw [fillChars]; exact .nil
  | case2 c => rw [fillChars]; exact .refl _
  | case3 c d s hopen v rest hread ih =>
    obtain ⟨rfl, rfl⟩ := hopen
    rcases h.placeholder? s with ⟨hv, -⟩ | ⟨v₁, v₂, rest', hv, hv', hcoloured⟩
    · rw [hread] at hv
      cases hv
    · rw [hread] at hv
      cases hv
      rw [fillChars_of_some hv']
      exact hcoloured.append ih
  | case4 c d s hopen hread ih =>
    obtain ⟨rfl, rfl⟩ := hopen
    rcases h.placeholder? s with ⟨-, hv'⟩ | ⟨v₁, v₂, rest', hv, -, -⟩
    · rw [fillChars_of_none hv']
      exact .char _ (.char _ ih)
    · rw [hread] at hv
      cases hv
  | case5 c d s hopen ih =>
    rw [fillChars, if_neg hopen]
    exact .char c ih

namespace Report

/-- The report for a terminal is the report as text, coloured. -/
theorem coloured_render (r : Report) (template : Option String) :
    Coloured (r.render .terminal template).toList (r.render .text template).toList := by
  have hvalues : Template.Alike (fun v v' => Coloured v.toList v'.toList)
      (placeholderValues (r.sections .terminal)) (placeholderValues (r.sections .text)) :=
    (Sections.Rel.refl (R := Eq) (fun _ => rfl) (textSections r)).alike fun l l' hl => by
      subst hl
      exact Styled.coloured_ansi l
  have hlayout : layout? .terminal r.isEmpty = layout? .text r.isEmpty := rfl
  rw [render, render, hlayout]
  cases template <|> layout? .text r.isEmpty with
  | none => exact .refl _
  | some template =>
    simp only [Template.fill, String.toList_ofList]
    exact Template.coloured_fillChars hvalues template.toList

/-! ## Plain reports -/

/-- A report whose texts have no escape characters. -/
structure IsPlain (r : Report) : Prop where
  title : Ansi.IsPlain r.title
  ids : ∀ c ∈ Category.primaryChain, ∀ id ∈ r.matrix.stage c, Ansi.IsPlain id
  missing : ∀ m ∈ r.missing,
    Ansi.IsPlain m.chainKey ∧ Ansi.IsPlain m.before ∧ Ansi.IsPlain m.after
  incomplete : ∀ key ∈ r.coverage.incompleteChains, Ansi.IsPlain key

variable {r : Report}

theorem isPlain_textSummary (r : Report) : ∀ p ∈ textSummary r, Ansi.IsPlain p.text := by
  intro p hp
  simp only [textSummary, Styled.styled, Styled.raw, percentPiece, List.mem_append,
    List.mem_flatMap, List.mem_singleton] at hp
  rcases hp with (rfl | rfl) | ⟨⟨g, stats⟩, -, (((rfl | rfl) | rfl) | rfl) | rfl⟩
  · simp [Ansi.IsPlain, Ansi.esc]
  · simp only [toString_string, isPlain_append, isPlain_toString, and_true]
    simp [Ansi.IsPlain, Ansi.esc]
  · simp [Ansi.IsPlain, Ansi.esc]
  · exact isPlain_padRight.2 (isPlain_group g)
  · simp only [isPlain_append, isPlain_padLeft, isPlain_toString, and_true]
    simp [Ansi.IsPlain, Ansi.esc]
  · exact isPlain_percentText _
  · simp [Ansi.IsPlain, Ansi.esc]

theorem isPlain_textMatrix (h : r.IsPlain) : ∀ p ∈ textMatrix r, Ansi.IsPlain p.text := by
  intro p hp
  simp only [textMatrix, stages, Styled.styled, Styled.raw, List.mem_append, List.mem_flatMap,
    List.mem_map, List.mem_singleton] at hp
  rcases hp with rfl | ⟨_, ⟨c, hc, rfl⟩, rfl | hp⟩
  · simp [Ansi.IsPlain, Ansi.esc]
  · simp only [isPlain_append, isPlain_padRight, isPlain_category, and_true]
    simp [Ansi.IsPlain, Ansi.esc]
  · split at hp
    · obtain rfl := List.mem_singleton.1 hp
      simp [Ansi.IsPlain, Ansi.esc]
    · obtain rfl := List.mem_singleton.1 hp
      exact isPlain_intercalate (by simp [Ansi.IsPlain, Ansi.esc]) (h.ids c hc)

theorem isPlain_textMissing (h : r.IsPlain) : ∀ p ∈ textMissing r, Ansi.IsPlain p.text := by
  intro p hp
  unfold textMissing at hp
  split at hp
  · obtain rfl := List.mem_singleton.1 hp
    simp [Ansi.IsPlain, Ansi.esc]
  · simp only [Styled.styled, Styled.raw, List.mem_append, List.mem_flatMap,
      List.mem_singleton] at hp
    rcases hp with (rfl | rfl) | ⟨m, hm, (rfl | rfl) | rfl⟩
    · simp [Ansi.IsPlain, Ansi.esc]
    · simp only [toString_string, isPlain_append, isPlain_toString, and_true]
      simp [Ansi.IsPlain, Ansi.esc]
    · simp only [toString_string, isPlain_append, (h.missing m hm).1, and_true]
      simp [Ansi.IsPlain, Ansi.esc]
    · exact isPlain_category m.category
    · simp only [toString_string, isPlain_append, (h.missing m hm).2, and_true]
      simp [Ansi.IsPlain, Ansi.esc]

theorem isPlain_textCoverage (h : r.IsPlain) : ∀ p ∈ textCoverage r, Ansi.IsPlain p.text := by
  intro p hp
  simp only [textCoverage, Styled.styled, Styled.raw, percentPiece, List.mem_append,
    List.mem_flatMap, List.mem_singleton] at hp
  rcases hp with (((((rfl | rfl) | rfl) | rfl) | ⟨⟨c, s⟩, -, (rfl | rfl) | rfl⟩)) | hp
  · simp [Ansi.IsPlain, Ansi.esc]
  · simp [Ansi.IsPlain, Ansi.esc]
  · exact isPlain_percentText _
  · simp only [toString_string, isPlain_append, isPlain_toString, and_true]
    simp [Ansi.IsPlain, Ansi.esc]
  · simp only [isPlain_append, isPlain_padRight, isPlain_category, and_true]
    simp [Ansi.IsPlain, Ansi.esc]
  · exact isPlain_percentText _
  · simp only [toString_string, isPlain_append, isPlain_toString, and_true]
    simp [Ansi.IsPlain, Ansi.esc]
  · split at hp
    · cases hp
    · rcases List.mem_append.1 hp with hp | hp
      · obtain rfl := List.mem_singleton.1 hp
        simp [Ansi.IsPlain, Ansi.esc]
      · obtain rfl := List.mem_singleton.1 hp
        exact isPlain_intercalate (by simp [Ansi.IsPlain, Ansi.esc]) h.incomplete

theorem isPlain_values (h : r.IsPlain) :
    ∀ v ∈ placeholderValues (r.sections .text), Ansi.IsPlain v.2 := by
  have hplain : ∀ l : List Styled, (∀ p ∈ l, Ansi.IsPlain p.text) →
      Ansi.IsPlain (Styled.plain l) := by
    intro l hl
    refine isPlain_join fun s hs => ?_
    obtain ⟨p, hp, rfl⟩ := List.mem_map.1 hs
    exact hl p hp
  have htitle : ∀ p ∈ Styled.styled .title r.title, Ansi.IsPlain p.text := by
    intro p hp
    obtain rfl := List.mem_singleton.1 hp
    exact h.title
  have hmessage : ∀ p ∈ Styled.raw emptyMessage, Ansi.IsPlain p.text := by decide +kernel
  have hsections : (textSections r).Rel (fun l _ => ∀ p ∈ l, Ansi.IsPlain p.text)
      (textSections r) := by
    unfold textSections
    split
    · exact ⟨htitle, hmessage, by simp, by simp, by simp⟩
    · exact ⟨htitle, isPlain_textSummary r, isPlain_textMatrix h, isPlain_textMissing h,
        isPlain_textCoverage h⟩
  have hvalues : Template.Alike (fun s _ => Ansi.IsPlain s) (placeholderValues (r.sections .text))
      (placeholderValues (r.sections .text)) :=
    hsections.alike fun l _ => hplain l
  exact fun v hv => (List.forall₂_same.1 hvalues v hv).2

/-- A plain report as text in a plain template has no escapes. -/
theorem isPlain_render (h : r.IsPlain) {template : Option String}
    (htemplate : ∀ t ∈ template, Ansi.IsPlain t) : Ansi.IsPlain (r.render .text template) := by
  have hfill : ∀ t, Ansi.IsPlain t →
      Ansi.IsPlain (Template.fill (placeholderValues (r.sections .text)) t) := by
    intro t ht hmem
    rw [Template.fill, String.toList_ofList] at hmem
    rcases Template.mem_fillChars hmem with hmem | ⟨v, hv, hmem⟩
    · exact ht hmem
    · exact isPlain_values h v hv hmem
  cases template with
  | some t => exact hfill t (htemplate t rfl)
  | none =>
    refine hfill (textTemplate r.isEmpty) ?_
    cases r.isEmpty <;> decide +kernel

/-! ## Result -/

/-- The report for a terminal is the report as text with graphic renditions put in, in any template;
deleting the control sequences gives the report as text, if no text and no template has an escape
character. -/
theorem terminal_deleteSequences (r : Report) (template : Option String) :
    Coloured (r.render .terminal template).toList (r.render .text template).toList ∧
      (r.IsPlain → (∀ t ∈ template, Ansi.IsPlain t) →
        String.ofList (deleteSequences (r.render .terminal template).toList) =
          r.render .text template) := by
  refine ⟨coloured_render r template, fun hr ht => ?_⟩
  rw [deleteSequences_of_coloured (coloured_render r template) (isPlain_render hr ht),
    String.ofList_toList]

/-- A chain with gaps, in a template of the caller. -/
theorem terminal_deleteSequences_gaps :
    (ofLinks [⟨.req, "REQ-A-1"⟩, ⟨.test, "TEST-A-1"⟩] "Gaps").IsPlain ∧
      Ansi.IsPlain "* \x7b\x7b title \x7d\x7d *\n\x7b\x7bmissing\x7d\x7d" ∧
      String.ofList (deleteSequences ((ofLinks [⟨.req, "REQ-A-1"⟩, ⟨.test, "TEST-A-1"⟩]
          "Gaps").render .terminal
            (some "* \x7b\x7b title \x7d\x7d *\n\x7b\x7bmissing\x7d\x7d")).toList) =
        (ofLinks [⟨.req, "REQ-A-1"⟩, ⟨.test, "TEST-A-1"⟩] "Gaps").render .text
          (some "* \x7b\x7b title \x7d\x7d *\n\x7b\x7bmissing\x7d\x7d") := by
  have hplain : (ofLinks [⟨.req, "REQ-A-1"⟩, ⟨.test, "TEST-A-1"⟩] "Gaps").IsPlain := by
    constructor <;> decide +kernel
  have htemplate : Ansi.IsPlain "* \x7b\x7b title \x7d\x7d *\n\x7b\x7bmissing\x7d\x7d" := by
    decide +kernel
  refine ⟨hplain, htemplate, (terminal_deleteSequences _ _).2 hplain fun t ht => ?_⟩
  obtain rfl := Option.some.inj ht
  exact htemplate

end Report

end SpecLinkage
