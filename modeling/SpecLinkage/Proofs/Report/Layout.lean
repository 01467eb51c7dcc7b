import Mathlib.Data.List.Forall2
import SpecLinkage.Report.Render

/-! # How a report is laid out

What a template becomes when it is filled, and which characters stand in the figures of a report.

* `Template.untilClose?_eq_some_iff`: where the name of a placeholder ends.
* `Template.fillChars_literal`, `Template.fillChars_slot`: ordinary text stays as it is, and a known
  placeholder becomes its value.
* `Template.fill_join`: a template that is made of such pieces is filled piece by piece.
* `Template.mem_fillChars`: what stands in a filled template.
* `Template.Alike`, `Sections.Rel`: values that are put into one template side by side.
* `notMem_toString`, `notMem_percentText`: figures have digits, a point and a percent sign. -/

namespace SpecLinkage

namespace Template

open Text

variable {values : List (String × String)} {s t : List Char} {c : Char}

/-! ## Ordinary text -/

/-- Whether a text opens no placeholder, whatever stands behind it: a brace in it is followed by
another character. -/
def isLiteral : List Char → Bool
  | [] => true
  | c :: s => (c != '\x7b' || s.head?.any (· != '\x7b')) && isLiteral s

theorem fillChars_cons (h : c ≠ '\x7b') (s : List Char) :
    fillChars values (c :: s) = c :: fillChars values s := by
  cases s with
  | nil => simp [fillChars]
  | cons d s => rw [fillChars, if_neg fun hc => h hc.1]

theorem fillChars_brace {d : Char} (h : d ≠ '\x7b') (s : List Char) :
    fillChars values ('\x7b' :: d :: s) = '\x7b' :: fillChars values (d :: s) := by
  rw [fillChars, if_neg fun hc => h hc.2]

/-- Ordinary text is kept. -/
theorem fillChars_literal (h : isLiteral s = true) (t : List Char) :
    fillChars values (s ++ t) = s ++ fillChars values t := by
  induction s with
  | nil => rfl
  | cons c s ih =>
    rw [isLiteral, Bool.and_eq_true, Bool.or_eq_true, bne_iff_ne] at h
    obtain ⟨hc, hs⟩ := h
    by_cases hbrace : c = '\x7b'
    · subst hbrace
      cases s with
      | nil => simp at hc
      | cons d s =>
        have hd : d ≠ '\x7b' := by simpa using hc
        rw [List.cons_append, List.cons_append, fillChars_brace hd, ← List.cons_append, ih hs]
        rfl
    · rw [List.cons_append, fillChars_cons hbrace, ih hs]
      rfl

/-! ## Placeholders -/

/-- Whether the first double closing brace behind a text is the one that is put behind it. -/
def isClosed (s : List Char) : Bool := !occursIn ['\x7d', '\x7d'] (s ++ ['\x7d'])

theorem isClosed_cons : isClosed (c :: s) = true ↔
    ¬(c = '\x7d' ∧ (s ++ ['\x7d']).head? = some '\x7d') ∧ isClosed s = true := by
  rw [isClosed, isClosed, List.cons_append, occursIn, Bool.not_or, Bool.and_eq_true,
    Bool.not_eq_true', Bool.eq_false_iff, ne_eq, startsWith_iff]
  refine and_congr_left' (not_congr ?_)
  cases hs : s ++ ['\x7d'] with
  | nil => simp at hs
  | cons d r => simp

theorem isClosed_of_notMem (h : '\x7d' ∉ s) : isClosed s = true := by
  induction s with
  | nil => decide
  | cons c s ih =>
    rw [List.mem_cons, not_or] at h
    exact isClosed_cons.2 ⟨fun hc => h.1 hc.1.symm, ih h.2⟩

/-- A placeholder ends at the first double closing brace. -/
theorem untilClose?_eq_some_iff {a b : List Char} :
    untilClose? s = some (a, b) ↔ s = a ++ '\x7d' :: '\x7d' :: b ∧ isClosed a = true := by
  fun_induction untilClose? s generalizing a b with
  | case1 => simp
  | case2 c =>
    constructor
    · intro h
      cases h
    · rintro ⟨h, -⟩
      have hlength := congrArg List.length h
      simp only [List.length_append, List.length_cons, List.length_nil] at hlength
      omega
  | case3 c d s h =>
    obtain ⟨rfl, rfl⟩ := h
    constructor
    · intro h
      cases h
      exact ⟨rfl, by decide⟩
    · rintro ⟨h, ha⟩
      cases a with
      | nil => simp_all
      | cons x a =>
        rw [List.cons_append, List.cons.injEq] at h
        obtain ⟨rfl, h⟩ := h
        refine absurd ⟨rfl, ?_⟩ (isClosed_cons.1 ha).1
        cases a with
        | nil => rfl
        | cons y a => rw [(List.cons.inj h).1]; rfl
  | case4 c d s h ih =>
    rw [Option.map_eq_some_iff]
    constructor
    · rintro ⟨⟨a', b'⟩, h', he⟩
      cases he
      obtain ⟨hs, ha⟩ := ih.1 h'
      refine ⟨by rw [hs, List.cons_append], isClosed_cons.2 ⟨?_, ha⟩⟩
      rintro ⟨rfl, hhead⟩
      refine h ⟨rfl, ?_⟩
      cases a' <;> simp_all
    · rintro ⟨hs, ha⟩
      cases a with
      | nil => simp_all
      | cons x a =>
        rw [List.cons_append, List.cons.injEq] at hs
        obtain ⟨rfl, hs⟩ := hs
        exact ⟨(a, b), ih.2 ⟨hs, (isClosed_cons.1 ha).2⟩, rfl⟩

/-- A name that can be looked up as it is written. -/
def isName (name : String) : Bool := !name.toList.contains '\x7d' && trim name.toList == name.toList

theorem fillChars_of_some {v : String} {rest : List Char}
    (h : placeholder? values s = some (v, rest)) :
    fillChars values ('\x7b' :: '\x7b' :: s) = v.toList ++ fillChars values rest := by
  rw [fillChars, if_pos ⟨rfl, rfl⟩]
  split
  · next heq =>
    rw [h] at heq
    cases heq
    rfl
  · next heq =>
    rw [h] at heq
    cases heq

theorem fillChars_of_none (h : placeholder? values s = none) :
    fillChars values ('\x7b' :: '\x7b' :: s) = '\x7b' :: '\x7b' :: fillChars values s := by
  rw [fillChars, if_pos ⟨rfl, rfl⟩]
  split
  · next heq =>
    rw [h] at heq
    cases heq
  · rfl

/-- A known placeholder becomes its value, which is not looked at again. -/
theorem fillChars_closed {v : String × String} (hs : isClosed s = true)
    (h : (values.find? fun v => v.1 == String.ofList (trim s)) = some v) (t : List Char) :
    fillChars values ('\x7b' :: '\x7b' :: (s ++ '\x7d' :: '\x7d' :: t)) =
      v.2.toList ++ fillChars values t := by
  have hread : placeholder? values (s ++ '\x7d' :: '\x7d' :: t) = some (v.2, t) := by
    rw [placeholder?, untilClose?_eq_some_iff.2 ⟨rfl, hs⟩]
    simp only [h, Option.map_some]
  rw [fillChars_of_some hread]

theorem fillChars_slot {name : String} {v : String × String} (hname : isName name = true)
    (h : (values.find? fun v => v.1 == name) = some v) (t : List Char) :
    fillChars values ((slot name).toList ++ t) = v.2.toList ++ fillChars values t := by
  rw [isName, Bool.and_eq_true, beq_iff_eq] at hname
  obtain ⟨hclose, htrim⟩ := hname
  have hopen : (slot name).toList ++ t =
      '\x7b' :: '\x7b' :: (name.toList ++ '\x7d' :: '\x7d' :: t) := by
    simp [slot]
  rw [hopen, fillChars_closed (isClosed_of_notMem (by simpa using hclose))
    (by rw [htrim, String.ofList_toList, h])]

/-! ## Templates in pieces -/

/-- A piece of a template. -/
inductive Part
  | literal (s : String)
  | slot (name : String)

namespace Part

/-- The piece as written. -/
def text : Part → String
  | literal s => s
  | slot name => Template.slot name

/-- What becomes of the piece. -/
def value (values : List (String × String)) : Part → String
  | literal s => s
  | slot name => ((values.find? fun v => v.1 == name).map Prod.snd).getD ""

/-- Whether a piece is read as what it is, if `names` are the known names. -/
def isRead (names : List String) : Part → Bool
  | literal s => isLiteral s.toList
  | slot name => isName name && names.contains name

theorem fillChars_text {p : Part} (h : p.isRead (values.map Prod.fst) = true) (t : List Char) :
    fillChars values (p.text.toList ++ t) = (p.value values).toList ++ fillChars values t := by
  cases p with
  | literal s => exact fillChars_literal h t
  | slot name =>
    rw [isRead, Bool.and_eq_true, List.contains_iff_mem] at h
    obtain ⟨v, hv, hname⟩ := List.mem_map.1 h.2
    have hsome : (values.find? fun v => v.1 == name).isSome = true :=
      List.find?_isSome.2 ⟨v, hv, beq_iff_eq.2 hname⟩
    obtain ⟨v', hv'⟩ := Option.isSome_iff_exists.1 hsome
    rw [text, fillChars_slot h.1 hv', value, hv', Option.map_some, Option.getD_some]

end Part

/-- A template is filled piece by piece. -/
theorem fill_join {parts : List Part}
    (h : parts.all (Part.isRead (values.map Prod.fst)) = true) :
    fill values (String.join (parts.map Part.text)) =
      String.join (parts.map (Part.value values)) := by
  rw [fill, String.toList_join, List.flatMap_map, ← String.toList_inj, String.toList_ofList,
    String.toList_join, List.flatMap_map]
  induction parts with
  | nil => simp [fillChars]
  | cons p parts ih =>
    rw [List.all_cons, Bool.and_eq_true] at h
    rw [List.flatMap_cons, List.flatMap_cons, Part.fillChars_text h.1, ih h.2]

/-! ## What stands in a filled template -/

/-- A placeholder has one of the values, and what stands behind it is from the template. -/
theorem of_placeholder? {v : String} {rest : List Char}
    (h : placeholder? values s = some (v, rest)) : (∃ p ∈ values, p.2 = v) ∧ rest ⊆ s := by
  unfold placeholder? at h
  split at h
  · cases h
  · next hclose =>
    obtain ⟨p, hp, he⟩ := Option.map_eq_some_iff.1 h
    obtain ⟨rfl, rfl⟩ := Prod.mk.inj he
    refine ⟨⟨p, List.mem_of_find?_eq_some hp, rfl⟩, ?_⟩
    rw [(untilClose?_eq_some_iff.1 hclose).1]
    exact fun x hx => by simp [hx]

/-- Every character of a filled template is from the template or from a value. -/
theorem mem_fillChars (h : c ∈ fillChars values s) : c ∈ s ∨ ∃ v ∈ values, c ∈ v.2.toList := by
  fun_induction fillChars values s with
  | case1 => cases h
  | case2 => exact .inl h
  | case3 d e s _ v rest heq ih =>
    obtain ⟨⟨p, hp, rfl⟩, hrest⟩ := of_placeholder? heq
    rcases List.mem_append.1 h with h | h
    · exact .inr ⟨p, hp, h⟩
    · exact (ih h).imp (fun h => by simp [hrest h]) id
  | case4 d e s _ _ ih =>
    rw [List.mem_cons, List.mem_cons] at h
    rcases h with rfl | rfl | h
    · exact .inl (by simp)
    · exact .inl (by simp)
    · exact (ih h).imp (fun h => by simp [h]) id
  | case5 d e s _ ih =>
    rcases List.mem_cons.1 h with rfl | h
    · exact .inl List.mem_cons_self
    · exact (ih h).imp (fun h => List.mem_cons_of_mem d h) id

/-! ## Related values -/

/-- Values of the same names in the same order, related by `R`. -/
def Alike (R : String → String → Prop) (values values' : List (String × String)) : Prop :=
  List.Forall₂ (fun v v' => v.1 = v'.1 ∧ R v.2 v'.2) values values'

theorem Alike.names {R : String → String → Prop} {values' : List (String × String)}
    (h : Alike R values values') : values.map Prod.fst = values'.map Prod.fst := by
  induction h with
  | nil => rfl
  | cons hv _ ih => rw [List.map_cons, List.map_cons, hv.1, ih]

/-- A name has related values, or none on either side. -/
theorem Alike.find? {R : String → String → Prop} {values' : List (String × String)}
    (h : Alike R values values') (p : String → Bool) :
    ((values.find? fun v => p v.1) = none ∧ (values'.find? fun v => p v.1) = none) ∨
      ∃ v v', (values.find? fun v => p v.1) = some v ∧ (values'.find? fun v => p v.1) = some v' ∧
        R v.2 v'.2 := by
  induction h with
  | nil => exact .inl ⟨rfl, rfl⟩
  | @cons v v' _ _ hv _ ih =>
    rw [List.find?_cons, List.find?_cons, ← hv.1]
    cases hp : p v.1 with
    | true => exact .inr ⟨v, v', rfl, rfl, hv.2⟩
    | false => exact ih

/-- A placeholder is open on both sides or on none, and the same text stands behind it. -/
theorem Alike.placeholder? {R : String → String → Prop} {values' : List (String × String)}
    (h : Alike R values values') (s : List Char) :
    (placeholder? values s = none ∧ placeholder? values' s = none) ∨
      ∃ v v' rest, placeholder? values s = some (v, rest) ∧
        placeholder? values' s = some (v', rest) ∧ R v v' := by
  unfold Template.placeholder?
  cases untilClose? s with
  | none => exact .inl ⟨rfl, rfl⟩
  | some closed =>
    obtain ⟨name, rest⟩ := closed
    rcases h.find? (· == String.ofList (trim name)) with ⟨hv, hv'⟩ | ⟨v, v', hv, hv', hrel⟩
    · exact .inl ⟨by simp only [hv, Option.map_none], by simp only [hv', Option.map_none]⟩
    · exact .inr ⟨v.2, v'.2, rest, by simp only [hv, Option.map_some],
        by simp only [hv', Option.map_some], hrel⟩

end Template

/-- Sections that are related one by one. -/
structure Sections.Rel {α β : Type} (R : α → β → Prop) (s : Sections α) (s' : Sections β) :
    Prop where
  title : R s.title s'.title
  summary : R s.summary s'.summary
  matrix : R s.matrix s'.matrix
  missing : R s.missing s'.missing
  coverage : R s.coverage s'.coverage

theorem Sections.Rel.refl {α : Type} {R : α → α → Prop} (h : ∀ a, R a a) (s : Sections α) :
    s.Rel R s :=
  ⟨h _, h _, h _, h _, h _⟩

/-- Related sections are written to related values. -/
theorem Sections.Rel.alike {α β : Type} {P : α → β → Prop} {R : String → String → Prop}
    {f : α → String} {g : β → String} {s : Sections α} {s' : Sections β} (h : s.Rel P s')
    (hwrite : ∀ a b, P a b → R (f a) (g b)) :
    Template.Alike R (Report.placeholderValues (s.map f)) (Report.placeholderValues (s'.map g)) :=
  List.Forall₂.cons ⟨rfl, hwrite _ _ h.title⟩ <| .cons ⟨rfl, hwrite _ _ h.summary⟩ <|
    .cons ⟨rfl, hwrite _ _ h.matrix⟩ <| .cons ⟨rfl, hwrite _ _ h.missing⟩ <|
    .cons ⟨rfl, hwrite _ _ h.coverage⟩ .nil

/-! ## Figures -/

theorem toString_string (s : String) : toString s = s := rfl

theorem notMem_toString {c : Char} (h : c.isDigit = false) (n : Nat) : c ∉ (toString n).toList := by
  intro hc
  rw [Nat.toString_eq_repr, Nat.toList_repr] at hc
  rw [Nat.isDigit_of_mem_toDigits (by omega) (by omega) hc] at h
  cases h

theorem notMem_percentText {c : Char} (h : c.isDigit = false ∧ c ≠ '.' ∧ c ≠ '%') (x : Binary64) :
    c ∉ (percentText x).toList := by
  have hdigits : ∀ n, c ∉ Nat.toDigits 10 n := fun n hc => by
    rw [Nat.isDigit_of_mem_toDigits (by omega) (by omega) hc] at h
    cases h.1
  have hzero : c ≠ '0' := by
    rintro rfl
    revert h
    decide
  intro hc
  simp only [percentText, Binary64.fixedOne, Decimal.pointed, Decimal.padZeros,
    String.toList_append, String.toList_ofList, List.mem_append, List.mem_cons,
    List.mem_replicate] at hc
  rcases hc with (hc | rfl | ⟨-, rfl⟩ | hc) | hc
  · exact hdigits _ hc
  · exact h.2.1 rfl
  · exact hzero rfl
  · exact hdigits _ hc
  · exact h.2.2 (by simpa using hc)

end SpecLinkage
