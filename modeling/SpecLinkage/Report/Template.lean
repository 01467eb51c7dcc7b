import SpecLinkage.Text.Affix

/-! # Report templates

A template is a text with placeholders, a name in double braces with blanks around it
allowed.  `fill` goes through the template once: a known placeholder is replaced by its
value, which is not looked at again, and everything else is kept as it is written. -/

namespace SpecLinkage.Template

open Text

/-- The text before the first double closing brace, and the text behind it. -/
def untilClose? : List Char → Option (List Char × List Char)
  | [] => none
  | [_] => none
  | c :: d :: s =>
    if c = '\x7d' ∧ d = '\x7d' then some ([], s)
    else (untilClose? (d :: s)).map fun (a, b) => (c :: a, b)

theorem length_untilClose?_lt {s a b : List Char} (h : untilClose? s = some (a, b)) :
    b.length < s.length := by
  fun_induction untilClose? s generalizing a b with
  | case1 => cases h
  | case2 => cases h
  | case3 c d s hc =>
    obtain ⟨-, rfl⟩ := Prod.mk.inj (Option.some.inj h)
    simp only [List.length_cons]; omega
  | case4 c d s hc ih =>
    obtain ⟨⟨a', b'⟩, h', he⟩ := Option.map_eq_some_iff.1 h
    obtain ⟨-, rfl⟩ := Prod.mk.inj he
    have := ih h'
    simp only [List.length_cons] at this ⊢; omega

/-- The value of the placeholder that is open in front of the text, and the text behind
it. -/
def placeholder? (values : List (String × String)) (s : List Char) :
    Option (String × List Char) :=
  match untilClose? s with
  | none => none
  | some (name, rest) =>
    (values.find? fun v => v.1 == String.ofList (trim name)).map fun v => (v.2, rest)

theorem length_placeholder?_lt {values : List (String × String)} {s rest : List Char}
    {v : String} (h : placeholder? values s = some (v, rest)) : rest.length < s.length := by
  unfold placeholder? at h
  split at h
  · cases h
  · next hc =>
    obtain ⟨_, _, he⟩ := Option.map_eq_some_iff.1 h
    obtain ⟨-, rfl⟩ := Prod.mk.inj he
    exact length_untilClose?_lt hc

/-- Replace the known placeholders of a template by their values. -/
def fillChars (values : List (String × String)) (s : List Char) : List Char :=
  match s with
  | [] => []
  | [c] => [c]
  | c :: d :: s =>
    if c = '\x7b' ∧ d = '\x7b' then
      match _h : placeholder? values s with
      | some (value, rest) => value.toList ++ fillChars values rest
      | none => c :: d :: fillChars values s
    else c :: fillChars values (d :: s)
termination_by s.length
decreasing_by
  · have := length_placeholder?_lt _h
    simp only [List.length_cons]; omega
  · simp only [List.length_cons]; omega
  · simp only [List.length_cons]; omega

/-- Replace the known placeholders of a template by their values. -/
def fill (values : List (String × String)) (template : String) : String :=
  String.ofList (fillChars values template.toList)

/-- A placeholder. -/
def slot (name : String) : String := "\x7b\x7b" ++ name ++ "\x7d\x7d"

end SpecLinkage.Template
