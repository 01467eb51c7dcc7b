import SpecLinkage.Proofs.Text.Words
import SpecLinkage.Proofs.Report.Layout

/-! # How a template is read

A template is gone through once from left to right.  Where its placeholders are depends on the
known names alone and never on the values, so that what stands in a value is never taken for a
placeholder.

* `Template.Reading`: a template in pieces, ordinary text with placeholders between it.
* `Template.text_read`, `Template.fillChars_assign`: the pieces make up the template, and their
  values the filled template.
* `Template.Reading.ext`: two readings of a template that are filled alike are the same.
* `Template.existsUnique_reads`: a template has exactly one reading.
* `Template.fill_behind_text`: a placeholder behind ordinary text is filled, unless a brace stands
  directly before it. -/

namespace SpecLinkage

namespace Template

open Text

variable {names : List String} {values : List (String × String)} {s t : List Char}

/-! ## Placeholders as they are written -/

/-- A placeholder: what stands between its braces, with no double closing brace before its own. -/
structure Placeholder where
  body : List Char
  closed : isClosed body = true

namespace Placeholder

/-- The name, without the blanks around it. -/
def name (p : Placeholder) : String := String.ofList (trim p.body)

/-- The placeholder as written. -/
def text (p : Placeholder) : List Char := '\x7b' :: '\x7b' :: (p.body ++ ['\x7d', '\x7d'])

theorem text_append (p : Placeholder) (t : List Char) :
    p.text ++ t = '\x7b' :: '\x7b' :: (p.body ++ '\x7d' :: '\x7d' :: t) := by
  rw [text, List.cons_append, List.cons_append, List.append_assoc]
  rfl

/-- A placeholder is its name between double braces, with blanks around it. -/
theorem exists_blanks (p : Placeholder) : ∃ before after : String,
    String.ofList p.text = slot (before ++ p.name ++ after) ∧
      before.toList.all isBlank = true ∧ after.toList.all isBlank = true := by
  obtain ⟨before, after, hbody, hbefore, hafter⟩ := exists_eq_trim p.body
  refine ⟨String.ofList before, String.ofList after, ?_, ?_, ?_⟩
  · rw [← String.toList_inj, text, hbody]
    simp [slot, name]
  · rw [String.toList_ofList]
    exact List.all_eq_true.2 hbefore
  · rw [String.toList_ofList]
    exact List.all_eq_true.2 hafter

end Placeholder

/-- The placeholder that is open in front of a text, and what stands behind it. -/
def open? (s : List Char) : Option (Placeholder × List Char) :=
  match h : untilClose? s with
  | none => none
  | some (body, rest) => some (⟨body, (untilClose?_eq_some_iff.1 h).2⟩, rest)

theorem untilClose?_eq (s : List Char) :
    untilClose? s = (open? s).map fun o => (o.1.body, o.2) := by
  unfold open?
  split <;> assumption

theorem open?_eq_some_iff {p : Placeholder} :
    open? s = some (p, t) ↔ s = p.body ++ '\x7d' :: '\x7d' :: t := by
  have hbody : open? s = some (p, t) ↔ untilClose? s = some (p.body, t) := by
    rw [untilClose?_eq, Option.map_eq_some_iff]
    constructor
    · intro h
      exact ⟨(p, t), h, rfl⟩
    · rintro ⟨⟨⟨_, _⟩, _⟩, h, he⟩
      cases he
      exact h
  rw [hbody, untilClose?_eq_some_iff, and_iff_left p.closed]

theorem placeholder?_eq (values : List (String × String)) (s : List Char) :
    placeholder? values s = (open? s).bind fun o =>
      (values.find? fun v => v.1 == o.1.name).map fun v => (v.2, o.2) := by
  rw [placeholder?, untilClose?_eq]
  cases open? s <;> rfl

/-- The placeholder that is open in front of a text, if its name is known. -/
def opened? (names : List String) (s : List Char) : Option (Placeholder × List Char) :=
  (open? s).filter fun o => names.contains o.1.name

theorem opened?_eq_some_iff {p : Placeholder} :
    opened? names s = some (p, t) ↔ s = p.body ++ '\x7d' :: '\x7d' :: t ∧ p.name ∈ names := by
  rw [opened?, Option.filter_eq_some_iff, open?_eq_some_iff, List.contains_iff_mem]

theorem length_opened?_lt {p : Placeholder} (h : opened? names s = some (p, t)) :
    t.length < s.length := by
  rw [(opened?_eq_some_iff.1 h).1, List.length_append, List.length_cons, List.length_cons]
  omega

/-! ## Readings -/

/-- A template in pieces: ordinary text with placeholders between it. -/
inductive Reading
  | last (literal : List Char)
  | slot (literal : List Char) (p : Placeholder) (rest : Reading)

namespace Reading

/-- The template. -/
def text : Reading → List Char
  | last l => l
  | slot l p rest => l ++ (p.text ++ rest.text)

/-- The template with a value in the place of each placeholder. -/
def fillWith (value : String → String) : Reading → List Char
  | last l => l
  | slot l p rest => l ++ ((value p.name).toList ++ rest.fillWith value)

def placeholders : Reading → List Placeholder
  | last _ => []
  | slot _ p rest => p :: rest.placeholders

/-- The ordinary text, from one placeholder to the next. -/
def literals : Reading → List (List Char)
  | last l => [l]
  | slot l _ rest => l :: rest.literals

/-- Put ordinary text in front. -/
def behind (s : List Char) : Reading → Reading
  | last l => last (s ++ l)
  | slot l p rest => slot (s ++ l) p rest

@[simp] theorem text_behind (s : List Char) (r : Reading) : (r.behind s).text = s ++ r.text := by
  cases r with
  | last => rfl
  | slot => exact List.append_assoc _ _ _

@[simp] theorem fillWith_behind (value : String → String) (s : List Char) (r : Reading) :
    (r.behind s).fillWith value = s ++ r.fillWith value := by
  cases r with
  | last => rfl
  | slot => exact List.append_assoc _ _ _

@[simp] theorem placeholders_behind (s : List Char) (r : Reading) :
    (r.behind s).placeholders = r.placeholders := by
  cases r <;> rfl

/-- Text in front belongs to the first piece. -/
theorem exists_of_mem_literals_behind {l : List Char} {r : Reading}
    (h : l ∈ (r.behind s).literals) :
    l ∈ r.literals ∨ ∃ l' t, l = s ++ l' ∧ r.text = l' ++ t ∧ l' ∈ r.literals := by
  cases r with
  | last l' =>
    rw [behind, literals, List.mem_singleton] at h
    exact .inr ⟨l', [], h, (List.append_nil l').symm, List.mem_singleton_self l'⟩
  | slot l' p rest =>
    rcases List.mem_cons.1 h with h | h
    · exact .inr ⟨l', p.text ++ rest.text, h, rfl, List.mem_cons_self⟩
    · exact .inl (List.mem_cons_of_mem l' h)

theorem fillWith_of_no_placeholders {r : Reading} (h : r.placeholders = [])
    (value : String → String) : r.fillWith value = r.text := by
  cases r with
  | last => rfl
  | slot => cases h

end Reading

/-- Read a template from left to right, if the names are known. -/
def read (names : List String) (s : List Char) : Reading :=
  match s with
  | [] => .last []
  | [c] => .last [c]
  | c :: d :: s =>
    if c = '\x7b' ∧ d = '\x7b' then
      match _h : opened? names s with
      | some (p, rest) => .slot [] p (read names rest)
      | none => (read names s).behind [c, d]
    else (read names (d :: s)).behind [c]
termination_by s.length
decreasing_by
  · have := length_opened?_lt _h
    simp only [List.length_cons]; omega
  · simp only [List.length_cons]; omega
  · simp only [List.length_cons]; omega

/-- The pieces make up the template. -/
theorem text_read (names : List String) (s : List Char) : (read names s).text = s := by
  fun_induction read names s with
  | case1 => rfl
  | case2 => rfl
  | case3 c d s hbrace p rest hopen ih =>
    obtain ⟨rfl, rfl⟩ := hbrace
    rw [Reading.text, List.nil_append, ih, Placeholder.text_append,
      ← (opened?_eq_some_iff.1 hopen).1]
  | case4 c d s _ _ ih => rw [Reading.text_behind, ih]; rfl
  | case5 c d s _ ih => rw [Reading.text_behind, ih]; rfl

theorem name_mem_of_mem_read {p : Placeholder} (h : p ∈ (read names s).placeholders) :
    p.name ∈ names := by
  fun_induction read names s with
  | case1 => cases h
  | case2 => cases h
  | case3 c d s _ p' rest hopen ih =>
    rcases List.mem_cons.1 h with rfl | h
    · exact (opened?_eq_some_iff.1 hopen).2
    · exact ih h
  | case4 c d s _ _ ih => exact ih (by simpa using h)
  | case5 c d s _ ih => exact ih (by simpa using h)

/-- A placeholder of a known name stands in ordinary text only directly behind a brace. -/
theorem endsWith_of_mem_literals {l a b : List Char} {p : Placeholder} (hname : p.name ∈ names)
    (h : l ∈ (read names s).literals) (hl : l = a ++ (p.text ++ b)) :
    endsWith ['\x7b'] a = true := by
  rw [Placeholder.text_append] at hl
  fun_induction read names s generalizing l a with
  | case1 =>
    rw [Reading.literals, List.mem_singleton] at h
    simp [h] at hl
  | case2 c =>
    rw [Reading.literals, List.mem_singleton] at h
    have hlength := congrArg List.length (h.symm.trans hl)
    simp only [List.length_append, List.length_cons, List.length_nil] at hlength
    omega
  | case3 c d s _ p' rest _ ih =>
    rcases List.mem_cons.1 h with rfl | h
    · simp at hl
    · exact ih h hl
  | case4 c d s hbrace hopen ih =>
    obtain ⟨rfl, rfl⟩ := hbrace
    rcases Reading.exists_of_mem_literals_behind h with h | ⟨l', t, rfl, htext, hl'⟩
    · exact ih h hl
    · rw [text_read] at htext
      rcases a with _ | ⟨x, _ | ⟨y, a⟩⟩
      · -- the scan would have read the placeholder here
        have hl : l' = p.body ++ '\x7d' :: '\x7d' :: b := (List.cons.inj (List.cons.inj hl).2).2
        have hs : s = p.body ++ '\x7d' :: '\x7d' :: (b ++ t) := by
          rw [htext, hl, List.append_assoc]
          rfl
        rw [opened?_eq_some_iff.2 ⟨hs, hname⟩] at hopen
        cases hopen
      · -- the scan has stepped over the first brace of the placeholder
        rw [← (List.cons.inj hl).1]
        decide
      · have ha := ih hl' (List.cons.inj (List.cons.inj hl).2).2
        exact endsWith_cons_of_endsWith (endsWith_cons_of_endsWith ha)
  | case5 c d s hbrace ih =>
    rcases Reading.exists_of_mem_literals_behind h with h | ⟨l', t, rfl, htext, hl'⟩
    · exact ih h hl
    · rw [text_read] at htext
      cases a with
      | nil =>
        obtain ⟨rfl, rfl⟩ := List.cons.inj hl
        exact absurd ⟨rfl, (List.cons.inj htext).1⟩ hbrace
      | cons x a => exact endsWith_cons_of_endsWith (ih hl' (List.cons.inj hl).2)

/-! ## Values by name -/

/-- The names of a list with their values. -/
def assign (names : List String) (value : String → String) : List (String × String) :=
  names.map fun n => (n, value n)

theorem find?_assign (names : List String) (value : String → String) (n : String) :
    ((assign names value).find? fun v => v.1 == n) =
      if n ∈ names then some (n, value n) else none := by
  induction names with
  | nil => rfl
  | cons m names ih =>
    rw [assign, List.map_cons, List.find?_cons]
    by_cases h : m = n
    · subst h
      simp
    · rw [beq_eq_false_iff_ne.2 h, ← assign, ih]
      simp [Ne.symm h]

theorem placeholder?_assign (names : List String) (value : String → String) (s : List Char) :
    placeholder? (assign names value) s =
      (opened? names s).map fun o => (value o.1.name, o.2) := by
  rw [placeholder?_eq, opened?]
  cases open? s with
  | none => rfl
  | some o =>
    rw [Option.bind_some, find?_assign, Option.filter_some]
    simp only [List.contains_iff_mem]
    split <;> rfl

/-- A template is filled as it is read. -/
theorem fillChars_assign (names : List String) (value : String → String) (s : List Char) :
    fillChars (assign names value) s = (read names s).fillWith value := by
  fun_induction read names s with
  | case1 => simp [fillChars, Reading.fillWith]
  | case2 => simp [fillChars, Reading.fillWith]
  | case3 c d s hbrace p rest hopen ih =>
    obtain ⟨rfl, rfl⟩ := hbrace
    rw [fillChars_of_some (by rw [placeholder?_assign, hopen]; rfl), ih]
    rfl
  | case4 c d s hbrace hopen ih =>
    obtain ⟨rfl, rfl⟩ := hbrace
    rw [fillChars_of_none (by rw [placeholder?_assign, hopen]; rfl), ih, Reading.fillWith_behind]
    rfl
  | case5 c d s hbrace ih =>
    rw [fillChars, if_neg hbrace, ih, Reading.fillWith_behind]
    rfl

/-! ## The only reading -/

namespace Reading

/-- Texts before a value are the same if they are for two values that start differently. -/
theorem eq_of_append_values {l l' x x' y y' : List Char} (ha : l ++ 'a' :: x = l' ++ 'a' :: x')
    (hb : l ++ 'b' :: y = l' ++ 'b' :: y') : l = l' := by
  induction l generalizing l' with
  | nil =>
    cases l' with
    | nil => rfl
    | cons c l' =>
      rw [List.nil_append, List.cons_append, List.cons.injEq] at ha hb
      exact absurd (ha.1.trans hb.1.symm) (by decide)
  | cons c l ih =>
    cases l' with
    | nil =>
      rw [List.nil_append, List.cons_append, List.cons.injEq] at ha hb
      exact absurd (ha.1.symm.trans hb.1) (by decide)
    | cons c' l' =>
      rw [List.cons_append, List.cons_append, List.cons.injEq] at ha hb
      rw [ha.1, ih ha.2 hb.2]

/-- What is the same for all values has no placeholders. -/
theorem eq_last {l : List Char} {r : Reading} (h : ∀ value, r.fillWith value = l) :
    r = last l := by
  cases r with
  | last l' => rw [← h fun _ => "", fillWith]
  | slot l' p rest =>
    have hb := (h fun _ => "b").trans (h fun _ => "a").symm
    rw [fillWith, fillWith, List.append_cancel_left_eq] at hb
    exact absurd (List.cons.inj hb).1 (by decide)

/-- Two readings of a template that are filled alike are the same. -/
theorem ext {r r' : Reading} (htext : r.text = r'.text)
    (hfill : ∀ value, r.fillWith value = r'.fillWith value) : r = r' := by
  induction r generalizing r' with
  | last l => exact (eq_last fun value => (hfill value).symm).symm
  | slot l p rest ih =>
    cases r' with
    | last l' => exact eq_last hfill
    | slot l' p' rest' =>
      have ha := hfill fun _ => "a"
      have hb := hfill fun _ => "b"
      rw [fillWith, fillWith] at ha hb
      obtain rfl := eq_of_append_values ha hb
      rw [text, text, List.append_cancel_left_eq, Placeholder.text_append,
        Placeholder.text_append, List.cons.injEq, List.cons.injEq] at htext
      have hopen := open?_eq_some_iff.2 htext.2.2
      rw [open?_eq_some_iff.2 rfl] at hopen
      obtain ⟨rfl, hrest⟩ := Prod.mk.inj (Option.some.inj hopen)
      rw [ih hrest fun value => ?_]
      have h := hfill value
      rwa [fillWith, fillWith, List.append_cancel_left_eq, List.append_cancel_left_eq] at h

end Reading

/-- What it means that a template is read as ordinary text with placeholders of known names. -/
structure Reads (names : List String) (template : String) (r : Reading) : Prop where
  /-- The pieces make up the template. -/
  text : String.ofList r.text = template
  /-- A placeholder is a known name between double braces, with blanks around it allowed. -/
  known : ∀ p ∈ r.placeholders, p.name ∈ names ∧ ∃ before after : String,
    String.ofList p.text = slot (before ++ p.name ++ after) ∧
      before.toList.all isBlank = true ∧ after.toList.all isBlank = true
  /-- Each value stands as it is in the place of its placeholders, and all else is kept. -/
  filled : ∀ value : String → String,
    fill (assign names value) template = String.ofList (r.fillWith value)
  /-- Without placeholders the template stays as it is. -/
  unchanged : r.placeholders = [] → ∀ value : String → String,
    fill (assign names value) template = template
  /-- A placeholder of a known name stands in ordinary text only directly behind a brace. -/
  missed : ∀ l ∈ r.literals, ∀ (a b : List Char) (p : Placeholder), p.name ∈ names →
    l = a ++ (p.text ++ b) → endsWith ['\x7b'] a = true

/-- A template is read in one way, whatever the values will be. -/
theorem existsUnique_reads (names : List String) (template : String) :
    ∃! r, Reads names template r := by
  have htext : (read names template.toList).text = template.toList := text_read names _
  have hfill : ∀ value, fill (assign names value) template =
      String.ofList ((read names template.toList).fillWith value) := fun value => by
    rw [fill, fillChars_assign]
  refine ⟨read names template.toList, ⟨?_, ?_, hfill, ?_, ?_⟩, ?_⟩
  · rw [htext, String.ofList_toList]
  · exact fun p hp => ⟨name_mem_of_mem_read hp, p.exists_blanks⟩
  · intro hnone value
    rw [hfill, Reading.fillWith_of_no_placeholders hnone, htext, String.ofList_toList]
  · intro l hl a b p hname he
    exact endsWith_of_mem_literals hname hl he
  · intro r hr
    refine Reading.ext ?_ fun value => ?_
    · rw [htext, ← hr.text, String.toList_ofList]
    · rw [← String.ofList_inj, ← hr.filled, hfill]

example : fill [("title", "\x7b\x7bsummary\x7d\x7d"), ("summary", "ok")]
    "\x7b\x7btitle\x7d\x7d: \x7b\x7b summary \x7d\x7d \x7b\x7bunknown\x7d\x7d \x7b\x7b" =
      "\x7b\x7bsummary\x7d\x7d: ok \x7b\x7bunknown\x7d\x7d \x7b\x7b" := by
  cbv

/-! ## Placeholders behind ordinary text -/

theorem isLiteral_of_notMem (h : '\x7b' ∉ s) : isLiteral s = true := by
  induction s with
  | nil => rfl
  | cons c s ih =>
    rw [List.mem_cons, not_or] at h
    rw [isLiteral, bne_iff_ne.2 (Ne.symm h.1), Bool.true_or, ih h.2]
    rfl

theorem isLiteral_brace (h : '\x7b' ∉ s) (hs : s ≠ []) : isLiteral ('\x7b' :: s) = true := by
  rw [isLiteral, isLiteral_of_notMem h, Bool.and_true, Bool.or_eq_true]
  right
  cases s with
  | nil => exact absurd rfl hs
  | cons d s =>
    rw [List.mem_cons, not_or] at h
    exact bne_iff_ne.2 (Ne.symm h.1)

/-- A text without a double opening brace opens no placeholder, unless it ends with a brace. -/
theorem isLiteral_of_occursIn (hs : occursIn ['\x7b', '\x7b'] s = false)
    (hlast : endsWith ['\x7b'] s = false) : isLiteral s = true := by
  induction s with
  | nil => rfl
  | cons c s ih =>
    rw [occursIn, Bool.or_eq_false_iff] at hs
    have hend : endsWith ['\x7b'] s = false := Bool.eq_false_iff.2 fun h =>
      Bool.eq_false_iff.1 hlast (endsWith_cons_of_endsWith h)
    rw [isLiteral, ih hs.2 hend, Bool.and_true, Bool.or_eq_true, bne_iff_ne]
    by_cases hc : c = '\x7b'
    · subst hc
      right
      cases s with
      | nil => exact absurd hlast (by decide)
      | cons d s =>
        rw [List.head?_cons, Option.any_some, bne_iff_ne]
        rintro rfl
        exact Bool.eq_false_iff.1 hs.1 (startsWith_iff.2 ⟨s, rfl⟩)
    · exact .inl hc

theorem isLiteral_of_occursIn_concat (h : occursIn ['\x7b', '\x7b'] (s ++ ['\x7b']) = false) :
    isLiteral s = true := by
  rw [Bool.eq_false_iff] at h
  refine isLiteral_of_occursIn (Bool.eq_false_iff.2 fun hs => h ?_)
    (Bool.eq_false_iff.2 fun hlast => h ?_)
  · obtain ⟨a, b, rfl⟩ := occursIn_iff.1 hs
    exact occursIn_iff.2 ⟨a, b ++ ['\x7b'], by simp⟩
  · obtain ⟨r, rfl⟩ := endsWith_iff.1 hlast
    exact occursIn_iff.2 ⟨r, [], by simp⟩

/-- A placeholder is filled wherever the scan arrives at it. -/
theorem fillChars_placeholder {p : Placeholder} {v : String × String}
    (h : (values.find? fun v => v.1 == p.name) = some v) (t : List Char) :
    fillChars values (p.text ++ t) = v.2.toList ++ fillChars values t := by
  rw [Placeholder.text_append]
  exact fillChars_closed p.closed h t

/-- Behind a brace the scan arrives at another placeholder, whose name starts with a brace, and
goes on behind the braces that open it. -/
theorem fillChars_brace_placeholder (hnames : ∀ v ∈ values, '\x7b' ∉ v.1.toList)
    {p : Placeholder} (hp : '\x7b' ∉ p.body) (t : List Char) :
    fillChars values ('\x7b' :: (p.text ++ t)) = '\x7b' :: (p.text ++ fillChars values t) := by
  have hne : ¬('\x7b' = '\x7d' ∧ (p.body ++ ['\x7d']).head? = some '\x7d') :=
    fun h => absurd h.1 (by decide)
  let q : Placeholder := ⟨'\x7b' :: p.body, isClosed_cons.2 ⟨hne, p.closed⟩⟩
  have hbrace : '\x7b' ∈ q.name.toList := by
    rw [Placeholder.name, String.toList_ofList]
    exact mem_trim (by decide) List.mem_cons_self
  have hnone : placeholder? values (q.body ++ '\x7d' :: '\x7d' :: t) = none := by
    have hfind : (values.find? fun v => v.1 == q.name) = none := List.find?_eq_none.2
      fun v hv he => hnames v hv (beq_iff_eq.1 he ▸ hbrace)
    rw [placeholder?_eq, open?_eq_some_iff.2 rfl, Option.bind_some, hfind]
    rfl
  have hliteral : isLiteral (q.body ++ ['\x7d', '\x7d']) = true :=
    isLiteral_brace (by simp [hp]) (by simp)
  have hsplit : q.body ++ '\x7d' :: '\x7d' :: t = (q.body ++ ['\x7d', '\x7d']) ++ t := by
    rw [List.append_assoc]
    rfl
  rw [Placeholder.text_append]
  show fillChars values ('\x7b' :: '\x7b' :: (q.body ++ '\x7d' :: '\x7d' :: t)) = _
  rw [fillChars_of_none hnone, hsplit, fillChars_literal hliteral]
  simp [q, Placeholder.text]

/-- A placeholder behind ordinary text is filled, unless a brace stands directly before it: then it
is kept as it is written. -/
theorem fill_behind_text (values : List (String × String)) {l before name after : String}
    {v : String × String} (t : String) (hl : occursIn ['\x7b', '\x7b'] l.toList = false)
    (hbefore : before.toList.all isBlank = true) (hafter : after.toList.all isBlank = true)
    (hname : trim name.toList = name.toList)
    (hclosed : isClosed (before ++ name ++ after).toList = true)
    (hv : (values.find? fun v => v.1 == name) = some v) :
    (endsWith ['\x7b'] l.toList = false →
      fill values (l ++ slot (before ++ name ++ after) ++ t) = l ++ v.2 ++ fill values t) ∧
    (endsWith ['\x7b'] l.toList = true → (∀ v ∈ values, '\x7b' ∉ v.1.toList) →
      fill values (l ++ slot (before ++ name ++ after) ++ t) =
        l ++ slot (before ++ name ++ after) ++ fill values t) := by
  let p : Placeholder := ⟨(before ++ name ++ after).toList, hclosed⟩
  have hbody : p.body = before.toList ++ name.toList ++ after.toList := by simp [p]
  have htext : (slot (before ++ name ++ after)).toList = p.text := by
    simp [slot, Placeholder.text, p]
  have hpname : p.name = name := by
    rw [Placeholder.name, hbody, trim_append (List.all_eq_true.1 hbefore)
      (List.all_eq_true.1 hafter) hname, String.ofList_toList]
  rw [← hpname] at hv
  constructor
  · intro hlast
    have hliteral := isLiteral_of_occursIn hl hlast
    rw [← String.toList_inj, fill, fill]
    simp only [String.toList_append, String.toList_ofList, htext, List.append_assoc]
    rw [fillChars_literal hliteral, fillChars_placeholder hv]
  · intro hlast hnames
    obtain ⟨l', hl'⟩ := endsWith_iff.1 hlast
    have hliteral : isLiteral l' = true := isLiteral_of_occursIn_concat (hl' ▸ hl)
    have hvisible : ∀ u : String, u.toList.all isBlank = true → '\x7b' ∉ u.toList := fun u hu h =>
      absurd (List.all_eq_true.1 hu _ h) (by decide)
    have hbrace : '\x7b' ∉ p.body := by
      have hfound := List.find?_some hv
      have hmem := hnames v (List.mem_of_find?_eq_some hv)
      rw [beq_iff_eq.1 hfound, hpname] at hmem
      rw [hbody, List.mem_append, List.mem_append, not_or, not_or]
      exact ⟨⟨hvisible before hbefore, hmem⟩, hvisible after hafter⟩
    rw [← String.toList_inj, fill, fill]
    simp only [String.toList_append, String.toList_ofList, htext, List.append_assoc]
    rw [hl', List.append_assoc, fillChars_literal hliteral, List.singleton_append,
      fillChars_brace_placeholder hnames hbrace, List.append_assoc, List.singleton_append]

theorem fill_behind_text_title :
    fill [("title", "\x7b\x7btitle\x7d\x7d")] ("== " ++ slot (" " ++ "title" ++ "\t") ++ " ==") =
      "== " ++ "\x7b\x7btitle\x7d\x7d" ++ fill [("title", "\x7b\x7btitle\x7d\x7d")] " ==" ∧
    fill [("title", "Custom")] ("\\section\x7b" ++ slot ("" ++ "title" ++ "") ++ "\x7d") =
      "\\section\x7b" ++ slot ("" ++ "title" ++ "") ++ fill [("title", "Custom")] "\x7d" := by
  constructor
  · refine (@fill_behind_text _ "== " " " "title" "\t" ("title", "\x7b\x7btitle\x7d\x7d") _
      ?_ ?_ ?_ ?_ ?_ rfl).1 ?_ <;> decide +kernel
  · refine (@fill_behind_text _ "\\section\x7b" "" "title" "" ("title", "Custom") _
      ?_ ?_ ?_ ?_ ?_ rfl).2 ?_ ?_ <;> decide +kernel

/-- The name that is read behind a brace starts with this brace. -/
theorem fill_behind_brace :
    fill [("title", "Custom")] ("\\section\x7b" ++ slot "title" ++ "\x7d") =
      "\\section\x7b\x7b\x7btitle\x7d\x7d\x7d" ∧
    fill [("title", "Custom")] ("\\section\x7b" ++ slot "title" ++ "\x7d") ≠
      "\\section\x7b" ++ "Custom" ++ fill [("title", "Custom")] "\x7d" := by
  have hkept : fill [("title", "Custom")] ("\\section\x7b" ++ slot "title" ++ "\x7d") =
      "\\section\x7b\x7b\x7btitle\x7d\x7d\x7d" := by cbv
  have hfilled : "\\section\x7b" ++ "Custom" ++ fill [("title", "Custom")] "\x7d" =
      "\\section\x7bCustom\x7d" := by cbv
  rw [hkept, hfilled]
  decide

end Template

end SpecLinkage
