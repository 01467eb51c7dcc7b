import SpecLinkage.Text.Affix

/-! # Words in a text

What the readers of words and affixes give on texts that were put together from known parts.

* `word_append`, `afterWord_append`: a word is read up to the blank behind it.
* `trimStart_of_head`, `dropEndWhile_of_last`: there is nothing to trim.
* `dropSuffix_of_last`: a text with another last character does not have the suffix.
* `splitAll_intercalate`: a text that was joined from lines is split into these lines. -/

namespace SpecLinkage.Text

variable {c : Char} {p : Char → Bool} {s t u : List Char}

/-! ## Letters and digits -/

theorem isAlphanum_of_isUpper (h : c.isUpper = true) : c.isAlphanum = true := by
  show ((c.isUpper || c.isLower) || c.isDigit) = true
  rw [h, Bool.true_or, Bool.true_or]

theorem isAlphanum_of_isLower (h : c.isLower = true) : c.isAlphanum = true := by
  show ((c.isUpper || c.isLower) || c.isDigit) = true
  rw [h, Bool.or_true, Bool.true_or]

theorem isAlphanum_of_isDigit (h : c.isDigit = true) : c.isAlphanum = true := by
  show ((c.isUpper || c.isLower) || c.isDigit) = true
  rw [h, Bool.or_true]

/-- Letters and digits are no blanks. -/
theorem isBlank_of_isAlphanum (h : c.isAlphanum = true) : isBlank c = false := by
  delta Char.isAlphanum Char.isAlpha Char.isUpper Char.isLower Char.isDigit at h
  simp only [Bool.or_eq_true, Bool.and_eq_true, decide_eq_true_eq, UInt32.le_iff_toNat_le,
    Char.toNat_val, Char.reduceToNat] at h
  simp only [isBlank, Bool.or_eq_false_iff, Bool.and_eq_false_iff, decide_eq_false_iff_not,
    beq_eq_false_iff_ne]
  omega

/-! ## From the start -/

/-- Whether a text is empty or starts with a blank. -/
def StartsBlank (s : List Char) : Prop := ∀ c ∈ s.head?, isBlank c = true

theorem startsBlank_nil : StartsBlank [] := by rintro c ⟨⟩

theorem startsBlank_cons (h : isBlank c = true) : StartsBlank (c :: s) := by
  rintro _ ⟨⟩
  exact h

theorem takeWhile_of_stop (hs : ∀ c ∈ s, p c = true) (ht : ∀ c ∈ t.head?, p c = false) :
    (s ++ t).takeWhile p = s := by
  rw [List.takeWhile_append_of_pos hs]
  cases t with
  | nil => exact List.append_nil s
  | cons c t => rw [List.takeWhile_cons_of_neg (by rw [ht c rfl]; exact Bool.false_ne_true),
      List.append_nil]

theorem dropWhile_of_stop (hs : ∀ c ∈ s, p c = true) (ht : ∀ c ∈ t.head?, p c = false) :
    (s ++ t).dropWhile p = t := by
  rw [List.dropWhile_append_of_pos hs]
  cases t with
  | nil => rfl
  | cons c t => exact List.dropWhile_cons_of_neg (by rw [ht c rfl]; exact Bool.false_ne_true)

theorem StartsBlank.stop (h : StartsBlank t) : ∀ c ∈ t.head?, (!isBlank c) = false := by
  intro c hc
  rw [h c hc]
  rfl

/-- A word is read up to the blank behind it. -/
theorem word_append (hs : ∀ c ∈ s, isBlank c = false) (ht : StartsBlank t) : word (s ++ t) = s :=
  takeWhile_of_stop (fun c hc => by rw [hs c hc]; rfl) ht.stop

theorem afterWord_append (hs : ∀ c ∈ s, isBlank c = false) (ht : StartsBlank t) :
    afterWord (s ++ t) = t :=
  dropWhile_of_stop (fun c hc => by rw [hs c hc]; rfl) ht.stop

theorem isBlank_word : ∀ c ∈ word s, isBlank c = false := fun c hc => by
  simpa using List.all_eq_true.1 List.all_takeWhile c hc

theorem startsBlank_afterWord (s : List Char) : StartsBlank (afterWord s) := by
  intro c hc
  have hstop := List.head?_dropWhile_not (fun c => !isBlank c) s
  rw [afterWord] at hc
  rw [hc] at hstop
  simpa using hstop

theorem trimStart_of_head (h : ∀ c ∈ s.head?, isBlank c = false) : trimStart s = s :=
  dropWhile_of_stop (s := []) (by rintro c ⟨⟩) h

theorem trimStart_cons (h : isBlank c = true) (s : List Char) : trimStart (c :: s) = trimStart s :=
  List.dropWhile_cons_of_pos h

theorem trimStart_append (h : ∀ c ∈ s, isBlank c = true) (t : List Char) :
    trimStart (s ++ t) = trimStart t :=
  List.dropWhile_append_of_pos h

theorem trimStart_suffix (s : List Char) : trimStart s <:+ s := List.dropWhile_suffix _

theorem afterWord_suffix (s : List Char) : afterWord s <:+ s := List.dropWhile_suffix _

/-! ## From the end -/

theorem dropEndWhile_of_last (h : ∀ c ∈ s.getLast?, p c = false) : dropEndWhile p s = s := by
  rw [← List.head?_reverse] at h
  have := dropWhile_of_stop (s := []) (p := p) (by rintro c ⟨⟩) h
  rw [dropEndWhile, show s.reverse.dropWhile p = s.reverse from this, List.reverse_reverse]

theorem dropEndWhile_prefix (p : Char → Bool) (s : List Char) : dropEndWhile p s <+: s := by
  rw [dropEndWhile, ← List.reverse_suffix, List.reverse_reverse]
  exact List.dropWhile_suffix p

/-- What satisfies the condition at the end is dropped. -/
theorem dropEndWhile_append (ht : ∀ c ∈ t, p c = true) (s : List Char) :
    dropEndWhile p (s ++ t) = dropEndWhile p s := by
  rw [dropEndWhile, List.reverse_append,
    List.dropWhile_append_of_pos fun c hc => ht c (List.mem_reverse.1 hc)]
  rfl

/-- A character without the condition stays, and so does everything before it. -/
theorem dropEndWhile_append_cons (h : p c = false) (s t : List Char) :
    dropEndWhile p (s ++ c :: t) = s ++ c :: dropEndWhile p t := by
  have hstop : ∀ d ∈ (c :: s.reverse).head?, p d = false := by
    rintro _ ⟨⟩
    exact h
  have hreverse : (s ++ c :: t).reverse = t.reverse ++ c :: s.reverse := by simp
  have hkept : (t.reverse ++ c :: s.reverse).dropWhile p =
      t.reverse.dropWhile p ++ c :: s.reverse := by
    rw [List.dropWhile_append]
    split
    · next hempty =>
      rw [List.isEmpty_iff.1 hempty]
      exact dropWhile_of_stop (s := []) (by rintro d ⟨⟩) hstop
    · rfl
  rw [dropEndWhile, dropEndWhile, hreverse, hkept]
  simp

theorem trimEnd_cons (h : isBlank c = false) (s : List Char) :
    trimEnd (c :: s) = c :: trimEnd s := dropEndWhile_append_cons h [] s

theorem trim_ne_nil (h : isBlank c = false) (s : List Char) : trim (c :: s) ≠ [] := by
  have hstart : trimStart (c :: s) = c :: s := trimStart_of_head (by rintro _ ⟨⟩; exact h)
  rw [trim, hstart, trimEnd_cons h]
  exact List.cons_ne_nil _ _

/-- A text with another last character does not have the suffix. -/
theorem dropSuffix_of_last (hu : u ≠ []) (h : s.getLast? ≠ u.getLast?) : dropSuffix u s = s := by
  rw [dropSuffix]
  rcases hs : stripSuffix? u s with _ | r
  · rfl
  · rw [stripSuffix?_eq_some_iff.1 hs, List.getLast?_append, Option.or_of_isSome] at h
    · exact absurd rfl h
    · rw [List.getLast?_isSome]
      exact hu

theorem dropSuffix_append (s u : List Char) : dropSuffix u (s ++ u) = s := by
  rw [dropSuffix, stripSuffix?_eq_some_iff.2 rfl]
  rfl

theorem dropSuffix_prefix (u s : List Char) : dropSuffix u s <+: s := by
  rw [dropSuffix]
  rcases h : stripSuffix? u s with _ | r
  · exact List.prefix_refl s
  · exact ⟨u, (stripSuffix?_eq_some_iff.1 h).symm⟩

theorem dropPrefix_suffix (u s : List Char) : dropPrefix u s <:+ s := by
  rw [dropPrefix]
  rcases h : stripPrefix? u s with _ | r
  · exact List.suffix_refl s
  · exact ⟨u, (stripPrefix?_eq_some_iff.1 h).symm⟩

theorem dropSuffix_of_not_endsWith (h : endsWith u s = false) : dropSuffix u s = s := by
  rw [endsWith, Option.isSome_eq_false_iff, Option.isNone_iff_eq_none] at h
  rw [dropSuffix, h]
  rfl

theorem last_append (hs : ∀ c ∈ s.getLast?, isBlank c = false)
    (ht : ∀ c ∈ t.getLast?, isBlank c = false) : ∀ c ∈ (s ++ t).getLast?, isBlank c = false := by
  intro c hc
  rw [List.getLast?_append, Option.mem_def, Option.or_eq_some_iff] at hc
  rcases hc with hc | ⟨-, hc⟩
  · exact ht c hc
  · exact hs c hc

theorem not_of_mem_head?_dropWhile (h : c ∈ (s.dropWhile p).head?) : p c = false := by
  have hstop := List.head?_dropWhile_not p s
  rw [h] at hstop
  exact hstop

/-- A text from which nothing is trimmed has no blank at its ends. -/
theorem ends_of_trim (h : trim s = s) :
    (∀ c ∈ s.head?, isBlank c = false) ∧ ∀ c ∈ s.getLast?, isBlank c = false := by
  have hle : (trimEnd (trimStart s)).length ≤ (trimStart s).length := by
    rw [trimEnd, dropEndWhile, List.length_reverse, ← @List.length_reverse _ (trimStart s)]
    exact length_dropWhile_le isBlank _
  have hstart : trimStart s = s := by
    rw [← trim, h] at hle
    exact (List.dropWhile_sublist isBlank).eq_of_length_le hle
  constructor
  · intro c hc
    rw [← hstart] at hc
    exact not_of_mem_head?_dropWhile hc
  · intro c hc
    rw [← h, trim, trimEnd, dropEndWhile, List.getLast?_reverse] at hc
    exact not_of_mem_head?_dropWhile hc

/-- A text has blanks at its ends, and between them what is left of it when it is trimmed. -/
theorem exists_eq_trim (s : List Char) : ∃ before after, s = before ++ trim s ++ after ∧
    (∀ c ∈ before, isBlank c = true) ∧ ∀ c ∈ after, isBlank c = true := by
  refine ⟨s.takeWhile isBlank, ((trimStart s).reverse.takeWhile isBlank).reverse, ?_,
    List.all_eq_true.1 List.all_takeWhile, fun c hc => ?_⟩
  · rw [trim, trimEnd, dropEndWhile, List.append_assoc, ← List.reverse_append,
      List.takeWhile_append_dropWhile, List.reverse_reverse, trimStart,
      List.takeWhile_append_dropWhile]
  · exact List.all_eq_true.1 List.all_takeWhile c (List.mem_reverse.1 hc)

/-- A visible character is not trimmed away. -/
theorem mem_trim (hc : isBlank c = false) (h : c ∈ s) : c ∈ trim s := by
  obtain ⟨before, after, hs, hbefore, hafter⟩ := exists_eq_trim s
  rw [hs, List.mem_append, List.mem_append] at h
  rcases h with (h | h) | h
  · rw [hbefore c h] at hc
    cases hc
  · exact h
  · rw [hafter c h] at hc
    cases hc

/-- Blanks around a text without blanks at its ends are trimmed away. -/
theorem trim_append (hs : ∀ c ∈ s, isBlank c = true) (hu : ∀ c ∈ u, isBlank c = true)
    (ht : trim t = t) : trim (s ++ t ++ u) = t := by
  obtain ⟨hhead, hlast⟩ := ends_of_trim ht
  rw [trim, List.append_assoc, trimStart_append hs]
  cases t with
  | nil =>
    have hnone : trimStart u = [] := by
      rw [← List.append_nil u, trimStart_append hu]
      rfl
    rw [List.nil_append, hnone]
    rfl
  | cons c t =>
    have hstart : ∀ d ∈ (c :: t ++ u).head?, isBlank d = false := hhead
    rw [trimStart_of_head hstart, trimEnd, dropEndWhile_append hu, dropEndWhile_of_last hlast]

theorem endsWith_cons_of_endsWith (h : endsWith u s = true) : endsWith u (c :: s) = true := by
  obtain ⟨r, rfl⟩ := endsWith_iff.1 h
  exact endsWith_iff.2 ⟨c :: r, rfl⟩

/-- A space in front does not make a text end with a suffix that has no space in it. -/
theorem endsWith_cons (hu : c ∉ u) (h : endsWith u s = false) : endsWith u (c :: s) = false := by
  rw [Bool.eq_false_iff] at h ⊢
  intro hs
  obtain ⟨r, hr⟩ := endsWith_iff.1 hs
  cases r with
  | nil =>
    rw [List.nil_append] at hr
    exact hu (hr ▸ List.mem_cons_self)
  | cons x r => exact h (endsWith_iff.2 ⟨r, (List.cons.inj hr).2⟩)

/-- Blanks behind a text do not make it end with a suffix that ends with a visible character. -/
theorem endsWith_append_blanks {g : List Char} (hg : ∀ c ∈ g, isBlank c = true) (hne : u ≠ [])
    (hu : ∀ c ∈ u.getLast?, isBlank c = false) (h : endsWith u s = false) :
    endsWith u (s ++ g) = false := by
  cases hlast : g.getLast? with
  | none => rwa [List.getLast?_eq_none_iff.1 hlast, List.append_nil]
  | some c =>
    rw [Bool.eq_false_iff]
    intro hend
    obtain ⟨r, hr⟩ := endsWith_iff.1 hend
    have hc : (s ++ g).getLast? = some c := by rw [List.getLast?_append, hlast, Option.some_or]
    rw [hr, List.getLast?_append, Option.or_of_isSome (List.getLast?_isSome.2 hne)] at hc
    have hblank := hg c (List.mem_of_getLast? hlast)
    rw [hu c hc] at hblank
    cases hblank

/-! ## Inside -/

theorem occursIn_of_startsWith (h : startsWith u s = true) : occursIn u s = true := by
  cases s with
  | nil =>
    obtain ⟨r, hr⟩ := startsWith_iff.1 h
    rw [(List.append_eq_nil_iff.1 hr.symm).1]
    rfl
  | cons c s => rw [occursIn, h, Bool.true_or]

theorem occursIn_append (u a b : List Char) : occursIn u (a ++ (u ++ b)) = true := by
  induction a with
  | nil => exact occursIn_of_startsWith (startsWith_iff.2 ⟨b, rfl⟩)
  | cons c a ih => rw [List.cons_append, occursIn, ih, Bool.or_true]

theorem occursIn_iff : occursIn u s = true ↔ ∃ a b, s = a ++ (u ++ b) := by
  refine ⟨fun h => ?_, ?_⟩
  · induction s with
    | nil => exact ⟨[], [], (List.append_nil u).trans (List.isEmpty_iff.1 h) |>.symm⟩
    | cons c s ih =>
      rw [occursIn, Bool.or_eq_true] at h
      rcases h with h | h
      · obtain ⟨b, hb⟩ := startsWith_iff.1 h
        exact ⟨[], b, hb⟩
      · obtain ⟨a, b, rfl⟩ := ih h
        exact ⟨c :: a, b, rfl⟩
  · rintro ⟨a, b, rfl⟩
    exact occursIn_append u a b

/-! ## Lines -/

/-- A text is one piece, or a piece and what follows its separator. -/
theorem pieces_induction (c : Char) {motive : List Char → Prop} (piece : ∀ l, c ∉ l → motive l)
    (cons : ∀ l s, c ∉ l → motive s → motive (l ++ c :: s)) (s : List Char) : motive s := by
  induction hn : s.length using Nat.strongRecOn generalizing s with
  | _ n ih =>
    by_cases h : c ∈ s
    · obtain ⟨l, rest, rfl, hl⟩ := List.eq_append_cons_of_mem h
      refine cons l rest hl (ih rest.length ?_ rest rfl)
      rw [← hn, List.length_append, List.length_cons]
      omega
    · exact piece s h

/-- A text is one line, or a line and what follows its line break. -/
@[elab_as_elim]
theorem lines_induction {motive : List Char → Prop} (line : ∀ l, '\n' ∉ l → motive l)
    (cons : ∀ l s, '\n' ∉ l → motive s → motive (l ++ '\n' :: s)) (s : List Char) : motive s :=
  pieces_induction '\n' line cons s

theorem splitAll_of_notMem (h : c ∉ s) : splitAll c s = [s] := by
  induction s with
  | nil => rfl
  | cons x s ih =>
    rw [List.mem_cons, not_or] at h
    rw [splitAll, if_neg (Ne.symm h.1), ih h.2]

/-- The separator is in no piece. -/
theorem notMem_of_mem_splitAll {piece : List Char} (h : piece ∈ splitAll c s) : c ∉ piece := by
  induction s generalizing piece with
  | nil => simp_all [splitAll]
  | cons x s ih =>
    rw [splitAll] at h
    split at h
    · rcases List.mem_cons.1 h with rfl | h
      · exact List.not_mem_nil
      · exact ih h
    · next hx =>
      split at h
      · next hnil => exact absurd hnil (splitAll_ne_nil c s)
      · next first rest hsplit =>
        rcases List.mem_cons.1 h with rfl | h
        · rw [List.mem_cons, not_or]
          exact ⟨Ne.symm hx, ih (hsplit ▸ List.mem_cons_self)⟩
        · exact ih (hsplit ▸ List.mem_cons_of_mem first h)

/-- A text that was joined from lines is split into these lines. -/
theorem splitAll_intercalate {lines : List (List Char)} (hne : lines ≠ [])
    (h : ∀ line ∈ lines, c ∉ line) : splitAll c ([c].intercalate lines) = lines := by
  induction lines with
  | nil => exact absurd rfl hne
  | cons line lines ih =>
    have hline := splitAll_of_notMem (h line List.mem_cons_self)
    rcases lines with _ | ⟨next, lines⟩
    · rw [List.intercalate_singleton, hline]
    · rw [List.intercalate_cons_cons, List.append_assoc, List.singleton_append,
        splitAll_append_cons, hline, ih (List.cons_ne_nil next lines)
          fun l hl => h l (List.mem_cons_of_mem line hl)]
      rfl

end SpecLinkage.Text
