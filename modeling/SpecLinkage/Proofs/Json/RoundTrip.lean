import SpecLinkage.Json.Reader
import SpecLinkage.Json.Writer
import Mathlib.Data.List.TakeWhile

/-! # Reading what was written

The reader gives back every value that the writer has written over several lines, whatever the
texts in it are.

* `readText?_escaped`: texts, with every escape that the writer uses.
* `decimalNat?_digits`: natural numbers.
* `Json.Written` says which values are written: their numbers are numbers, and their `size` bounds
  the steps that the reader needs.
* `ofText?_pretty`: values.
* `readField?_of_filter`: fields, with a reader for their values. -/

namespace SpecLinkage.Json

open Text

/-! ## Texts -/

theorem hexDigit?_digitChar : ∀ n < 16, hexDigit? (Nat.digitChar n) = some n := by
  decide

theorem readEscape?_control {c : Char} (h : c.toNat < 0x20 ∨ c.toNat = 0x7F) (s : List Char) :
    readEscape? ('u' :: '0' :: '0' :: Nat.digitChar (c.toNat / 16) ::
      Nat.digitChar (c.toNat % 16) :: s) = some (c, s) := by
  have hzero : hexDigit? '0' = some 0 := hexDigit?_digitChar 0 (by omega)
  have hhigh := hexDigit?_digitChar (c.toNat / 16) (by omega)
  have hlow := hexDigit?_digitChar (c.toNat % 16) (by omega)
  have hread : readHex4? ('0' :: '0' :: Nat.digitChar (c.toNat / 16) ::
      Nat.digitChar (c.toNat % 16) :: s) = some (c.toNat, s) := by
    simp only [readHex4?, hzero, hhigh, hlow]
    congr 2
    omega
  have hplain : ¬(0xD800 ≤ c.toNat ∧ c.toNat < 0xDC00) := by omega
  have hplain' : ¬(0xDC00 ≤ c.toNat ∧ c.toNat < 0xE000) := by omega
  simp only [readEscape?, readUnicode?, hread, if_neg hplain, if_neg hplain', Char.ofNat_toNat]

/-- A written character is read back, and takes one step. -/
theorem readText?_escapeChar (c : Char) (s : List Char) (fuel : Nat) :
    readText? (fuel + 1) (escapeChar c ++ s) =
      (readText? fuel s).map fun (t, r) => (c :: t, r) := by
  have hescape : ∀ {x : Char} {u : List Char}, readEscape? u = some (x, s) →
      readText? (fuel + 1) ('\\' :: u) = (readText? fuel s).map fun (t, r) => (x :: t, r) := by
    intro x u hu
    rw [readText?, if_neg (by decide), if_pos rfl, hu]
  unfold escapeChar
  split
  · next h =>
    rcases h with rfl | rfl
    · exact hescape rfl
    · exact hescape rfl
  · next hplain =>
    rw [not_or] at hplain
    split
    · next h => exact h ▸ hescape rfl
    split
    · next h => exact h ▸ hescape rfl
    split
    · next h => exact h ▸ hescape rfl
    split
    · next h => exact h ▸ hescape rfl
    split
    · next h => exact h ▸ hescape rfl
    split
    · next h => exact hescape (readEscape?_control h s)
    · rw [List.singleton_append, readText?, if_neg hplain.1, if_neg hplain.2]

/-- A written text is read back up to its closing quote. -/
theorem readText?_escaped (s rest : List Char) {fuel : Nat} (h : s.length < fuel) :
    readText? fuel (s.flatMap escapeChar ++ '"' :: rest) = some (s, rest) := by
  induction s generalizing fuel with
  | nil =>
    obtain ⟨n, rfl⟩ := Nat.exists_eq_add_one_of_ne_zero (Nat.ne_of_gt h)
    rfl
  | cons c s ih =>
    obtain ⟨n, rfl⟩ := Nat.exists_eq_add_one_of_ne_zero (Nat.ne_of_gt (Nat.zero_lt_of_lt h))
    rw [List.flatMap_cons, List.append_assoc, readText?_escapeChar, ih (Nat.lt_of_succ_lt_succ h)]
    rfl

theorem length_le_flatMap_escapeChar (s : List Char) :
    s.length ≤ (s.flatMap escapeChar).length := by
  induction s with
  | nil => exact Nat.le_refl 0
  | cons c s ih =>
    have hc : 1 ≤ (escapeChar c).length := by
      unfold escapeChar
      repeat' split
      all_goals simp
    rw [List.flatMap_cons, List.length_append, List.length_cons]
    omega

/-- The steps that the reader allows for a text suffice. -/
theorem readText?_quoted (s : String) (rest : List Char) :
    readText? ((s.toList.flatMap escapeChar ++ '"' :: rest).length + 1)
      (s.toList.flatMap escapeChar ++ '"' :: rest) = some (s.toList, rest) := by
  apply readText?_escaped
  have := length_le_flatMap_escapeChar s.toList
  rw [List.length_append, List.length_cons]
  omega

/-! ## Numbers -/

section Digits

variable {s : List Char} (hne : s ≠ []) (hs : ∀ c ∈ s, c.isDigit = true)

include hs

theorem notMem_of_digits {c : Char} (hc : c.isDigit = false) : c ∉ s := by
  intro h
  rw [hs c h] at hc
  cases hc

theorem dropPrefix_of_digits {c : Char} (hc : c.isDigit = false) : dropPrefix [c] s = s := by
  rw [dropPrefix]
  cases s with
  | nil => rfl
  | cons d s =>
    have hd : c ≠ d := by
      rintro rfl
      exact notMem_of_digits hs hc List.mem_cons_self
    rw [stripPrefix?, if_neg hd]
    rfl

include hne in
theorem isNumber_of_digits : isNumber s = true := by
  obtain ⟨c, s, rfl⟩ := List.exists_cons_of_ne_nil hne
  have hc : c.isDigit = true := hs c List.mem_cons_self
  simp only [isNumber, dropPrefix_of_digits hs (c := '-') (by decide),
    List.dropWhile_eq_nil_iff.2 hs]
  simp [hc]

theorem readDecimal_of_digits : readDecimal s = (false, Nat.ofDigitChars 10 s 0, 0) := by
  have hexp : ∀ c ∈ s, (c != 'e' && c != 'E') = true := by
    intro c hc
    have he : c ≠ 'e' := fun h => notMem_of_digits hs (c := 'e') (by decide) (h ▸ hc)
    have hE : c ≠ 'E' := fun h => notMem_of_digits hs (c := 'E') (by decide) (h ▸ hc)
    simp [he, hE]
  have hpoint : ∀ c ∈ s, (c != '.') = true := by
    intro c hc
    have hp : c ≠ '.' := fun h => notMem_of_digits hs (c := '.') (by decide) (h ▸ hc)
    simp [hp]
  have hsign : (s.head? == some '-') = false := by
    cases s with
    | nil => rfl
    | cons c s =>
      have hc : c ≠ '-' := by
        rintro rfl
        exact notMem_of_digits hs (c := '-') (by decide) List.mem_cons_self
      simp [hc]
  simp only [readDecimal, hsign, dropPrefix_of_digits hs (c := '-') (by decide),
    List.takeWhile_eq_self_iff.2 hexp, List.dropWhile_eq_nil_iff.2 hexp,
    List.takeWhile_eq_self_iff.2 hpoint, List.dropWhile_eq_nil_iff.2 hpoint]
  simp [Nat.ofDigitChars_eq_foldl, Nat.mul_comm]

end Digits

theorem digits_isDigit (n : Nat) : ∀ c ∈ Nat.toDigits 10 n, c.isDigit = true := fun _ h =>
  Nat.isDigit_of_mem_toDigits (by omega) (by omega) h

theorem decimalNat?_digits {limit : Nat} (hlimit : 0 < limit) (n : Nat) :
    decimalNat? limit (Nat.toDigits 10 n) = if n < limit then some n else none := by
  have hvalue : Nat.ofDigitChars 10 (Nat.toDigits 10 n) 0 = n :=
    Nat.ofDigitChars_toDigits (by omega) (by omega)
  rw [decimalNat?, readDecimal_of_digits (digits_isDigit n), hvalue]
  simp only
  split
  · next h0 => rw [h0, if_pos hlimit]
  · simp

/-! ## Values -/

mutual

/-- Whether a value is one that is written: its numbers are numbers. -/
def Written : Json → Prop
  | .number literal =>
    isNumber literal.toList = true ∧ ∀ c ∈ literal.toList, isNumberChar c = true
  | .array items => WrittenItems items
  | .object fields => WrittenFields fields
  | _ => True

def WrittenItems : List Json → Prop
  | [] => True
  | v :: vs => Written v ∧ WrittenItems vs

def WrittenFields : List (String × Json) → Prop
  | [] => True
  | (_, v) :: fs => Written v ∧ WrittenFields fs

end

mutual

/-- The steps that reading a value takes. -/
def size : Json → Nat
  | .array items => sizeItems items + 1
  | .object fields => sizeFields fields + 1
  | _ => 1

def sizeItems : List Json → Nat
  | [] => 1
  | v :: vs => size v + sizeItems vs + 1

def sizeFields : List (String × Json) → Nat
  | [] => 1
  | (_, v) :: fs => size v + sizeFields fs + 1

end

/-- Whether a number ends before a text. -/
def Ends (s : List Char) : Prop := ∀ c, s.head? = some c → isNumberChar c = false

theorem skipGap_newLine (depth : Nat) (s : List Char) :
    skipGap (newLine depth ++ s) = skipGap s := by
  have hall : ∀ c ∈ newLine depth, isGap c = true := by
    intro c hc
    rcases List.mem_cons.1 hc with rfl | hc
    · rfl
    · rw [List.eq_of_mem_replicate hc]
      rfl
  exact List.dropWhile_append_of_pos hall

theorem skipGap_cons {c : Char} (s : List Char) (h : isGap c = false) :
    skipGap (c :: s) = c :: s := by
  rw [skipGap, List.dropWhile_cons, h]
  rfl

theorem isNumber_head {s : List Char} (h : isNumber s = true) :
    ∃ c r, s = c :: r ∧ (c == '-' || c.isDigit) = true := by
  cases s with
  | nil => cases h
  | cons c r =>
    refine ⟨c, r, rfl, ?_⟩
    by_cases hc : c = '-'
    · rw [hc]
      rfl
    · have hdrop : dropPrefix ['-'] (c :: r) = c :: r := by
        rw [dropPrefix, stripPrefix?, if_neg (Ne.symm hc)]
        rfl
      simp only [isNumber, hdrop, List.head?_cons, Option.any_some, Bool.and_eq_true] at h
      rw [h.1.1, Bool.or_true]

/-- A written value starts with neither a blank nor a closing bracket. -/
theorem prettyChars_head (depth : Nat) {v : Json} (h : v.Written) :
    ∃ c r, prettyChars depth v = c :: r ∧ isGap c = false ∧ c ≠ ']' := by
  cases v with
  | null => exact ⟨_, _, rfl, rfl, by decide⟩
  | bool b => cases b <;> exact ⟨_, _, rfl, rfl, by decide⟩
  | number literal =>
    obtain ⟨c, r, hlit, hc⟩ := isNumber_head h.1
    refine ⟨c, r, hlit, ?_, ?_⟩
    · by_contra hgap
      rw [Bool.not_eq_false] at hgap
      simp only [isGap, Bool.or_eq_true, beq_iff_eq] at hgap
      rcases hgap with ((rfl | rfl) | rfl) | rfl <;> cases hc
    · rintro rfl
      cases hc
  | string s => exact ⟨_, _, rfl, rfl, by decide⟩
  | array items => cases items <;> exact ⟨_, _, rfl, rfl, by decide⟩
  | object fields => cases fields <;> exact ⟨_, _, rfl, rfl, by decide⟩

theorem readValue?_number {literal : String} {s rest : List Char} (fuel : Nat)
    (h : (number literal).Written) (hs : skipGap s = literal.toList ++ rest) (hrest : Ends rest) :
    readValue? (fuel + 1) s = some (.number literal, rest) := by
  obtain ⟨c, r, hlit, hc⟩ := isNumber_head h.1
  have hstop : rest.takeWhile isNumberChar = [] ∧ rest.dropWhile isNumberChar = rest := by
    cases rest with
    | nil => exact ⟨rfl, rfl⟩
    | cons x rest =>
      rw [List.takeWhile_cons, List.dropWhile_cons, hrest x rfl]
      exact ⟨rfl, rfl⟩
  have htake : (literal.toList ++ rest).takeWhile isNumberChar = literal.toList := by
    rw [List.takeWhile_append_of_pos h.2, hstop.1, List.append_nil]
  have hdrop : (literal.toList ++ rest).dropWhile isNumberChar = rest := by
    rw [List.dropWhile_append_of_pos h.2, hstop.2]
  rw [hlit, List.cons_append] at hs htake hdrop
  rw [readValue?, hs]
  split
  · next heq => cases heq
  · next heq => cases heq; cases hc
  · next heq => cases heq; cases hc
  · next heq => cases heq; cases hc
  · next heq =>
    cases heq
    rw [if_pos hc, htake, hdrop, ← hlit, if_pos h.1, String.ofList_toList]

theorem ends_newLine (depth : Nat) (s : List Char) : Ends (newLine depth ++ s) := by
  rintro c ⟨⟩
  rfl

theorem ends_comma (s : List Char) : Ends (',' :: s) := by
  rintro c ⟨⟩
  rfl

theorem readItems?_of_value {fuel : Nat} {s r t : List Char} {c : Char} {v : Json}
    (hs : skipGap s = c :: r) (hc : c ≠ ']') (hv : readValue? fuel (c :: r) = some (v, t)) :
    readItems? (fuel + 1) s = match skipGap t with
      | ',' :: u => (readItems? fuel u).map fun (vs, x) => (v :: vs, x)
      | ']' :: u => some ([v], u)
      | _ => none := by
  rw [readItems?, hs]
  split
  · next heq => exact absurd (List.cons.inj heq).1 hc
  · generalize readValue? fuel (c :: r) = read at hv ⊢
    subst hv
    rfl

theorem readFields?_of_value {fuel : Nat} {s r t : List Char} {k : String} {v : Json}
    (hs : skipGap s = '"' :: (k.toList.flatMap escapeChar ++ '"' :: ':' :: r))
    (hv : readValue? fuel r = some (v, t)) :
    readFields? (fuel + 1) s = match skipGap t with
      | ',' :: u => (readFields? fuel u).map fun (fs, x) => ((k, v) :: fs, x)
      | '\x7d' :: u => some ([(k, v)], u)
      | _ => none := by
  have hcolon : skipGap (':' :: r) = ':' :: r := skipGap_cons r rfl
  rw [readFields?, hs]
  simp only [readText?_quoted, hcolon, String.ofList_toList]
  generalize readValue? fuel r = read at hv ⊢
  subst hv
  rfl

mutual

/-- A written value is read back, whatever blanks stand before it. -/
theorem readValue?_pretty (depth : Nat) {v : Json} {fuel : Nat} {s rest : List Char}
    (hv : v.Written) (hf : v.size ≤ fuel) (hs : skipGap s = prettyChars depth v ++ rest)
    (hrest : Ends rest) : readValue? fuel s = some (v, rest) := by
  have hsize : 0 < v.size := by
    cases v <;> exact Nat.succ_pos _
  obtain ⟨fuel, rfl⟩ : ∃ n, fuel = n + 1 :=
    Nat.exists_eq_add_one_of_ne_zero (Nat.ne_of_gt (Nat.lt_of_lt_of_le hsize hf))
  cases v with
  | null =>
    rw [readValue?, hs]
    rfl
  | bool b =>
    rw [readValue?, hs]
    cases b <;> rfl
  | number literal => exact readValue?_number fuel hv hs hrest
  | string x =>
    have hs : skipGap s = '"' :: (x.toList.flatMap escapeChar ++ '"' :: rest) := by
      rw [hs, prettyChars, quoted, List.cons_append, List.append_assoc]
      rfl
    rw [readValue?, hs]
    simp only [readText?_quoted, Option.map_some, String.ofList_toList]
  | array items =>
    cases items with
    | nil =>
      obtain ⟨n, rfl⟩ : ∃ n, fuel = n + 1 :=
        Nat.exists_eq_add_one_of_ne_zero (Nat.ne_of_gt (Nat.le_of_succ_le_succ hf))
      rw [readValue?, hs]
      rfl
    | cons w ws =>
      have hitems := readItems?_pretty depth (depth + 1) hv (Nat.le_of_succ_le_succ hf) rest
      have hs : skipGap s =
          '[' :: (prettyItems (depth + 1) (w :: ws) ++ newLine depth ++ ']' :: rest) := by
        rw [hs, prettyChars, List.cons_append, List.append_assoc]
        · rfl
        · exact nofun
      rw [readValue?, hs]
      simp only [hitems, Option.map_some]
  | object fields =>
    cases fields with
    | nil =>
      obtain ⟨n, rfl⟩ : ∃ n, fuel = n + 1 :=
        Nat.exists_eq_add_one_of_ne_zero (Nat.ne_of_gt (Nat.le_of_succ_le_succ hf))
      rw [readValue?, hs]
      rfl
    | cons w ws =>
      have hfields := readFields?_pretty depth (depth + 1) hv (Nat.le_of_succ_le_succ hf) rest
      have hs : skipGap s = '\x7b' ::
          (prettyFields (depth + 1) (w :: ws) ++ newLine depth ++ '\x7d' :: rest) := by
        rw [hs, prettyChars, List.cons_append, List.append_assoc]
        · rfl
        · exact nofun
      rw [readValue?, hs]
      simp only [hfields, Option.map_some]
termination_by fuel

theorem readItems?_pretty (outer depth : Nat) {v : Json} {vs : List Json} {fuel : Nat}
    (hv : WrittenItems (v :: vs)) (hf : sizeItems (v :: vs) ≤ fuel) (rest : List Char) :
    readItems? fuel (prettyItems depth (v :: vs) ++ newLine outer ++ ']' :: rest) =
      some (v :: vs, rest) := by
  obtain ⟨fuel, rfl⟩ : ∃ n, fuel = n + 1 :=
    Nat.exists_eq_add_one_of_ne_zero (Nat.ne_of_gt (Nat.lt_of_lt_of_le (Nat.succ_pos _) hf))
  obtain ⟨c, r, hhead, hgap, hc⟩ := prettyChars_head depth hv.1
  have hsize : size v + sizeItems vs ≤ fuel := Nat.le_of_succ_le_succ hf
  have hvalue : ∀ t, Ends t → readValue? fuel (c :: (r ++ t)) = some (v, t) := by
    intro t ht
    refine readValue?_pretty depth hv.1 (by omega) ?_ ht
    rw [skipGap_cons _ hgap, hhead, List.cons_append]
  cases vs with
  | nil =>
    have hs : skipGap (prettyItems depth [v] ++ newLine outer ++ ']' :: rest) =
        c :: (r ++ (newLine outer ++ ']' :: rest)) := by
      rw [prettyItems, hhead, List.append_assoc, List.append_assoc, skipGap_newLine,
        List.cons_append, skipGap_cons _ hgap]
    rw [readItems?_of_value hs hc (hvalue _ (ends_newLine outer _)), skipGap_newLine,
      skipGap_cons rest rfl]
    rfl
  | cons w ws =>
    have hrest : sizeItems (w :: ws) ≤ fuel := by omega
    have hitems := readItems?_pretty outer depth hv.2 hrest rest
    have hs : skipGap (prettyItems depth (v :: w :: ws) ++ newLine outer ++ ']' :: rest) =
        c :: (r ++ (',' :: (prettyItems depth (w :: ws) ++ newLine outer ++ ']' :: rest))) := by
      rw [prettyItems, hhead, List.append_assoc, List.append_assoc, List.append_assoc,
        skipGap_newLine, List.cons_append, skipGap_cons _ hgap]
      · simp only [List.append_assoc, List.cons_append]
      · exact nofun
    rw [readItems?_of_value hs hc (hvalue _ (ends_comma _)), skipGap_cons _ rfl]
    simp only [hitems, Option.map_some]
termination_by fuel

theorem readFields?_pretty (outer depth : Nat) {f : String × Json} {fs : List (String × Json)}
    {fuel : Nat} (hv : WrittenFields (f :: fs)) (hf : sizeFields (f :: fs) ≤ fuel)
    (rest : List Char) :
    readFields? fuel (prettyFields depth (f :: fs) ++ newLine outer ++ '\x7d' :: rest) =
      some (f :: fs, rest) := by
  obtain ⟨fuel, rfl⟩ : ∃ n, fuel = n + 1 :=
    Nat.exists_eq_add_one_of_ne_zero (Nat.ne_of_gt (Nat.lt_of_lt_of_le (Nat.succ_pos _) hf))
  obtain ⟨k, v⟩ := f
  obtain ⟨c, r, hhead, hgap, -⟩ := prettyChars_head depth hv.1
  have hsize : size v + sizeFields fs ≤ fuel := Nat.le_of_succ_le_succ hf
  have hvalue : ∀ t, Ends t →
      readValue? fuel (' ' :: (prettyChars depth v ++ t)) = some (v, t) := by
    intro t ht
    refine readValue?_pretty depth hv.1 (by omega) ?_ ht
    rw [hhead, List.cons_append]
    exact skipGap_cons _ hgap
  have hquote : ∀ t, skipGap (newLine depth ++ (quoted k ++ t)) =
      '"' :: (k.toList.flatMap escapeChar ++ '"' :: t) := by
    intro t
    rw [skipGap_newLine, quoted, List.cons_append, skipGap_cons _ rfl, List.append_assoc]
    rfl
  cases fs with
  | nil =>
    have hs : skipGap (prettyFields depth [(k, v)] ++ newLine outer ++ '\x7d' :: rest) =
        '"' :: (k.toList.flatMap escapeChar ++ '"' :: ':' :: ' ' ::
          (prettyChars depth v ++ (newLine outer ++ '\x7d' :: rest))) := by
      rw [← hquote, prettyFields]
      simp only [List.append_assoc, List.cons_append]
    rw [readFields?_of_value hs (hvalue _ (ends_newLine outer _)), skipGap_newLine,
      skipGap_cons rest rfl]
    rfl
  | cons w ws =>
    have hrest : sizeFields (w :: ws) ≤ fuel := by omega
    have hfields := readFields?_pretty outer depth hv.2 hrest rest
    have hs : skipGap (prettyFields depth ((k, v) :: w :: ws) ++ newLine outer ++ '\x7d' :: rest) =
        '"' :: (k.toList.flatMap escapeChar ++ '"' :: ':' :: ' ' :: (prettyChars depth v ++
          ',' :: (prettyFields depth (w :: ws) ++ newLine outer ++ '\x7d' :: rest))) := by
      rw [← hquote, prettyFields]
      · simp only [List.append_assoc, List.cons_append]
      · exact nofun
    rw [readFields?_of_value hs (hvalue _ (ends_comma _)), skipGap_cons _ rfl]
    simp only [hfields, Option.map_some]
termination_by fuel

end

/-! ## Documents -/

theorem length_newLine_pos (depth : Nat) : 0 < (newLine depth).length := Nat.succ_pos _

mutual

/-- The text of a value is as long as reading it takes steps. -/
theorem size_le_length (depth : Nat) :
    ∀ {v : Json}, v.Written → v.size ≤ (prettyChars depth v).length
  | .null, _ => Nat.le_add_left 1 3
  | .bool true, _ => Nat.le_add_left 1 3
  | .bool false, _ => Nat.le_add_left 1 4
  | .number literal, h => by
    obtain ⟨c, r, hhead, -, -⟩ := prettyChars_head depth h
    rw [hhead]
    exact Nat.succ_pos _
  | .string s, _ => Nat.succ_pos _
  | .array [], _ => Nat.le_refl 2
  | .array (v :: vs), h => by
    have := sizeItems_le_length (depth + 1) h
    rw [size, prettyChars]
    · simp only [List.length_cons, List.length_append, List.length_nil]
      omega
    · exact nofun
  | .object [], _ => Nat.le_refl 2
  | .object (f :: fs), h => by
    have := sizeFields_le_length (depth + 1) h
    rw [size, prettyChars]
    · simp only [List.length_cons, List.length_append, List.length_nil]
      omega
    · exact nofun

theorem sizeItems_le_length (depth : Nat) : ∀ {vs : List Json}, WrittenItems vs →
    sizeItems vs ≤ (prettyItems depth vs).length + 1
  | [], _ => Nat.le_refl 1
  | [v], h => by
    have hvalue := size_le_length depth h.1
    have hline := length_newLine_pos depth
    simp only [sizeItems, prettyItems, List.length_append]
    omega
  | v :: w :: ws, h => by
    have hvalue := size_le_length depth h.1
    have hline := length_newLine_pos depth
    have hrest := sizeItems_le_length depth h.2
    rw [sizeItems, prettyItems]
    · simp only [List.length_append, List.length_cons]
      omega
    · exact nofun

theorem sizeFields_le_length (depth : Nat) : ∀ {fs : List (String × Json)}, WrittenFields fs →
    sizeFields fs ≤ (prettyFields depth fs).length + 1
  | [], _ => Nat.le_refl 1
  | [(k, v)], h => by
    have hvalue := size_le_length depth h.1
    have hline := length_newLine_pos depth
    simp only [sizeFields, prettyFields, List.length_append, List.length_cons]
    omega
  | (k, v) :: f :: fs, h => by
    have hvalue := size_le_length depth h.1
    have hline := length_newLine_pos depth
    have hrest := sizeFields_le_length depth h.2
    rw [sizeFields, prettyFields]
    · simp only [List.length_append, List.length_cons]
      omega
    · exact nofun

end

/-- The reader gives back every value that the writer has written. -/
theorem ofText?_pretty {v : Json} (h : v.Written) : ofText? v.pretty = some v := by
  have htext : v.pretty.toList = prettyChars 0 v := String.toList_ofList
  obtain ⟨c, r, hhead, hgap, -⟩ := prettyChars_head 0 h
  have hskip : skipGap (prettyChars 0 v) = prettyChars 0 v ++ [] := by
    rw [List.append_nil, hhead]
    exact skipGap_cons r hgap
  have hfuel : v.size ≤ 2 * v.pretty.length + 2 := by
    have := size_le_length 0 h
    rw [← htext, String.length_toList] at this
    omega
  rw [ofText?, htext, readValue?_pretty 0 h hfuel hskip (by rintro _ ⟨⟩)]
  rfl

/-! ## Typed values -/

theorem readField?_of_filter {α : Type} (read : Json → Option α) {name : String}
    {fields : List (String × Json)} {v : Json}
    (hf : fields.filter (fun f => f.1 == name) = [(name, v)]) :
    readField? read name fields = (read v).map some := by
  rw [readField?, hf, List.foldlM_cons]
  cases read v <;> rfl

theorem asNat?_ofNat {limit : Nat} (hlimit : 0 < limit) (n : Nat) :
    asNat? limit (ofNat n) = if n < limit then some n else none := by
  show decimalNat? limit (String.ofList _).toList = _
  rw [String.toList_ofList]
  exact decimalNat?_digits hlimit n

theorem asOptionalText?_ofOption (s : Option String) : asOptionalText? (ofOption s) = some s := by
  cases s <;> rfl

theorem asList?_map {α : Type} {read : Json → Option α} {write : α → Json} {l : List α}
    (h : ∀ a ∈ l, read (write a) = some a) : asList? read (.array (l.map write)) = some l := by
  show (l.map write).mapM read = some l
  induction l with
  | nil => rfl
  | cons a l ih =>
    rw [List.map_cons, List.mapM_cons, h a List.mem_cons_self,
      ih fun b hb => h b (List.mem_cons_of_mem _ hb)]
    rfl

theorem written_ofNat (n : Nat) : (ofNat n).Written := by
  show isNumber (String.ofList _).toList = true ∧
    ∀ c ∈ (String.ofList _).toList, isNumberChar c = true
  rw [String.toList_ofList]
  refine ⟨isNumber_of_digits Nat.toDigits_ne_nil (digits_isDigit n), fun c hc => ?_⟩
  rw [isNumberChar, digits_isDigit n c hc]
  rfl

theorem writtenItems_map {α : Type} (write : α → Json) (h : ∀ a, (write a).Written) (l : List α) :
    WrittenItems (l.map write) := by
  induction l with
  | nil => trivial
  | cons a l ih => exact ⟨h a, ih⟩

end SpecLinkage.Json
