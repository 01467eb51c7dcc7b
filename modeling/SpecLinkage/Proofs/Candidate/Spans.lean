import SpecLinkage.Proofs.Candidate.Lines

/-! # Where the span of a candidate lies

The span of a candidate lies in its line, from an `@` in a comment on.

* `readClause_inv`: what a clause has from the text it was read from and from what it left, by the
  readers in turn.
* `commentText?_inv`: what stands before an `@` of a comment.
* `Cut`: a text cut around a TAG, `Cut.Fits`: a TAG that stands there.
* `exists_cut_of_mem_scanComment`: the scan of a comment keeps its place in it.
* `exists_cut_of_mem_onLine` is the result for a line. -/

namespace SpecLinkage.Candidate

open Text

variable {s t rest line : List Char} {offset : Nat}

/-! ## What the readers leave -/

theorem readSeparator_suffix (h : readSeparator s = some t) : t <:+ s := by
  cases s with
  | nil => cases h
  | cons c s =>
    rw [readSeparator] at h
    split at h
    · cases h
      exact List.suffix_cons c _
    · split at h
      · cases h
        exact List.suffix_refl _
      · cases h

theorem trimToken_prefix (s : List Char) : trimToken s <+: s := by
  have hclosers : trimClosers s <+: s := by
    refine List.IsPrefix.trans ?_ <| dropEndWhile_prefix isBlank s
    refine List.IsPrefix.trans ?_ <| dropSuffix_prefix "*/".toList _
    refine List.IsPrefix.trans ?_ <| dropSuffix_prefix "-->".toList _
    exact dropEndWhile_prefix isBlank _
  refine List.IsPrefix.trans ?_ hclosers
  exact dropEndWhile_prefix isTrailingPunctuation _

/-- The head is read from a keyword and an identifier without blanks, and up to a blank. -/
theorem readHead_inv {keyword : Keyword} {id : List Char}
    (h : readHead s = some ((keyword, id), rest)) :
    (∃ v, s = keyword.text.toList ++ v ∧ rest <:+ v) ∧ id ≠ [] ∧
      (∀ c ∈ id, isBlank c = false) ∧ StartsBlank rest := by
  unfold readHead at h
  split at h
  · cases h
  · next k hk =>
    have hupper : s.takeWhile Char.isUpper = k.text.toList := by
      rw [← Keyword.ofText?_eq_some_iff.1 hk, String.toList_ofList]
    split at h
    · cases h
    · next t ht =>
      dsimp only at h
      split at h
      · cases h
      · next hid =>
        cases h
        have htoken := trimToken_prefix (word (trimStart t))
        refine ⟨⟨s.dropWhile Char.isUpper, ?_, ?_⟩, hid, fun c hc => ?_, startsBlank_afterWord _⟩
        · rw [← hupper, List.takeWhile_append_dropWhile]
        · exact (afterWord_suffix _).trans ((trimStart_suffix t).trans (readSeparator_suffix ht))
        · exact isBlank_word c (htoken.subset hc)

theorem readHead_suffix {head : Keyword × List Char} (h : readHead s = some (head, rest)) :
    rest <:+ s := by
  obtain ⟨⟨v, rfl, hrest⟩, -⟩ := readHead_inv h
  exact hrest.trans (List.suffix_append _ v)

theorem readVerb_rest {verb : List Char} (h : readVerb s = .written verb rest) :
    rest = afterWord (trimStart s) := by
  unfold readVerb at h
  dsimp only at h
  split at h
  · split at h
    · cases h
      rfl
    · cases h
  · cases h

theorem readVerb_suffix {verb : List Char} (h : readVerb s = .written verb rest) : rest <:+ s := by
  rw [readVerb_rest h]
  exact (afterWord_suffix _).trans (trimStart_suffix s)

/-- Behind identifier and verb either everything belongs to the TAG, or nothing does. -/
theorem readTail_rest (s : List Char) : (readTail s).2 = [] ∨ (readTail s).2 = s := by
  unfold readTail
  dsimp only
  split
  · exact .inl rfl
  · split
    · exact .inl rfl
    · exact .inr rfl

theorem readTail_suffix (s : List Char) : (readTail s).2 <:+ s := by
  rcases readTail_rest s with h | h
  · rw [h]
    exact List.nil_suffix
  · exact ⟨[], by rw [h, List.nil_append]⟩

theorem readTail_startsBlank (h : StartsBlank s) : StartsBlank (readTail s).2 := by
  rcases readTail_rest s with hs | hs <;> rw [hs]
  · exact startsBlank_nil
  · exact h

/-- What a clause has from the text it was read from, and from the text that it left. -/
structure ReadFrom (clause : Clause) (s rest : List Char) : Prop where
  keyword : ∃ v, s = clause.keyword.text.toList ++ v ∧ rest <:+ v
  specId : clause.specId ≠ ""
  visible : ∀ c ∈ clause.specId.toList, isBlank c = false
  startsBlank : StartsBlank rest

theorem readClause_inv {clause : Clause} (h : readClause s = some (clause, rest)) :
    ReadFrom clause s rest := by
  unfold readClause at h
  split at h
  · cases h
  · next keyword id t hhead =>
    obtain ⟨⟨v, hv, ht⟩, hid, hvisible, hblank⟩ := readHead_inv hhead
    have hne : String.ofList id ≠ "" := fun h => hid (String.ofList_eq_empty_iff.1 h)
    have hchars : ∀ c ∈ (String.ofList id).toList, isBlank c = false := by
      rwa [String.toList_ofList]
    dsimp only at h
    split at h
    · cases h
      exact ⟨⟨v, hv, ht⟩, hne, hchars, hblank⟩
    · cases h
      exact ⟨⟨v, hv, (readTail_suffix t).trans ht⟩, hne, hchars, readTail_startsBlank hblank⟩
    · next verb t' hverb =>
      cases h
      have ht' : StartsBlank t' := by
        rw [readVerb_rest hverb]
        exact startsBlank_afterWord _
      exact ⟨⟨v, hv, (readTail_suffix t').trans ((readVerb_suffix hverb).trans ht)⟩, hne, hchars,
        readTail_startsBlank ht'⟩

theorem readClause_suffix {clause : Clause} (h : readClause s = some (clause, rest)) :
    rest <:+ s := by
  obtain ⟨v, rfl, hrest⟩ := (readClause_inv h).keyword
  exact hrest.trans (List.suffix_append _ v)

theorem fromMarker?_suffix (h : fromMarker? s = some t) : t <:+ s := by
  induction s with
  | nil => cases h
  | cons c s ih =>
    rw [fromMarker?] at h
    split at h
    · cases h
      exact List.suffix_refl _
    · exact (ih h).trans (List.suffix_cons c s)

theorem commentText?_suffix (h : commentText? line = some t) : t <:+ line := by
  unfold commentText? at h
  split at h
  · next hstar =>
    cases h
    rw [← hstar]
    exact trimStart_suffix line
  · exact fromMarker?_suffix h

/-! ## Comments -/

/-- Whether a comment opens in what stands before an `@` of a line. -/
def OpensComment (before : List Char) : Prop :=
  (∃ m ∈ commentMarkers, m <:+: before) ∨ (trimStart before).head? = some '*'

theorem fromMarker?_inv (h : fromMarker? s = some t) : ∃ m ∈ commentMarkers, m <+: t := by
  induction s with
  | nil => cases h
  | cons c s ih =>
    rw [fromMarker?] at h
    split at h
    · next hany =>
      cases h
      obtain ⟨m, hm, hstarts⟩ := List.any_eq_true.1 hany
      obtain ⟨r, hr⟩ := startsWith_iff.1 hstarts
      exact ⟨m, hm, r, hr.symm⟩
    · exact ih h

/-- Before an `@` of the comment stands what opens the comment. -/
theorem commentText?_inv {b : List Char} (h : commentText? line = some (b ++ '@' :: t)) :
    b ≠ [] ∧ ∃ u, line = u ++ (b ++ '@' :: t) ∧ OpensComment (u ++ b) := by
  unfold commentText? at h
  split at h
  · next s hstar =>
    rw [Option.some_inj] at h
    rcases b with _ | ⟨c, b⟩
    · cases h
    · obtain ⟨rfl, -⟩ := List.cons.inj h
      have hindent : ∀ c ∈ line.takeWhile isBlank, isBlank c = true :=
        List.all_eq_true.1 List.all_takeWhile
      have hline : line.takeWhile isBlank ++ trimStart line = line :=
        List.takeWhile_append_dropWhile
      refine ⟨List.cons_ne_nil _ _, line.takeWhile isBlank, ?_, .inr ?_⟩
      · rw [← h, ← hstar, hline]
      · rw [trimStart_append hindent]
        rfl
  · obtain ⟨u, hu⟩ := fromMarker?_suffix h
    obtain ⟨m, hm, hstarts⟩ := fromMarker?_inv h
    have hmarkers : ∀ m ∈ commentMarkers, m ≠ [] ∧ '@' ∉ m := by decide
    obtain ⟨hne, hat⟩ := hmarkers m hm
    have hbefore : m <+: b := by
      rcases List.prefix_or_prefix_of_prefix hstarts (List.prefix_append b _) with hb | ⟨r, rfl⟩
      · exact hb
      · rcases r with _ | ⟨d, r⟩
        · exact ⟨[], by rw [List.append_nil, List.append_nil]⟩
        · obtain ⟨rfl, -⟩ := List.cons_prefix_cons.1 ((List.prefix_append_right_inj b).1 hstarts)
          exact absurd (by simp) hat
    refine ⟨fun hb => hne (List.prefix_nil.1 (hb ▸ hbefore)), u, hu.symm, .inl ⟨m, hm, ?_⟩⟩
    exact hbefore.isInfix.trans (List.suffix_append u b).isInfix

/-! ## Where candidates stand -/

/-- A text cut around a TAG. -/
structure Cut where
  before : List Char
  /-- What belongs to the TAG behind its `@`. -/
  said : List Char
  after : List Char

namespace Cut

def text (cut : Cut) : List Char := cut.before ++ '@' :: (cut.said ++ cut.after)

/-- The cut in a text with more in front. -/
def behind (u : List Char) (cut : Cut) : Cut := { cut with before := u ++ cut.before }

theorem text_behind (u : List Char) (cut : Cut) : (cut.behind u).text = u ++ cut.text :=
  List.append_assoc u _ _

/-- The cut is around a TAG of a text that starts at byte `start`. -/
structure Fits (cut : Cut) (start : Nat) (clause : Clause) (span : Span) : Prop where
  offset : span.offset = start + utf8Length cut.before
  length : span.length = utf8Length ('@' :: cut.said)
  keyword : clause.keyword.text.toList <+: cut.said
  specId : clause.specId ≠ ""
  visible : ∀ c ∈ clause.specId.toList, isBlank c = false

theorem Fits.behind {cut : Cut} {start : Nat} {clause : Clause} {span : Span} {u : List Char}
    (h : cut.Fits (start + utf8Length u) clause span) : (cut.behind u).Fits start clause span :=
  { h with offset := by rw [h.offset, Cut.behind, utf8Length_append, Nat.add_assoc] }

end Cut

theorem opensTag_iff {before : Option Char} :
    opensTag before = true ↔ ∀ c ∈ before, c.isAlphanum = false := by
  cases before <;> simp [opensTag]

/-- A TAG of a comment stands where its span says, and a TAG may open there. -/
theorem exists_cut_of_mem_scanComment {before : Option Char} {x : Clause × Span}
    (h : x ∈ scanComment before offset s) :
    ∃ cut : Cut, s = cut.text ∧ cut.Fits offset x.1 x.2 ∧
      opensTag (cut.before.getLast?.or before) = true := by
  -- along the scan; what was passed is put in front of what the rest gives
  fun_induction scanComment before offset s with
  | case1 => cases h
  | case2 before offset c s hat clause rest hread length ih =>
    obtain ⟨rfl, hopens⟩ := hat
    obtain ⟨⟨v, hv, w, rfl⟩, hid, hvisible, hblank⟩ := readClause_inv hread
    have hs : '@' :: s = '@' :: (clause.keyword.text.toList ++ w) ++ rest := by rw [hv]; simp
    have hlength : length = utf8Length ('@' :: (clause.keyword.text.toList ++ w)) := by
      show utf8Length ('@' :: s) - _ = _
      rw [hs, utf8Length_append, Nat.add_sub_cancel]
    rcases List.mem_cons.1 h with rfl | h
    · exact ⟨⟨[], clause.keyword.text.toList ++ w, rest⟩, hs,
        ⟨rfl, hlength, List.prefix_append _ w, hid, hvisible⟩, hopens⟩
    · obtain ⟨cut, rfl, hfits, hfree⟩ := ih h
      -- the TAG before it ends at a blank, so this one does not start right behind it
      obtain ⟨d, hd⟩ : ∃ d, cut.before.getLast? = some d := by
        rw [← Option.isSome_iff_exists, List.getLast?_isSome]
        intro hnil
        have hat := hblank '@' (by rw [Cut.text, hnil]; rfl)
        revert hat
        decide
      rw [hlength] at hfits
      refine ⟨cut.behind _, hs.trans (cut.text_behind _).symm, hfits.behind, ?_⟩
      rw [hd] at hfree
      rw [Cut.behind, List.getLast?_append, hd]
      exact hfree
  | case3 before offset c s hat hread ih =>
    obtain ⟨cut, rfl, hfits, hfree⟩ := ih h
    exact ⟨cut.behind [c], rfl, hfits.behind, (getLast?_cons_or c _ before).symm ▸ hfree⟩
  | case4 before offset c s hat ih =>
    obtain ⟨cut, rfl, hfits, hfree⟩ := ih h
    exact ⟨cut.behind [c], rfl, hfits.behind, (getLast?_cons_or c _ before).symm ▸ hfree⟩

/-- A candidate of a line stands where its span says, in a comment. -/
theorem exists_cut_of_mem_onLine {path : String} {number : Nat} {c : Candidate}
    (h : c ∈ onLine path number offset line) :
    ∃ cut : Cut, line = cut.text ∧ cut.Fits offset c.clause c.span ∧
      (∀ d ∈ cut.before.getLast?, d.isAlphanum = false) ∧ OpensComment cut.before := by
  obtain ⟨x, hx, rfl⟩ := List.mem_map.1 h
  unfold scanLine at hx
  dsimp only at hx
  obtain ⟨closing, hclosing⟩ := dropSuffix_prefix ['\r'] line
  split at hx
  · cases hx
  · next comment hcomment =>
    obtain ⟨cut, rfl, hfits, hfree⟩ := exists_cut_of_mem_scanComment hx
    obtain ⟨hne, w, hw, hopens⟩ := commentText?_inv hcomment
    have hoffset : utf8Length (dropSuffix ['\r'] line) - utf8Length cut.text = utf8Length w := by
      rw [hw, utf8Length_append]
      exact Nat.add_sub_cancel _ _
    rw [hoffset] at hfits
    refine ⟨⟨w ++ cut.before, cut.said, cut.after ++ closing⟩, ?_, { hfits.behind with }, ?_,
      hopens⟩
    · rw [← hclosing, hw]
      simp [Cut.text]
    · obtain ⟨d, hd⟩ := Option.isSome_iff_exists.1 (List.getLast?_isSome.2 hne)
      rw [hd] at hfree
      rw [List.getLast?_append, hd]
      exact opensTag_iff.1 hfree

/-- A candidate of a line starts at an `@` of it. -/
theorem exists_at_of_mem_onLine {path : String} {number : Nat} {c : Candidate}
    (h : c ∈ onLine path number offset line) :
    ∃ u v, line = u ++ '@' :: v ∧ c.span.offset = offset + utf8Length u := by
  obtain ⟨cut, hline, hfits, -⟩ := exists_cut_of_mem_onLine h
  exact ⟨cut.before, cut.said ++ cut.after, hline, hfits.offset⟩

end SpecLinkage.Candidate
