import Mathlib.Data.List.Forall2
import SpecLinkage.Proofs.Order.Listing
import SpecLinkage.Proofs.Policy.Gate

/-! # Links that are stated again

A tag is reported as a duplicate if an earlier tag of its file states the same link.  The check
reads the tags once and remembers the line of each link in a map, under the texts of spec and verb;
what is reported depends on the tags alone.

* `RemembersLines`: what the map says about the tags that were read, from one tag to the next.
* `repeatPlaces`: the places of the tags that are reported.
* `Policy.length_checkDuplicates`: all tags but the first of each link are reported.
* `Policy.duplicates_exact` is the result. -/

namespace SpecLinkage

/-! ## Links -/

theorem Verb.text_injective {a b : Verb} (h : a.text = b.text) : a = b :=
  Option.some.inj ((ofText?_text a).symm.trans (ofText?_eq_some_iff.2 h))

theorem Tag.sameLink_iff {a b : Tag} : a.sameLink b = true ↔ a.link = b.link := beq_iff_eq

/-- The texts under which a link is remembered tell it apart. -/
theorem LinkKey.ofTag_eq_iff {a b : Tag} : ofTag a = ofTag b ↔ a.link = b.link := by
  rw [ofTag, ofTag, LinkKey.mk.injEq, Tag.link, Tag.link, Prod.mk.injEq, Prod.mk.injEq]
  exact and_congr ⟨SpecId.text_injective, congrArg _⟩
    (and_congr_left' ⟨Verb.text_injective, congrArg _⟩)

/-- The links that some tags state, each once. -/
def linksOf (tags : List Tag) : List (SpecId × Verb × Category) := (tags.map Tag.link).eraseDups

theorem mem_linksOf {tags : List Tag} {l : SpecId × Verb × Category} :
    l ∈ linksOf tags ↔ l ∈ tags.map Tag.link := by
  rw [linksOf, List.mem_eraseDups]

/-- The first of some tags that states the link of a tag. -/
def firstLike (tags : List Tag) (t : Tag) : Option Tag := tags.find? fun e => e.sameLink t

section
variable {tags earlier : List Tag} {t t' : Tag}

theorem isSome_firstLike : (firstLike tags t).isSome = true ↔ t.link ∈ tags.map Tag.link := by
  rw [firstLike, List.find?_isSome, List.mem_map]
  simp only [Tag.sameLink_iff]

theorem firstLike_eq_none : firstLike tags t = none ↔ t.link ∉ tags.map Tag.link := by
  rw [← isSome_firstLike, Option.not_isSome_iff_eq_none]

theorem firstLike_concat : firstLike (earlier ++ [t']) t =
    (firstLike earlier t).or (if t'.link = t.link then some t' else none) := by
  rw [firstLike, List.find?_append, List.find?_singleton]
  simp only [Tag.sameLink_iff]
  rfl

end

/-! ## Reading the tags -/

/-- The map has the line of the first of the earlier tags with each link. -/
def RemembersLines (seen : SortedMap LinkKey Nat) (earlier : List Tag) : Prop :=
  ∀ t, seen.get? (.ofTag t) = (firstLike earlier t).map Tag.line

namespace RemembersLines

variable {seen : SortedMap LinkKey Nat} {earlier : List Tag} {t : Tag}

theorem nil : RemembersLines {} [] := fun _ => rfl

/-- A link that is stated again is already in the map. -/
theorem again (h : RemembersLines seen earlier) (ht : t.link ∈ earlier.map Tag.link) :
    RemembersLines seen (earlier ++ [t]) := by
  intro t'
  rw [h, firstLike_concat]
  by_cases hlink : t.link = t'.link
  · obtain ⟨first, hfirst⟩ := Option.isSome_iff_exists.1 (isSome_firstLike.2 (hlink ▸ ht))
    rw [hfirst, Option.some_or]
  · rw [if_neg hlink, Option.or_none]

/-- A new link is put into the map. -/
theorem new (h : RemembersLines seen earlier) (ht : t.link ∉ earlier.map Tag.link) :
    RemembersLines (seen.insert (.ofTag t) t.line) (earlier ++ [t]) := by
  intro t'
  rw [firstLike_concat]
  by_cases hlink : t.link = t'.link
  · rw [LinkKey.ofTag_eq_iff.2 hlink.symm, SortedMap.get?_insert_self, if_pos hlink,
      firstLike_eq_none.2 (hlink ▸ ht), Option.none_or, Option.map_some]
  · have hkey : LinkKey.ofTag t' ≠ .ofTag t := fun he => hlink (LinkKey.ofTag_eq_iff.1 he).symm
    rw [SortedMap.get?_insert_of_ne _ _ hkey, h, if_neg hlink, Option.or_none]

end RemembersLines

/-! ## Places -/

/-- Whether the tag at place `i` states the link of an earlier one. -/
def isRepeat (tags : List Tag) (i : Nat) : Bool :=
  tags[i]?.any fun t => (tags.take i).any fun e => e.sameLink t

/-- The places of the tags that state the link of an earlier one. -/
def repeatPlaces (tags : List Tag) : List Nat := (List.range tags.length).filter (isRepeat tags)

section
variable {tags earlier later : List Tag} {t : Tag} {i : Nat} {l : SpecId × Verb × Category}

theorem isRepeat_append :
    isRepeat (earlier ++ t :: later) earlier.length = true ↔ t.link ∈ earlier.map Tag.link := by
  rw [isRepeat, List.getElem?_append_right (Nat.le_refl _), Nat.sub_self, List.getElem?_cons_zero,
    Option.any_some, List.take_left, List.any_eq_true, List.mem_map]
  simp only [Tag.sameLink_iff]

theorem mem_repeatPlaces_iff : i ∈ repeatPlaces tags ↔
    ∃ t, tags[i]? = some t ∧ ∃ e ∈ tags.take i, e.sameLink t = true := by
  rw [repeatPlaces, List.mem_filter, List.mem_range, isRepeat, Option.any_eq_true,
    and_iff_right_of_imp]
  · simp only [List.any_eq_true]
  · rintro ⟨t, ht, -⟩
    exact (List.getElem?_eq_some_iff.1 ht).1

theorem mem_repeatPlaces_iff_link (ht : tags[i]? = some t) :
    i ∈ repeatPlaces tags ↔ t.link ∈ (tags.take i).map Tag.link := by
  rw [mem_repeatPlaces_iff, ht, List.mem_map]
  simp only [Option.some.injEq, exists_eq_left', Tag.sameLink_iff]

/-- The first place of a link is the one with no such link before it. -/
theorem eq_idxOf_iff_notMem_take {links : List (SpecId × Verb × Category)} (hl : l ∈ links) :
    i = links.idxOf l ↔ links[i]? = some l ∧ l ∉ links.take i := by
  have hlength := List.idxOf_lt_length_iff.2 hl
  constructor
  · rintro rfl
    refine ⟨List.getElem?_idxOf hl, fun h => ?_⟩
    obtain ⟨j, hj, hjl⟩ := List.mem_take_iff_getElem.1 h
    have hbefore := List.not_of_lt_findIdx (Nat.lt_of_lt_of_le hj (Nat.min_le_left _ _))
    exact absurd hjl (beq_eq_false_iff_ne.1 hbefore)
  · rintro ⟨hi, hbefore⟩
    obtain ⟨hilength, hil⟩ := List.getElem?_eq_some_iff.1 hi
    symm
    rw [List.idxOf, List.findIdx_eq hilength, beq_iff_eq]
    refine ⟨hil, fun j hj => beq_eq_false_iff_ne.2 fun hjl => hbefore ?_⟩
    exact List.mem_take_iff_getElem.2 ⟨j, Nat.lt_min.2 ⟨hj, Nat.lt_trans hj hilength⟩, hjl⟩

/-- A link has one place that repeats no earlier one: its first. -/
theorem eq_idxOf_iff (hl : l ∈ tags.map Tag.link) :
    (tags[i]?.map Tag.link = some l ∧ i ∉ repeatPlaces tags) ↔
      i = (tags.map Tag.link).idxOf l := by
  rw [eq_idxOf_iff_notMem_take hl, List.getElem?_map]
  refine and_congr_right fun hi => ?_
  obtain ⟨t, ht, rfl⟩ := Option.map_eq_some_iff.1 hi
  rw [mem_repeatPlaces_iff_link ht, List.map_take]

end

/-! ## The check -/

/-- What the violation for a tag says that states the link of an earlier one. -/
structure Violation.TellsRepeat (v : Violation) (path : String) (again first : Tag) : Prop where
  rule : v.rule = .duplicateTags
  filePath : v.filePath = path
  specId : v.specId = some again.specId.text
  line : v.line = some again.line
  message : v.message = "@" ++ again.category.text ++ ":" ++ again.specId.text ++ " " ++
    again.verb.text ++ " repeats the TAG on line " ++ toString first.line
  fix : v.fix = some ("remove line " ++ toString again.line)

/-- What the violation for a place says about the tags there and at the first place with the same
link. -/
def TellsPlace (path : String) (tags : List Tag) (i : Nat) (v : Violation) : Prop :=
  ∃ again first, tags[i]? = some again ∧ firstLike (tags.take i) again = some first ∧
    v.TellsRepeat path again first

namespace Policy

variable (path : String) {seen : SortedMap LinkKey Nat} {earlier : List Tag}

theorem checkDuplicates_again {t : Tag} (h : RemembersLines seen earlier)
    (ht : t.link ∈ earlier.map Tag.link) (ts : List Tag) :
    ∃ first, firstLike earlier t = some first ∧ checkDuplicates path seen (t :: ts) =
      duplicateViolation path t first.line :: checkDuplicates path seen ts := by
  obtain ⟨first, hfirst⟩ := Option.isSome_iff_exists.1 (isSome_firstLike.2 ht)
  refine ⟨first, hfirst, ?_⟩
  rw [checkDuplicates, h, hfirst, Option.map_some]

theorem checkDuplicates_new {t : Tag} (h : RemembersLines seen earlier)
    (ht : t.link ∉ earlier.map Tag.link) (ts : List Tag) :
    checkDuplicates path seen (t :: ts) =
      checkDuplicates path (seen.insert (.ofTag t) t.line) ts := by
  rw [checkDuplicates, h, firstLike_eq_none.2 ht, Option.map_none]

/-- The violations, one for each place behind the earlier tags that repeats one before it. -/
theorem tellsPlace_checkDuplicates (h : RemembersLines seen earlier) (ts : List Tag) :
    List.Forall₂ (TellsPlace path (earlier ++ ts))
      ((List.range' earlier.length ts.length).filter (isRepeat (earlier ++ ts)))
      (checkDuplicates path seen ts) := by
  induction ts generalizing seen earlier with
  | nil => exact .nil
  | cons t ts ih =>
    have hnext : (earlier ++ [t]).length = earlier.length + 1 := List.length_append
    have htags : earlier ++ [t] ++ ts = earlier ++ t :: ts := List.append_cons .. |>.symm
    rw [List.length_cons, List.range'_succ, List.filter_cons]
    by_cases ht : t.link ∈ earlier.map Tag.link
    · obtain ⟨first, hfirst, hcheck⟩ := checkDuplicates_again path h ht ts
      rw [if_pos (isRepeat_append.2 ht), hcheck]
      refine .cons ⟨t, first, ?_, ?_, rfl, rfl, rfl, rfl, rfl, rfl⟩ ?_
      · rw [List.getElem?_append_right (Nat.le_refl _), Nat.sub_self, List.getElem?_cons_zero]
      · rw [List.take_left, hfirst]
      · have hrest := ih (h.again ht)
        rwa [htags, hnext] at hrest
    · rw [if_neg (mt isRepeat_append.1 ht), checkDuplicates_new path h ht]
      have hrest := ih (h.new ht)
      rwa [htags, hnext] at hrest

/-- Every tag is reported, or it is the first of its link. -/
theorem length_checkDuplicates (h : RemembersLines seen earlier) (ts : List Tag) :
    (checkDuplicates path seen ts).length +
      ((ts.map Tag.link).filter fun l => l ∉ earlier.map Tag.link).eraseDups.length =
        ts.length := by
  induction ts generalizing seen earlier with
  | nil => rfl
  | cons t ts ih =>
    by_cases ht : t.link ∈ earlier.map Tag.link
    · obtain ⟨first, -, hcheck⟩ := checkDuplicates_again path h ht ts
      rw [hcheck, List.map_cons, List.filter_cons_of_neg (by simpa using ht), List.length_cons,
        List.length_cons, ← ih h]
      omega
    · have hrest : ((ts.map Tag.link).filter fun l => l ∉ (earlier ++ [t]).map Tag.link) =
          ((ts.map Tag.link).filter fun l => l ∉ earlier.map Tag.link).filter
            fun l => !l == t.link := by
        rw [List.filter_filter]
        apply List.filter_congr
        intro l _
        by_cases hl : l = t.link <;> simp [hl]
      rw [checkDuplicates_new path h ht, List.map_cons, List.filter_cons_of_pos (by simpa using ht),
        List.eraseDups_cons, ← hrest, List.length_cons, List.length_cons, ← ih (h.new ht)]
      omega

/-- What the violations of some tags of a file have to say about links that are stated again. -/
structure Duplicates (path : String) (tags : List Tag) (vs : List Violation) : Prop where
  /-- One for each tag with an earlier one of the same link, in the order of the tags. -/
  told : List.Forall₂ (TellsPlace path tags) (repeatPlaces tags) vs
  places : ∀ i, i ∈ repeatPlaces tags ↔
    ∃ t, tags[i]? = some t ∧ ∃ e ∈ tags.take i, e.sameLink t = true
  ordered : (repeatPlaces tags).Pairwise (· < ·)
  counted : vs.length + (linksOf tags).length = tags.length
  /-- One tag of each link is not reported, the first. -/
  first : ∀ l ∈ linksOf tags, ∀ i,
    (tags[i]?.map Tag.link = some l ∧ i ∉ repeatPlaces tags) ↔ i = (tags.map Tag.link).idxOf l

/-- **Duplicates are exactly the later tags of a link.** -/
theorem duplicates_exact (p : Policy) (r : Records) (path content : String) :
    Duplicates (normalizePath path) (tagsIn path content)
      ((p.afterModification r path content).ofRule .duplicateTags) := by
  rw [ofRule_afterModification]
  generalize tagsIn path content = tags
  refine ⟨?_, fun i => mem_repeatPlaces_iff, ?_, ?_, fun l hl i => ?_⟩
  · rw [repeatPlaces, List.range_eq_range']
    exact tellsPlace_checkDuplicates _ .nil tags
  · exact List.pairwise_lt_range.filter _
  · have hcount := length_checkDuplicates (normalizePath path) .nil tags
    rwa [List.filter_eq_self.2 fun l _ => by simp] at hcount
  · rw [mem_linksOf] at hl
    exact eq_idxOf_iff hl

end Policy

end SpecLinkage
