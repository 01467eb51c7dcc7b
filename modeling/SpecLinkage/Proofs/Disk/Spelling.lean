import SpecLinkage.Proofs.Disk.Places

/-! # Paths as they are spelled

* `DiskPath.resolve_append_ne`: a path with something behind its last component names another
  place.
* `DiskPath.relativeTo?_of_relative`: a relative path lies below no absolute one, as it is
  spelled.
* `DiskPath.join_join`: paths are joined one behind the other.
* `DiskPath.resolve_join`: a path joined to a directory is followed from its place. -/

namespace SpecLinkage

/-- More text without the separator makes the last piece longer. -/
theorem Text.splitAll_append (c : Char) (s : List Char) {u : List Char} (hu : c ∉ u) :
    ∃ above last, splitAll c s = above ++ [last] ∧ splitAll c (s ++ u) = above ++ [last ++ u] := by
  induction s with
  | nil =>
    refine ⟨[], [], rfl, ?_⟩
    show splitAll c u = [u]
    induction u with
    | nil => rfl
    | cons x u ih =>
      have hx : x ≠ c := by
        rintro rfl
        exact hu List.mem_cons_self
      rw [splitAll, if_neg hx, ih fun h => hu (List.mem_cons_of_mem _ h)]
  | cons x s ih =>
    obtain ⟨above, last, hs, hsu⟩ := ih
    rw [List.cons_append, splitAll, splitAll, hs, hsu]
    split
    · exact ⟨[] :: above, last, rfl, rfl⟩
    · cases above with
      | nil => exact ⟨[], x :: last, rfl, rfl⟩
      | cons p above => exact ⟨(x :: p) :: above, last, rfl, rfl⟩

namespace DiskPath

theorem follow_append (here : Location) (ps qs : List (List Char)) :
    follow here (ps ++ qs) = follow (follow here ps) qs := by
  induction ps generalizing here with
  | nil => rfl
  | cons p ps ih =>
    rw [List.cons_append, follow, follow]
    split
    · exact ih here
    · split
      · exact ih _
      · exact ih _

/-- A last component that got longer is a name of its own. -/
theorem follow_append_ne (here : Location) (last : List Char) {u : List Char} (h : 3 ≤ u.length) :
    follow here [last ++ u] ≠ follow here [last] := by
  have hlong : 3 ≤ (last ++ u).length := by
    rw [List.length_append]
    omega
  have hname : follow here [last ++ u] = here ++ [String.ofList (last ++ u)] := by
    have hinert : isInert (last ++ u) = false := by
      rw [isInert, Bool.or_eq_false_iff, beq_eq_false_iff_ne, beq_eq_false_iff_ne]
      constructor
      · intro hnil
        rw [hnil] at hlong
        cases hlong
      · intro hdot
        rw [hdot] at hlong
        exact absurd hlong (by decide)
    have hdots : last ++ u ≠ ['.', '.'] := by
      intro hdots
      rw [hdots] at hlong
      exact absurd hlong (by decide)
    rw [follow, hinert, if_neg Bool.false_ne_true, if_neg hdots, follow]
  rw [hname, follow]
  intro heq
  split at heq
  · exact absurd (congrArg List.length heq) (by simp [follow])
  · split at heq
    · have := congrArg List.length heq
      rw [follow, List.length_append, List.length_dropLast, List.length_singleton] at this
      omega
    · rw [follow, List.append_cancel_left_eq] at heq
      have := congrArg List.length (String.ofList_injective (List.cons.inj heq).1)
      rw [List.length_append] at this
      omega

/-- A path with more text behind it, which starts no component, names another place. -/
theorem resolve_append_ne (path u : String) (hu : '/' ∉ u.toList) (h : 3 ≤ u.length) :
    resolve (path ++ u) ≠ resolve path := by
  obtain ⟨above, last, hs, hsu⟩ := Text.splitAll_append '/' path.toList hu
  rw [resolve, resolve, pieces, pieces, String.toList_append, hs, hsu, follow_append,
    follow_append]
  exact follow_append_ne _ _ (by rwa [String.length_toList])

/-- Whether a path starts at the root of the disk. -/
def isAbsolute (p : String) : Bool := Text.startsWith ['/'] p.toList

/-- A relative path lies below no absolute one. -/
theorem relativeTo?_of_relative {root p : String} (hroot : isAbsolute root = true)
    (hp : isAbsolute p = false) : relativeTo? root p = none := by
  obtain ⟨s, hs⟩ := Text.startsWith_iff.1 hroot
  have hcomponents : ∃ cs, components root = ['/'] :: cs := by
    have hne : root ≠ "" := by
      rintro rfl
      cases hs
    rw [components, if_neg hne, pieces, hs]
    exact ⟨_, rfl⟩
  obtain ⟨cs, hcs⟩ := hcomponents
  rw [relativeTo?, hcs]
  cases hx : p.toList with
  | nil =>
    have hempty : p = "" := String.toList_eq_nil_iff.1 hx
    rw [hempty]
    rfl
  | cons x s =>
    have hslash : x ≠ '/' := by
      rintro rfl
      rw [isAbsolute, hx] at hp
      cases hp
    obtain ⟨q, qs, hq⟩ := List.exists_cons_of_ne_nil (Text.splitAll_ne_nil '/' s)
    have hpieces : pieces p = (x :: q) :: qs := by
      rw [pieces, hx, Text.splitAll, if_neg hslash, hq]
    rw [hpieces]
    have hfirst : ¬(p ≠ "" ∧ (if x :: q = [] then ['/'] else x :: q) = ['/']) := by
      rintro ⟨-, h⟩
      rw [if_neg (List.cons_ne_nil _ _)] at h
      exact hslash (List.cons.inj h).1
    exact if_neg hfirst

theorem join_of_relative {p : String} (root : String) (hp : isAbsolute p = false) :
    join root p =
      if root = "" ∨ Text.endsWith ['/'] root.toList = true then root ++ p
      else root ++ "/" ++ p :=
  if_neg (by rw [isAbsolute] at hp; rw [hp]; exact Bool.false_ne_true)

/-- Only a path that starts with the separator is absolute. -/
theorem isAbsolute_append {name : String} (hname : '/' ∉ name.toList) (hne : name ≠ "")
    (p : String) : isAbsolute (name ++ p) = false := by
  obtain ⟨c, rest, hcons⟩ := List.exists_cons_of_ne_nil (mt String.toList_eq_nil_iff.1 hne)
  rw [Bool.eq_false_iff]
  intro habsolute
  obtain ⟨s, hs⟩ := Text.startsWith_iff.1 habsolute
  rw [String.toList_append, hcons] at hs
  obtain ⟨rfl, -⟩ := List.cons.inj hs
  rw [hcons] at hname
  exact hname List.mem_cons_self

/-- A path with a name behind it does not end with the separator. -/
theorem endsWith_append {name : String} (hname : '/' ∉ name.toList) (hne : name ≠ "")
    (root : String) : Text.endsWith ['/'] (root ++ name).toList = false := by
  rw [Bool.eq_false_iff]
  intro hends
  obtain ⟨r, hr⟩ := Text.endsWith_iff.1 hends
  have hlist : name.toList ≠ [] := mt String.toList_eq_nil_iff.1 hne
  have hlast := congrArg List.getLast? hr
  rw [String.toList_append, List.getLast?_append, List.getLast?_eq_some_getLast hlist, Option.some_or,
    List.getLast?_concat] at hlast
  exact hname (Option.some.inj hlast ▸ List.getLast_mem hlist)

/-- A name below a directory and a path below that make one path below the directory. -/
theorem join_join {name p : String} (root : String) (hname : '/' ∉ name.toList) (hne : name ≠ "")
    (hp : isAbsolute p = false) : join (join root name) p = join root (name ++ "/" ++ p) := by
  have hrelative : isAbsolute name = false := by
    have h := isAbsolute_append hname hne ""
    rwa [String.append_empty] at h
  have hlong : isAbsolute (name ++ "/" ++ p) = false := by
    rw [String.append_assoc]
    exact isAbsolute_append hname hne _
  -- a name at the end takes a separator behind it
  have hbelow : ∀ r : String, join (r ++ name) p = r ++ name ++ "/" ++ p := by
    intro r
    have hempty : r ++ name ≠ "" := fun h => hne (String.append_eq_empty_iff.1 h).2
    rw [join_of_relative _ hp, endsWith_append hname hne]
    exact if_neg (by simp [hempty])
  rw [join_of_relative root hrelative, join_of_relative root hlong]
  split
  · rw [hbelow]
    simp only [String.append_assoc]
  · rw [hbelow]
    simp only [String.append_assoc]

/-- A relative path is followed from the place of the directory that it is joined to. -/
theorem resolve_join {p : String} (root : String) (hp : isAbsolute p = false) :
    resolve (join root p) = follow (resolve root) (pieces p) := by
  rw [join_of_relative root hp]
  split
  · next hroot =>
    rcases hroot with rfl | hroot
    · rw [String.empty_append]
      rfl
    · obtain ⟨r, hr⟩ := Text.endsWith_iff.1 hroot
      have hpieces : pieces root = Text.splitAll '/' r ++ [[]] := by
        rw [pieces, hr, Text.splitAll_append_cons]
        rfl
      have hjoined : pieces (root ++ p) = Text.splitAll '/' r ++ pieces p := by
        rw [pieces, String.toList_append, hr, List.append_assoc, List.singleton_append,
          Text.splitAll_append_cons]
        rfl
      rw [resolve, resolve, hpieces, hjoined, follow_append, follow_append]
      rfl
  · have hjoined : pieces (root ++ "/" ++ p) = pieces root ++ pieces p := by
      rw [pieces, String.toList_append, String.toList_append, List.append_assoc]
      exact Text.splitAll_append_cons '/' root.toList p.toList
    rw [resolve, hjoined, follow_append]
    rfl

end DiskPath

end SpecLinkage
