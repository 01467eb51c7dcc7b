import SpecLinkage.Proofs.Candidate.Positions

/-! # The scan step by step

The scan keeps a cursor in its file: the byte at which the next line starts, and the rest of the
comment of the last line.  A step reads one line, or tries one `@` of the comment; it fails if a
slice that it takes is not there.

* `step?` is one step, `Reads` a run to the end of the file.
* `searchStep?_of_notMem`, `searchStep?_at` and `lineStep?_line`: what one step does.
* `reads_comment`, `reads_lines`: a run through a comment and through lines.
* `reads_scan_iff`: from the start of a file there is one run to its end, and it finds the
  candidates of `scan`. -/

namespace SpecLinkage.Candidate

open Text

/-! ## Cursors -/

/-- The comment that is being searched. -/
structure Pending where
  /-- The byte of the file at which `text` starts. -/
  offset : Nat
  text : List Char
  /-- The byte of `text` from which on it is searched. -/
  searched : Nat

/-- How far the scan has come. -/
structure Cursor where
  /-- The byte at which the next line starts. -/
  nextLine : Nat
  /-- The number of lines that were read. -/
  number : Nat
  /-- What is left of the comment of the last line. -/
  pending : Option Pending

/-- At the start of a file no line was read. -/
def Cursor.start : Cursor := ⟨0, 0, none⟩

/-- What a step comes to. -/
inductive Move
  | finished
  | goOn (next : Cursor)
  | found (c : Candidate) (next : Cursor)

/-- The comment from byte `n` of a text on, where the text starts at byte `offset`. -/
def pendingFrom? (offset : Nat) (text : List Char) (n : Nat) : Option Pending :=
  (sliceFrom? n text).map fun rest => ⟨offset + n, rest, 0⟩

/-- What is left of a comment behind byte `stop` of it. -/
def leftFrom? (offset : Nat) (text : List Char) (stop : Nat) : Option (Option Pending) :=
  if stop < utf8Length text then (pendingFrom? offset text stop).map some else some none

/-- One `@` of a comment is tried.  Behind a TAG the comment is cut. -/
def searchStep? (path : String) (k : Cursor) (p : Pending) : Option Move := do
  let rest ← sliceFrom? p.searched p.text
  match byteOf? (· == '@') rest with
  | none => some (.goOn { k with pending := none })
  | some n =>
    let start := p.searched + n
    let tag ← tagAt? p.text start
    match tag with
    | none => some (.goOn { k with pending := some { p with searched := start + 1 } })
    | some (clause, stop) =>
      let left ← leftFrom? p.offset p.text stop
      some (.found ⟨clause, path, k.number, ⟨p.offset + start, stop - start⟩⟩
        { k with pending := left })

/-- One line is read, without a carriage return at its end. -/
def lineStep? (content : List Char) (k : Cursor) : Option Move :=
  if utf8Length content ≤ k.nextLine then some .finished
  else do
    let rest ← sliceFrom? k.nextLine content
    let length := (byteOf? (· == '\n') rest).getD (utf8Length rest)
    let line ← sliceTo? length rest
    let line := dropSuffix ['\r'] line
    let comment ← match commentStart? line with
      | none => some none
      | some n => (pendingFrom? k.nextLine line n).map some
    some (.goOn ⟨k.nextLine + length + 1, k.number + 1, comment⟩)

/-- One step of the scan; none if a slice that it takes is not there. -/
def step? (path : String) (content : List Char) (k : Cursor) : Option Move :=
  match k.pending with
  | some p => searchStep? path k p
  | none => lineStep? content k

/-- From a cursor the scan comes to the end of the file, and these are the candidates on its way. -/
inductive Reads (path : String) (content : List Char) : Cursor → List Candidate → Prop
  | finished {k : Cursor} (step : step? path content k = some .finished) : Reads path content k []
  | goOn {k next : Cursor} {cs : List Candidate} (step : step? path content k = some (.goOn next))
      (rest : Reads path content next cs) : Reads path content k cs
  | found {k next : Cursor} {c : Candidate} {cs : List Candidate}
      (step : step? path content k = some (.found c next)) (rest : Reads path content next cs) :
      Reads path content k (c :: cs)

/-! ## One step -/

variable {path : String} {content above line s t u w : List Char} {k : Cursor} {offset : Nat}

theorem pendingFrom?_place (h : s <:+ t) :
    pendingFrom? offset t (place t s) = some ⟨offset + place t s, s, 0⟩ := by
  rw [pendingFrom?, sliceFrom?_place h, Option.map_some]

theorem leftFrom?_place (offset : Nat) (h : s <:+ t) :
    leftFrom? offset t (place t s) =
      some (if s = [] then none else some ⟨offset + place t s, s, 0⟩) := by
  have hle := utf8Length_le_of_suffix h
  rw [leftFrom?]
  by_cases hs : s = []
  · subst hs
    rw [place_nil, if_neg (Nat.lt_irrefl _), if_pos rfl]
  · have hpos : utf8Length s ≠ 0 := fun h => hs (eq_nil_of_utf8Length h)
    have hlt : place t s < utf8Length t := by
      rw [place]
      omega
    rw [if_pos hlt, if_neg hs, pendingFrom?_place h, Option.map_some]

/-- The cursor in a comment of which `s` is left to search behind `u`. -/
def Cursor.searching (k : Cursor) (offset : Nat) (u s : List Char) : Cursor :=
  { k with pending := some ⟨offset, u ++ s, utf8Length u⟩ }

/-- A comment without an `@` is done with. -/
theorem step?_of_notMem (h : '@' ∉ s) :
    step? path content (k.searching offset u s) = some (.goOn { k with pending := none }) := by
  simp only [step?, Cursor.searching, searchStep?, sliceFrom?_append, Option.bind_eq_bind,
    Option.bind_some, byteOf?_char_none h]

/-- Where no TAG is read the next `@` is passed. -/
theorem step?_of_none (h : '@' ∉ w)
    (hread : opensTag (u ++ w).getLast? = true → readClause t = none) :
    step? path content (k.searching offset u (w ++ '@' :: t)) =
      some (.goOn (k.searching offset (u ++ w ++ ['@']) t)) := by
  have htag := tagAt?_append (u ++ w) t
  have hnone : (if opensTag (u ++ w).getLast? = true then
      (readClause t).map fun x => (x.1, place (u ++ w ++ '@' :: t) x.2) else none) = none := by
    split
    · next hopens => rw [hread hopens, Option.map_none]
    · rfl
  rw [hnone, utf8Length_append, List.append_assoc] at htag
  have hsize : utf8Length (u ++ w ++ ['@']) = utf8Length u + utf8Length w + 1 := by
    rw [utf8Length_append, utf8Length_append]
    rfl
  simp only [step?, Cursor.searching, searchStep?, sliceFrom?_append, Option.bind_eq_bind,
    Option.bind_some, byteOf?_char h, htag, hsize]
  rw [List.append_assoc (u ++ w), List.append_assoc, List.singleton_append]

/-- A TAG is found where it is read, and the comment is cut behind it. -/
theorem step?_of_some {clause : Clause} {rest : List Char} (h : '@' ∉ w)
    (hopens : opensTag (u ++ w).getLast? = true) (hread : readClause t = some (clause, rest)) :
    step? path content (k.searching offset u (w ++ '@' :: t)) =
      some (.found ⟨clause, path, k.number, ⟨offset + utf8Length (u ++ w), place ('@' :: t) rest⟩⟩
        (if rest = [] then { k with pending := none } else
          k.searching (offset + utf8Length (u ++ w) + place ('@' :: t) rest) [] rest)) := by
  have htag := tagAt?_append (u ++ w) t
  rw [if_pos hopens, hread, Option.map_some, utf8Length_append, List.append_assoc] at htag
  have hcut : rest <:+ '@' :: t := (readClause_suffix hread).trans (List.suffix_cons '@' t)
  have hrest : rest <:+ u ++ (w ++ '@' :: t) :=
    hcut.trans ((List.suffix_append w _).trans (List.suffix_append u _))
  have hplace : place (u ++ (w ++ '@' :: t)) rest =
      utf8Length u + utf8Length w + place ('@' :: t) rest := by
    rw [← List.append_assoc, place_behind (u ++ w) hcut, utf8Length_append]
  have hleft := leftFrom?_place offset hrest
  rw [hplace] at htag hleft
  simp only [step?, Cursor.searching, searchStep?, sliceFrom?_append, Option.bind_eq_bind,
    Option.bind_some, byteOf?_char h, htag, hleft, Nat.add_sub_cancel_left, utf8Length_append]
  rw [Nat.add_assoc offset]
  split <;> rfl

/-- A line is read up to its end, and its comment is searched from the start. -/
theorem step?_line {below : List Char} (number : Nat) (hline : '\n' ∉ line)
    (hbelow : below = [] ∨ ∃ s, below = '\n' :: s) (hne : line ++ below ≠ []) :
    step? path (above ++ (line ++ below)) ⟨utf8Length above, number, none⟩ =
      some (.goOn
        ⟨utf8Length above + utf8Length line + 1, number + 1,
          (commentText? (dropSuffix ['\r'] line)).map fun comment =>
            ⟨utf8Length above + place (dropSuffix ['\r'] line) comment, comment, 0⟩⟩) := by
  have hmore : ¬ utf8Length (above ++ (line ++ below)) ≤ utf8Length above := by
    rw [utf8Length_append]
    have hpos : utf8Length (line ++ below) ≠ 0 := fun h => hne (eq_nil_of_utf8Length h)
    omega
  have hlength : (byteOf? (· == '\n') (line ++ below)).getD (utf8Length (line ++ below)) =
      utf8Length line := by
    rcases hbelow with rfl | ⟨s, rfl⟩
    · rw [List.append_nil, byteOf?_char_none hline, Option.getD_none]
    · rw [byteOf?_char hline, Option.getD_some]
  simp only [step?, lineStep?, if_neg hmore, sliceFrom?_append, Option.bind_eq_bind,
    Option.bind_some, hlength, sliceTo?_append, commentStart?_eq]
  cases hcomment : commentText? (dropSuffix ['\r'] line) with
  | none => rfl
  | some comment =>
    simp only [Option.map_some, pendingFrom?_place (commentText?_suffix hcomment),
      Option.bind_some]

/-! ## Runs -/

/-- The rest of a comment is searched to its end, and then the scan goes on below it. -/
theorem reads_comment {cs : List Candidate}
    (hk : Reads path content { k with pending := none } cs) (offset : Nat) (u s : List Char) :
    Reads path content (k.searching offset u s)
      ((scanComment u.getLast? (offset + utf8Length u) s).map
        (fun x => ⟨x.1, path, k.number, x.2⟩) ++ cs) := by
  -- each step leaves less of the comment behind the cursor
  induction hn : s.length using Nat.strongRecOn generalizing offset u s with
  | _ n ih =>
    by_cases hs : '@' ∈ s
    · obtain ⟨w, t, rfl, hw⟩ := List.eq_append_cons_of_mem hs
      have hbefore : w.getLast?.or u.getLast? = (u ++ w).getLast? := List.getLast?_append.symm
      have hoffset : offset + utf8Length u + utf8Length w = offset + utf8Length (u ++ w) := by
        rw [utf8Length_append, Nat.add_assoc]
      have hlonger : t.length < n := by
        rw [← hn, List.length_append, List.length_cons]
        omega
      rw [scanComment_append hw, hbefore, hoffset]
      by_cases htag : opensTag (u ++ w).getLast? = true ∧ ∃ x, readClause t = some x
      · obtain ⟨hopens, ⟨clause, rest⟩, hread⟩ := htag
        rw [scanComment_of_some ⟨rfl, hopens⟩ hread, List.map_cons, List.cons_append]
        refine .found (step?_of_some hw hopens hread) ?_
        split
        · next hrest =>
          rw [hrest, scanComment]
          exact hk
        · have hle := length_readClause_le hread
          exact ih rest.length (Nat.lt_of_le_of_lt hle hlonger) _ [] rest rfl
      · have hnone : opensTag (u ++ w).getLast? = true → readClause t = none := by
          intro hopens
          rw [Option.eq_none_iff_forall_ne_some]
          exact fun x hx => htag ⟨hopens, x, hx⟩
        rw [scanComment_of_none fun _ => hnone]
        refine .goOn (step?_of_none hw hnone) ?_
        have hrest := ih t.length hlonger offset (u ++ w ++ ['@']) t rfl
        rwa [List.getLast?_concat, utf8Length_append _ ['@'], ← Nat.add_assoc] at hrest
    · rw [scanComment_of_notMem hs]
      exact .goOn (step?_of_notMem hs) hk

/-- A line is read, then its comment is searched, and then the scan goes on below it. -/
theorem reads_line {below : List Char} {cs : List Candidate} {number : Nat} (hline : '\n' ∉ line)
    (hbelow : below = [] ∨ ∃ s, below = '\n' :: s) (hne : line ++ below ≠ [])
    (hrest : Reads path (above ++ (line ++ below))
      ⟨utf8Length above + utf8Length line + 1, number + 1, none⟩ cs) :
    Reads path (above ++ (line ++ below)) ⟨utf8Length above, number, none⟩
      (onLine path (number + 1) (utf8Length above) line ++ cs) := by
  refine .goOn (step?_line number hline hbelow hne) ?_
  rw [onLine, scanLine]
  cases commentText? (dropSuffix ['\r'] line) with
  | none => exact hrest
  | some comment => exact reads_comment (k := ⟨_, number + 1, none⟩) hrest _ [] comment

theorem reads_end {n : Nat} (number : Nat) (h : utf8Length content ≤ n) :
    Reads path content ⟨n, number, none⟩ [] := .finished (if_pos h)

/-- The lines of a file are read one after the other. -/
theorem reads_lines (path : String) (above s : List Char) (number : Nat) :
    Reads path (above ++ s) ⟨utf8Length above, number, none⟩
      (scanFrom path (number + 1) (utf8Length above) s) := by
  induction s using lines_induction generalizing above number with
  | line l hl =>
    rw [scanFrom_line hl]
    by_cases hne : l = []
    · subst hne
      exact reads_end number (Nat.le_of_eq (by rw [List.append_nil]))
    · have hend : Reads path (above ++ (l ++ []))
          ⟨utf8Length above + utf8Length l + 1, number + 1, none⟩ [] :=
        reads_end _ (by simp only [utf8Length_append, utf8Length_nil]; omega)
      have hread := reads_line hl (.inl rfl) (by rwa [List.append_nil]) hend
      rwa [List.append_nil, List.append_nil] at hread
  | cons l s hl ih =>
    rw [scanFrom_cons hl]
    have hmore : l ++ '\n' :: s ≠ [] := List.append_ne_nil_of_right_ne_nil _ (List.cons_ne_nil _ _)
    refine reads_line hl (.inr ⟨s, rfl⟩) hmore ?_
    have hcontent : above ++ (l ++ '\n' :: s) = above ++ l ++ ['\n'] ++ s := by simp
    have hnext : utf8Length (above ++ l ++ ['\n']) = utf8Length above + utf8Length l + 1 := by
      rw [utf8Length_append, utf8Length_append]
      rfl
    rw [hcontent, ← hnext]
    exact ih (above ++ l ++ ['\n']) (number + 1)

/-- A cursor has no two runs. -/
theorem Reads.unique {cs cs' : List Candidate} (h : Reads path content k cs)
    (h' : Reads path content k cs') : cs = cs' := by
  -- a run is decided by its first step and what comes after it
  induction h generalizing cs' with
  | finished step =>
    cases h' with
    | finished => rfl
    | goOn step' => cases step.symm.trans step'
    | found step' => cases step.symm.trans step'
  | goOn step _ ih =>
    cases h' with
    | finished step' => cases step.symm.trans step'
    | goOn step' rest' =>
      cases step.symm.trans step'
      exact ih rest'
    | found step' => cases step.symm.trans step'
  | found step _ ih =>
    cases h' with
    | finished step' => cases step.symm.trans step'
    | goOn step' => cases step.symm.trans step'
    | found step' rest' =>
      cases step.symm.trans step'
      rw [ih rest']

/-- The scan comes to the end of its file.  No step takes a slice that is not there, and the
candidates on the way are those of `scan`. -/
theorem reads_scan_iff (path content : String) (cs : List Candidate) :
    Reads path content.toList .start cs ↔ cs = scan path content := by
  have hrun : Reads path content.toList .start (scan path content) :=
    reads_lines path [] content.toList 0
  constructor
  · exact fun h => h.unique hrun
  · rintro rfl
    exact hrun

end SpecLinkage.Candidate
