import SpecLinkage.Candidate.Scan
import SpecLinkage.Proofs.Text.Words

/-! # Scanning line by line

What is found on a line depends on nothing but the line: a text joined from two parts has the
candidates of both, and it does not matter how its lines end.

* `scanComment_shift`, `scanLine_shift`, `scanLines_shift`: the place of a text only moves what is
  found in it.
* `scanFrom_line`, `scanFrom_cons`: the scan takes the first line and goes on with the rest, so
  texts are taken apart by `lines_induction`.
* `scanLine_return`: a carriage return at the end of a line does not matter.
* `scan_local` is the result. -/

namespace SpecLinkage

open Text

/-! ## Places -/

/-- The span behind `bytes` further bytes. -/
def Span.shift (bytes : Nat) (s : Span) : Span := { s with offset := s.offset + bytes }

/-- The candidate behind further lines and bytes. -/
def Candidate.shift (lines bytes : Nat) (c : Candidate) : Candidate :=
  { c with line := c.line + lines, span := c.span.shift bytes }

/-- The candidate without its place in the bytes of its file. -/
def Candidate.unplaced (c : Candidate) : Candidate := { c with span := { c.span with offset := 0 } }

/-- The text with CR LF in the place of each newline. -/
def Text.returnLines (s : List Char) : List Char :=
  s.flatMap fun c => if c = '\n' then ['\r', '\n'] else [c]

theorem Text.returnLines_of_notMem {s : List Char} (h : '\n' ∉ s) : returnLines s = s := by
  induction s with
  | nil => rfl
  | cons c s ih =>
    rw [List.mem_cons, not_or] at h
    rw [returnLines, List.flatMap_cons, if_neg (Ne.symm h.1), ← returnLines, ih h.2]
    rfl

theorem Text.returnLines_line {line : List Char} (h : '\n' ∉ line) (s : List Char) :
    returnLines (line ++ '\n' :: s) = line ++ ['\r'] ++ '\n' :: returnLines s := by
  have hline := returnLines_of_notMem h
  rw [returnLines, List.flatMap_append, ← returnLines, hline, List.flatMap_cons, ← returnLines]
  simp

namespace Candidate

variable {path : String} {number offset : Nat} {line s : List Char}

/-! ## Moved texts -/

/-- A TAG is taken as it is read, and the scan resumes behind it. -/
theorem scanComment_of_some {before : Option Char} {c : Char} {clause : Clause} {rest : List Char}
    (hat : c = '@' ∧ opensTag before = true) (h : readClause s = some (clause, rest)) :
    scanComment before offset (c :: s) =
      (clause, ⟨offset, utf8Length (c :: s) - utf8Length rest⟩) ::
        scanComment none (offset + (utf8Length (c :: s) - utf8Length rest)) rest := by
  rw [scanComment, if_pos hat]
  split
  · next h' =>
    obtain ⟨rfl, rfl⟩ := Prod.mk.inj (Option.some.inj (h.symm.trans h'))
    rfl
  · next h' =>
    rw [h] at h'
    cases h'

/-- Where there is no TAG the scan goes on with the next character. -/
theorem scanComment_of_none {before : Option Char} {c : Char}
    (h : c = '@' → opensTag before = true → readClause s = none) :
    scanComment before offset (c :: s) = scanComment (some c) (offset + c.utf8Size) s := by
  rw [scanComment]
  split
  · next hat =>
    split
    · next h' =>
      rw [h hat.1 hat.2] at h'
      cases h'
    · rfl
  · rfl

theorem scanComment_cons {c : Char} (h : c ≠ '@') (before : Option Char) (offset : Nat)
    (s : List Char) :
    scanComment before offset (c :: s) = scanComment (some c) (offset + c.utf8Size) s :=
  scanComment_of_none fun hc => absurd hc h

/-- The last character before a text, where `c` and `u` are passed. -/
theorem getLast?_cons_or (c : Char) (u : List Char) (before : Option Char) :
    (c :: u).getLast?.or before = u.getLast?.or (some c) := by
  rw [List.getLast?_cons, Option.some_or, Option.or_some]

/-- In front of the first `@` there is nothing to find. -/
theorem scanComment_append {u : List Char} (h : '@' ∉ u) (before : Option Char) (offset : Nat)
    (s : List Char) :
    scanComment before offset (u ++ s) =
      scanComment (u.getLast?.or before) (offset + utf8Length u) s := by
  induction u generalizing before offset with
  | nil => rfl
  | cons c u ih =>
    rw [List.mem_cons, not_or] at h
    rw [List.cons_append, scanComment_cons (Ne.symm h.1), ih h.2, getLast?_cons_or,
      utf8Length_cons, Nat.add_assoc]

/-- Without an `@` there is nothing to find. -/
theorem scanComment_of_notMem (h : '@' ∉ s) (before : Option Char) (offset : Nat) :
    scanComment before offset s = [] := by
  have hscan := scanComment_append h before offset []
  rwa [List.append_nil, scanComment] at hscan

/-- A comment that stands further on has the same TAGs further on. -/
theorem scanComment_shift (bytes : Nat) (before : Option Char) (offset : Nat) (s : List Char) :
    scanComment before (offset + bytes) s =
      (scanComment before offset s).map fun x => (x.1, x.2.shift bytes) := by
  -- along the scan, which resumes behind each TAG
  fun_induction scanComment before offset s with
  | case1 => rw [scanComment]; rfl
  | case2 before offset c s hat clause rest hread length ih =>
    rw [scanComment_of_some hat hread, List.map_cons, ← ih, Nat.add_right_comm]
    rfl
  | case3 before offset c s hat hread ih =>
    rw [scanComment_of_none fun _ _ => hread, ← ih, Nat.add_right_comm]
  | case4 before offset c s hat ih =>
    rw [scanComment_of_none fun hc hb => absurd ⟨hc, hb⟩ hat, ← ih, Nat.add_right_comm]

theorem scanLine_shift (bytes offset : Nat) (line : List Char) :
    scanLine (offset + bytes) line =
      (scanLine offset line).map fun x => (x.1, x.2.shift bytes) := by
  unfold scanLine
  dsimp only
  split
  · rfl
  · rw [Nat.add_right_comm, scanComment_shift]

theorem scanLines_shift (path : String) (lines bytes number offset : Nat) (ls : List (List Char)) :
    scanLines path (number + lines) (offset + bytes) ls =
      (scanLines path number offset ls).map (shift lines bytes) := by
  induction ls generalizing number offset with
  | nil => rfl
  | cons l ls ih =>
    rw [scanLines, scanLines, List.map_append, ← ih, scanLine_shift, List.map_map, List.map_map]
    congr 1
    rw [Nat.add_right_comm number, Nat.add_right_comm _ bytes, Nat.add_right_comm _ bytes]

/-! ## Texts line by line -/

/-- The candidates of a text whose first line has number `number` and starts at byte `offset`. -/
def scanFrom (path : String) (number offset : Nat) (s : List Char) : List Candidate :=
  scanLines path number offset (splitAll '\n' s)

/-- The candidates of one line. -/
def onLine (path : String) (number offset : Nat) (line : List Char) : List Candidate :=
  (scanLine offset line).map fun x => ⟨x.1, path, number, x.2⟩

/-- Without the spans a line has the same candidates wherever it stands. -/
theorem unplaced_onLine (path : String) (number offset : Nat) (line : List Char) :
    (onLine path number offset line).map unplaced = (onLine path number 0 line).map unplaced := by
  have hshift := scanLine_shift offset 0 line
  rw [Nat.zero_add] at hshift
  rw [onLine, onLine, hshift, List.map_map, List.map_map, List.map_map]
  rfl

theorem scanFrom_line (h : '\n' ∉ line) :
    scanFrom path number offset line = onLine path number offset line := by
  rw [scanFrom, splitAll_of_notMem h, scanLines, scanLines, List.append_nil]
  rfl

theorem scanFrom_cons (h : '\n' ∉ line) (s : List Char) :
    scanFrom path number offset (line ++ '\n' :: s) = onLine path number offset line ++
      scanFrom path (number + 1) (offset + utf8Length line + 1) s := by
  rw [scanFrom, splitAll_append_cons, splitAll_of_notMem h, List.singleton_append, scanLines]
  rfl

/-- The lines of a text joined from two parts are those of the first and then those of the
second. -/
theorem scanFrom_append (path : String) (number offset : Nat) (a b : List Char) :
    scanFrom path number offset (a ++ '\n' :: b) = scanFrom path number offset a ++
      scanFrom path (number + (1 + a.count '\n')) (offset + (utf8Length a + 1)) b := by
  induction a using lines_induction generalizing number offset with
  | line l h =>
    rw [scanFrom_cons h, scanFrom_line h, List.count_eq_zero_of_not_mem h]
    rfl
  | cons l s h ih =>
    rw [List.append_assoc, List.cons_append, scanFrom_cons h, scanFrom_cons h, ih,
      List.append_assoc, List.count_append, List.count_cons_self, List.count_eq_zero_of_not_mem h,
      utf8Length_append, utf8Length_cons]
    congr 3
    · omega
    · rw [show ('\n' : Char).utf8Size = 1 from rfl]
      omega

/-! ## Ends of lines -/

/-- A carriage return at the end of a line is not part of it. -/
theorem scanLine_return (h : '\r' ∉ line) (offset : Nat) :
    scanLine offset (line ++ ['\r']) = scanLine offset line := by
  have hline : dropSuffix ['\r'] line = line :=
    dropSuffix_of_last (List.cons_ne_nil _ _) fun hlast => h (List.mem_of_getLast? hlast)
  rw [scanLine, scanLine, dropSuffix_append, hline]

/-- Before a line there is one carriage return for each line above it. -/
theorem scanFrom_returnLines (h : '\r' ∉ s) (path : String) (number offset : Nat) :
    scanFrom path (number + 1) (offset + number) (returnLines s) =
      (scanFrom path (number + 1) offset s).map fun c => c.shift 0 (c.line - 1) := by
  have honLine : ∀ (number offset : Nat) (l : List Char),
      onLine path (number + 1) (offset + number) l =
        (onLine path (number + 1) offset l).map fun c => c.shift 0 (c.line - 1) := by
    intro number offset l
    rw [onLine, onLine, scanLine_shift, List.map_map, List.map_map]
    rfl
  induction s using lines_induction generalizing number offset with
  | line l hl =>
    rw [returnLines_of_notMem hl, scanFrom_line hl, scanFrom_line hl]
    exact honLine number offset l
  | cons l s hl ih =>
    rw [List.mem_append, List.mem_cons, not_or, not_or] at h
    have hreturn : '\n' ∉ l ++ ['\r'] := by simp [hl]
    have hoffset : offset + number + utf8Length (l ++ ['\r']) + 1 =
        offset + utf8Length l + 1 + (number + 1) := by
      rw [utf8Length_append, show utf8Length ['\r'] = 1 from rfl]
      omega
    rw [returnLines_line hl, scanFrom_cons hreturn, scanFrom_cons hl, List.map_append, hoffset,
      ih h.2.2, ← honLine number offset l, onLine, onLine, scanLine_return h.1]

/-- **The scan is local to lines.**  In two texts joined by a newline the candidates of both are
found, those of the second behind the lines and bytes of the first; and with CR LF for each newline
the same candidates are found, each behind the carriage returns above it. -/
theorem scan_local (path : String) :
    (∀ a b : String, scan path (a ++ "\n" ++ b) = scan path a ++
      (scan path b).map (shift (1 + a.toList.count '\n') (utf8Length a.toList + 1))) ∧
    ∀ content : String, '\r' ∉ content.toList →
      scan path (String.ofList (returnLines content.toList)) =
        (scan path content).map fun c => c.shift 0 (c.line - 1) := by
  constructor
  · intro a b
    have htext : (a ++ "\n" ++ b).toList = a.toList ++ '\n' :: b.toList := by simp
    rw [scan, htext]
    exact (scanFrom_append path 1 0 a.toList b.toList).trans
      (congrArg _ (scanLines_shift path _ _ 1 0 _))
  · intro content h
    rw [scan, String.toList_ofList]
    exact scanFrom_returnLines h path 0 0

/-- A text whose lines end with CR LF: each candidate stands behind the returns above it. -/
theorem scan_local_returns :
    '\r' ∉ "# @REQ:SPEC-A-001 @TAG SPEC-B-002\n\n  * @CODE:SPEC-A-001 impl - first".toList ∧
    scan "a.rs" (String.ofList (returnLines
        "# @REQ:SPEC-A-001 @TAG SPEC-B-002\n\n  * @CODE:SPEC-A-001 impl - first".toList)) =
      [⟨⟨.category .req, "SPEC-A-001", none, none⟩, "a.rs", 1, ⟨2, 15⟩⟩,
       ⟨⟨.generic, "SPEC-B-002", none, none⟩, "a.rs", 1, ⟨18, 15⟩⟩,
       ⟨⟨.category .code, "SPEC-A-001", some "impl", some "first"⟩, "a.rs", 3, ⟨41, 29⟩⟩] :=
  ⟨by decide +kernel, ((scan_local "a.rs").2 _ (by decide +kernel)).trans (by decide +kernel)⟩

end Candidate

end SpecLinkage
