import SpecLinkage.Json.Value
import SpecLinkage.Text.Affix

/-! # Reading JSON

A reader that is generous about the frame of a document and strict about its values: text
behind the document is ignored and a comma may stand before a closing bracket, but an
unknown word, a broken escape or a lone surrogate refuses the document.

Every reader takes the text that is left and gives back a value and the text behind it. -/

namespace SpecLinkage.Json

open Text

/-- Blanks between the parts of a document. -/
def isGap (c : Char) : Bool := c == ' ' || c == '\t' || c == '\n' || c == '\r'

/-- The text behind the blanks. -/
def skipGap (s : List Char) : List Char := s.dropWhile isGap

/-- Value of a hexadecimal digit. -/
def hexDigit? (c : Char) : Option Nat :=
  if c.isDigit then some (c.toNat - '0'.toNat)
  else if 'a' ≤ c ∧ c ≤ 'f' then some (c.toNat - 'a'.toNat + 10)
  else if 'A' ≤ c ∧ c ≤ 'F' then some (c.toNat - 'A'.toNat + 10)
  else none

/-- Read four hexadecimal digits. -/
def readHex4? : List Char → Option (Nat × List Char)
  | a :: b :: c :: d :: s =>
    match hexDigit? a, hexDigit? b, hexDigit? c, hexDigit? d with
    | some a, some b, some c, some d => some (((a * 16 + b) * 16 + c) * 16 + d, s)
    | _, _, _, _ => none
  | _ => none

/-- Read the code point of an escape behind its `u`; two escapes may form one code point. -/
def readUnicode? (s : List Char) : Option (Char × List Char) :=
  match readHex4? s with
  | none => none
  | some (n, r) =>
    if 0xD800 ≤ n ∧ n < 0xDC00 then
      match r with
      | '\\' :: 'u' :: t =>
        match readHex4? t with
        | some (m, r') =>
          if 0xDC00 ≤ m ∧ m < 0xE000 then
            some (Char.ofNat (0x10000 + (n - 0xD800) * 0x400 + (m - 0xDC00)), r')
          else none
        | none => none
      | _ => none
    else if 0xDC00 ≤ n ∧ n < 0xE000 then none
    else some (Char.ofNat n, r)

/-- Read an escape behind its backslash. -/
def readEscape? : List Char → Option (Char × List Char)
  | '"' :: s => some ('"', s)
  | '\\' :: s => some ('\\', s)
  | '/' :: s => some ('/', s)
  | 'b' :: s => some ('\x08', s)
  | 'f' :: s => some ('\x0c', s)
  | 'n' :: s => some ('\n', s)
  | 'r' :: s => some ('\r', s)
  | 't' :: s => some ('\t', s)
  | 'u' :: s => readUnicode? s
  | _ => none

/-- Read a text behind its opening quote; `fuel` bounds its length. -/
def readText? : (fuel : Nat) → List Char → Option (List Char × List Char)
  | 0, _ => none
  | _, [] => none
  | fuel + 1, c :: s =>
    if c = '"' then some ([], s)
    else if c = '\\' then
      match readEscape? s with
      | none => none
      | some (x, r) => (readText? fuel r).map fun (t, r') => (x :: t, r')
    else (readText? fuel s).map fun (t, r) => (c :: t, r)

def isNumberChar (c : Char) : Bool :=
  c.isDigit || c == '-' || c == '+' || c == '.' || c == 'e' || c == 'E'

/-- Whether the literal is a number: digits with an optional sign, fraction and exponent. -/
def isNumber (s : List Char) : Bool :=
  let s := dropPrefix ['-'] s
  let afterWhole := s.dropWhile Char.isDigit
  let whole := s.head?.any Char.isDigit
  let (fraction, afterFraction) :=
    match afterWhole with
    | '.' :: t => (t.head?.any Char.isDigit, t.dropWhile Char.isDigit)
    | t => (true, t)
  let exponent :=
    match afterFraction with
    | [] => true
    | e :: t =>
      let t := match t with
        | '+' :: u => u
        | '-' :: u => u
        | u => u
      (e == 'e' || e == 'E') && !t.isEmpty && t.all Char.isDigit
  whole && fraction && exponent

mutual

/-- Read a value; `fuel` bounds the number of values and fields. -/
def readValue? : (fuel : Nat) → List Char → Option (Json × List Char)
  | 0, _ => none
  | fuel + 1, s =>
    match skipGap s with
    | [] => none
    | '\x7b' :: r => (readFields? fuel r).map fun (fs, t) => (.object fs, t)
    | '[' :: r => (readItems? fuel r).map fun (vs, t) => (.array vs, t)
    | '"' :: r => (readText? (r.length + 1) r).map fun (x, t) => (.string (String.ofList x), t)
    | c :: r =>
      if c == '-' || c.isDigit then
        let literal := (c :: r).takeWhile isNumberChar
        if isNumber literal then
          some (.number (String.ofList literal), (c :: r).dropWhile isNumberChar)
        else none
      else match stripPrefix? "true".toList (c :: r) with
        | some t => some (.bool true, t)
        | none =>
          match stripPrefix? "false".toList (c :: r) with
          | some t => some (.bool false, t)
          | none => (stripPrefix? "null".toList (c :: r)).map fun t => (.null, t)

/-- Read the items of a list behind its bracket or behind a comma. -/
def readItems? : (fuel : Nat) → List Char → Option (List Json × List Char)
  | 0, _ => none
  | fuel + 1, s =>
    match skipGap s with
    | ']' :: r => some ([], r)
    | r =>
      match readValue? fuel r with
      | none => none
      | some (v, r') =>
        match skipGap r' with
        | ',' :: t => (readItems? fuel t).map fun (vs, u) => (v :: vs, u)
        | ']' :: t => some ([v], t)
        | _ => none

/-- Read the fields of an object behind its bracket or behind a comma. -/
def readFields? : (fuel : Nat) → List Char → Option (List (String × Json) × List Char)
  | 0, _ => none
  | fuel + 1, s =>
    match skipGap s with
    | '\x7d' :: r => some ([], r)
    | '"' :: r =>
      match readText? (r.length + 1) r with
      | none => none
      | some (key, r') =>
        match skipGap r' with
        | ':' :: t =>
          match readValue? fuel t with
          | none => none
          | some (v, u) =>
            match skipGap u with
            | ',' :: w =>
              (readFields? fuel w).map fun (fs, x) => ((String.ofList key, v) :: fs, x)
            | '\x7d' :: w => some ([(String.ofList key, v)], w)
            | _ => none
        | _ => none
    | _ => none

end

/-- Read the value at the start of a document. -/
def ofText? (s : String) : Option Json :=
  (readValue? (2 * s.length + 2) s.toList).map (·.1)

/-! ## Reading typed values

A value is taken for the type that a field asks for, if there is a natural way. -/

/-- The last value of a field, or nothing if there is no such field; all values given for
the field have to be readable. -/
def readField? {α : Type} (read : Json → Option α) (name : String)
    (fields : List (String × Json)) : Option (Option α) :=
  (fields.filter fun f => f.1 == name).foldlM (fun _ f => (read f.2).map some) none

/-- The items of a list, if all of them can be read. -/
def asList? {α : Type} (read : Json → Option α) : Json → Option (List α)
  | .array items => items.mapM read
  | _ => none

/-- The fields of an object; `null` stands for an object without fields. -/
def asFields? : Json → Option (List (String × Json))
  | .object fields => some fields
  | .null => some []
  | _ => none

/-- A number in digits, without an exponent: its sign, its digits and the places behind
the point. -/
def readDecimal (s : List Char) : Bool × Nat × Int :=
  let negative := s.head? == some '-'
  let s := dropPrefix ['-'] s
  let mantissa := s.takeWhile fun c => c != 'e' && c != 'E'
  let exponent := (s.dropWhile fun c => c != 'e' && c != 'E').drop 1
  let whole := mantissa.takeWhile (· != '.')
  let fraction := (mantissa.dropWhile (· != '.')).drop 1
  let value (t : List Char) : Nat := t.foldl (fun n c => n * 10 + (c.toNat - '0'.toNat)) 0
  let e : Int := match exponent with
    | '-' :: t => -(value t : Int)
    | '+' :: t => value t
    | t => value t
  (negative, value (whole ++ fraction), (fraction.length : Int) - e)

/-- The natural number that a decimal is, if it is one below `limit`. -/
def decimalNat? (limit : Nat) (s : List Char) : Option Nat :=
  let (negative, digits, places) := readDecimal s
  if digits = 0 then some 0
  else if negative ∨ places < -400 ∨ 400 < places then none
  else if places ≤ 0 then
    let n := digits * Nat.pow 10 places.natAbs
    if n < limit then some n else none
  else if digits % Nat.pow 10 places.natAbs = 0 ∧ digits / Nat.pow 10 places.natAbs < limit then
    some (digits / Nat.pow 10 places.natAbs)
  else none

/-- The natural number below `limit` written in digits, perhaps with a plus sign. -/
def digitsNat? (limit : Nat) (s : List Char) : Option Nat :=
  let digits := dropPrefix ['+'] s
  if digits ≠ [] ∧ digits.all Char.isDigit = true then
    let n := digits.foldl (fun n c => n * 10 + (c.toNat - '0'.toNat)) 0
    if n < limit then some n else none
  else none

/-- A natural number below `limit`: an integral number, a numeral in quotes, or `null` for
zero. -/
def asNat? (limit : Nat) : Json → Option Nat
  | .null => some 0
  | .number literal => decimalNat? limit literal.toList
  | .string s => digitsNat? limit s.toList
  | _ => none

/-- A number as the text of a field: its digits without exponent or needless zeros. -/
def numberText (literal : String) : String :=
  let (negative, digits, places) := readDecimal literal.toList
  let sign := if negative ∧ digits ≠ 0 then "-" else ""
  if places < -400 ∨ 400 < places then literal
  else if places ≤ 0 then sign ++ toString (digits * Nat.pow 10 places.natAbs)
  else
    let d := trimZeros places.natAbs digits places.natAbs
    sign ++ d.text
where
  /-- Remove zeros at the end of the places. -/
  trimZeros : Nat → Nat → Nat → Decimal
    | 0, digits, places => ⟨digits, places⟩
    | fuel + 1, digits, places =>
      if places ≠ 0 ∧ digits % 10 = 0 then trimZeros fuel (digits / 10) (places - 1)
      else ⟨digits, places⟩

/-- A text: a string, a number, or `null` for the empty text. -/
def asText? : Json → Option String
  | .null => some ""
  | .string s => some s
  | .number literal => some (numberText literal)
  | _ => none

/-- A text that may be absent. -/
def asOptionalText? : Json → Option (Option String)
  | .null => some none
  | v => (asText? v).map some

end SpecLinkage.Json
