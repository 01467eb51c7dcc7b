import SpecLinkage.Json.Value
import SpecLinkage.Text.Affix
import SpecLinkage.Text.Lower

/-! # YAML values

A YAML document as it is written: a scalar is a text that stands in quotes or not.  Only a
scalar without quotes may mean something else than its text.

* `Yaml.toJson` resolves the scalars: `null` and its spellings, truth values, numbers and
  texts. -/

namespace SpecLinkage

/-- A YAML value. -/
inductive Yaml
  | plain (text : String)
  /-- A scalar in quotes, or a block of text. -/
  | quoted (text : String)
  | list (items : List Yaml)
  /-- Fields in their order, repeated keys included. -/
  | fields (l : List (String × Yaml))
  deriving Inhabited

namespace Yaml

open Text

/-- The value of a place where nothing is written. -/
def absent : Yaml := plain ""

/-- Whether a plain scalar stands for the null value. -/
def isNullText (s : String) : Bool := ["", "~", "null", "Null", "NULL"].contains s

/-- The truth value that a word stands for, in any case. -/
def truth? (s : String) : Option Bool :=
  if ["true", "yes", "on"].contains (lower s) then some true
  else if ["false", "no", "off"].contains (lower s) then some false
  else none

/-- Whether a text is a number without its sign: digits with a point and an exponent, where
the digits on one side of the point may be missing. -/
def isUnsignedNumber (s : List Char) : Bool :=
  let whole := s.takeWhile Char.isDigit
  let rest := s.dropWhile Char.isDigit
  let fraction := match rest with
    | '.' :: t => t.takeWhile Char.isDigit
    | _ => []
  let rest := match rest with
    | '.' :: t => t.dropWhile Char.isDigit
    | t => t
  let hasExponent := match rest with
    | [] => true
    | e :: t =>
      let digits := match t with
        | '+' :: u => u
        | '-' :: u => u
        | u => u
      (e == 'e' || e == 'E') && !digits.isEmpty && digits.all Char.isDigit
  !(whole.isEmpty && fraction.isEmpty) && hasExponent

/-- The literal of a number, without a plus sign. -/
def number? (s : String) : Option String :=
  match s.toList with
  | '+' :: t => if isUnsignedNumber t then some (String.ofList t) else none
  | '-' :: t => if isUnsignedNumber t then some s else none
  | t => if isUnsignedNumber t then some s else none

/-- The value of a plain scalar. -/
def resolve (s : String) : Json :=
  if isNullText s then .null
  else match truth? s with
    | some b => .bool b
    | none =>
      match number? s with
      | some literal => .number literal
      | none => .string s

mutual

/-- The value that a document stands for. -/
def toJson : Yaml → Json
  | plain s => resolve s
  | quoted s => .string s
  | list items => .array (itemsToJson items)
  | fields l => .object (fieldsToJson l)

/-- The values of items. -/
def itemsToJson : List Yaml → List Json
  | [] => []
  | v :: vs => toJson v :: itemsToJson vs

/-- The values of fields. -/
def fieldsToJson : List (String × Yaml) → List (String × Json)
  | [] => []
  | (k, v) :: l => (k, toJson v) :: fieldsToJson l

end

end Yaml

end SpecLinkage
