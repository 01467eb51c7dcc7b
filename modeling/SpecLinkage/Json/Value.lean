import SpecLinkage.Number.Decimal

/-! # JSON values

A JSON value as it is written: numbers are kept as literals and the fields of an object in
their order, repeated keys included. -/

namespace SpecLinkage

/-- A JSON value. -/
inductive Json
  /-- The value `null`. -/
  | null
  | bool (b : Bool)
  | number (literal : String)
  | string (s : String)
  | array (items : List Json)
  | object (fields : List (String × Json))
  deriving Inhabited

namespace Json

/-- A natural number. -/
def ofNat (n : Nat) : Json := number (String.ofList (Nat.toDigits 10 n))

/-- A double, in the fewest digits. -/
def ofBinary64 (x : Binary64) : Json := number (Decimal.shortest x).text

/-- A text or nothing. -/
def ofOption (s : Option String) : Json := (s.map string).getD null

/-- A list of texts. -/
def ofStrings (l : List String) : Json := array (l.map string)

end Json

end SpecLinkage
