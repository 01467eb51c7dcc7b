import SpecLinkage.Candidate
import SpecLinkage.Tag
import SpecLinkage.Text.Quoted

/-! # Validation of candidates

A candidate becomes a tag when its identifier and its verb are well formed; otherwise it
gives one error for each field at fault.

`Candidate.formatErrors_eq_nil_iff`: a candidate has a tag exactly when it has no error. -/

namespace SpecLinkage

/-- What is wrong with a candidate. -/
inductive FormatFault
  /-- The identifier is not a spec identifier. -/
  | malformedSpecId
  /-- The verb is not one of the known verbs. -/
  | unknownVerb
  deriving DecidableEq, Repr

/-- A fault of a candidate at its place. -/
structure FormatError where
  fault : FormatFault
  value : String
  filePath : String
  line : Nat
  deriving DecidableEq, Repr

namespace FormatError

/-- The field at fault, by its name in messages. -/
def fieldName (e : FormatError) : String :=
  match e.fault with
  | .malformedSpecId => "spec_id"
  | .unknownVerb => "verb"

/-- The message, with the offending text quoted. -/
def message (e : FormatError) : String :=
  match e.fault with
  | .malformedSpecId =>
    "'" ++ Text.quote e.value ++ "' does not match SPEC-\x7bDOMAIN\x7d-\x7bNNN\x7d " ++
      "(uppercase letters and digits, three-digit number)"
  | .unknownVerb =>
    "unknown verb '" ++ Text.quote e.value ++ "', expected one of: " ++
      ", ".intercalate (Verb.all.map Verb.text)

/-- The message with its place and field in front. -/
def display (e : FormatError) : String :=
  e.filePath ++ ":" ++ toString e.line ++ ": " ++ e.fieldName ++ ": " ++ e.message

end FormatError

namespace Candidate

/-- The errors of a candidate, the one of the identifier first. -/
def formatErrors (c : Candidate) : List FormatError :=
  let error (fault : FormatFault) (value : String) : FormatError := ⟨fault, value, c.filePath, c.line⟩
  (if (SpecId.ofText? c.clause.specId).isSome then []
    else [error .malformedSpecId c.clause.specId]) ++
  match c.clause.verb with
  | none => []
  | some v => if (Verb.ofText? v).isSome then [] else [error .unknownVerb v]

/-- The verb of a candidate; one that is not written is `impl`. -/
def verb? (c : Candidate) : Option Verb :=
  match c.clause.verb with
  | none => some .impl
  | some v => Verb.ofText? v

def category (c : Candidate) (verb : Verb) : Category :=
  match c.clause.keyword with
  | .category k => k
  | .generic => .infer verb c.filePath

def tag? (c : Candidate) : Option Tag :=
  match SpecId.ofText? c.clause.specId, c.verb? with
  | some specId, some verb =>
    some (Tag.make specId verb (c.category verb) c.filePath c.line c.clause.description)
  | _, _ => none

/-- A candidate has a tag exactly when it has no error. -/
theorem formatErrors_eq_nil_iff (c : Candidate) :
    c.formatErrors = [] ↔ c.tag?.isSome = true := by
  unfold formatErrors tag? verb?
  cases hs : SpecId.ofText? c.clause.specId <;> cases hv : c.clause.verb <;> simp
  next v => cases hw : Verb.ofText? v <;> simp

end Candidate

end SpecLinkage
