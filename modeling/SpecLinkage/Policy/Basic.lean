import SpecLinkage.Policy.Violation
import SpecLinkage.Catalog
import SpecLinkage.CodePaths
import SpecLinkage.Extraction
import SpecLinkage.Store.Records

/-! # Project rules

What a project demands of the annotations in a file, checked on the proposed content.  A
check reads the recorded tags and the spec documents and changes neither.

* Before a file is created: code needs a valid tag, and every spec a document.
* After a file was modified: what is implemented is tested, no link is stated twice, and
  code lies where its domain belongs.  None of this blocks. -/

namespace SpecLinkage

/-- What a tag states, by the texts of its spec and its verb. -/
structure LinkKey where
  specId : String
  verb : String
  category : Category
  deriving DecidableEq

namespace LinkKey

def ofTag (t : Tag) : LinkKey := ⟨t.specId.text, t.verb.text, t.category⟩

/-- Order by spec, verb and category. -/
def order : LinkKey → LinkKey → Ordering :=
  compareLex (compareOn specId) <| compareLex (compareOn verb) (compareOn category)

instance : Ord LinkKey := ⟨order⟩

instance : Std.TransOrd LinkKey := by
  show Std.TransCmp order
  unfold order
  infer_instance

instance : Std.LawfulEqOrd LinkKey where
  eq_of_compare {a b} h := by
    change order a b = .eq at h
    simp only [order, compareLex, compareOn, Ordering.then_eq_eq] at h
    obtain ⟨hspec, hverb, hcategory⟩ := h
    have hspec : a.specId = b.specId := Std.LawfulEqOrd.eq_of_compare hspec
    have hverb : a.verb = b.verb := Std.LawfulEqOrd.eq_of_compare hverb
    have hcategory : a.category = b.category := Std.LawfulEqOrd.eq_of_compare hcategory
    cases a; cases b; cases hspec; cases hverb; cases hcategory; rfl

end LinkKey

/-- The rules of a project with what they depend on. -/
structure Policy where
  codePaths : CodePaths
  catalog : Catalog
  /-- The directory of each domain, without a slash at its end. -/
  domains : SortedMap String String
  strict : Bool

namespace Policy

/-- The rules for directories of domains in any spelling. -/
def make (codePaths : CodePaths) (catalog : Catalog) (domains : SortedMap String String)
    (strict : Bool) : Policy where
  codePaths := codePaths
  catalog := catalog
  domains := domains.mapValues fun _ dir => trimSlashes (normalizePath dir)
  strict := strict

/-- Tags whose spec is not in `seen`, the first for each spec. -/
def firstPerSpec (seen : List SpecId) : List Tag → List Tag
  | [] => []
  | t :: ts =>
    if t.specId ∈ seen then firstPerSpec seen ts else t :: firstPerSpec (t.specId :: seen) ts

/-! ## Before creation -/

/-- An identifier to start from, with the name of the file as its domain. -/
def placeholderSpecId (path : String) : String :=
  let name := (pathComponents path).getLast?.getD []
  let domain := (fileStem name).filter Char.isAlphanum |>.map Char.toUpper
  if domain.isEmpty then "SPEC-DOMAIN-001" else "SPEC-" ++ String.ofList domain ++ "-001"

/-- The violation of a code file without a valid tag. -/
def speclessViolation (path : String) : Violation :=
  Violation.new .speclessCode .critical path "code file has no TAG linking it to a SPEC"
      "Write or pick the SPEC this code implements and reference it in a TAG comment"
    |>.withFix (suggestedTagLine path .code (placeholderSpecId path))

/-- The violation of a tag whose spec has no document; `elsewhere` counts the recorded
places that refer to the spec. -/
def missingSpecViolation (path : String) (t : Tag) (elsewhere : Nat) (expected : String) :
    Violation :=
  let guidance :=
    if 0 < elsewhere then
      "Create the SPEC document; " ++ toString elsewhere ++
        " stored location(s) already reference " ++ t.specId.text
    else "Create the SPEC document for " ++ t.specId.text ++ " or fix the id"
  Violation.new .noSpecReference .critical path (t.specId.text ++ " has no SPEC document") guidance
    |>.withSpec t.specId.text |>.atLine t.line |>.withFix expected

/-- The violation of a code file without a valid tag, if the file is one. -/
def checkSpecless (p : Policy) (path : String) (tags : List Tag) : List Violation :=
  if tags.isEmpty && p.codePaths.isCode path then [speclessViolation path] else []

/-- One violation for each spec without a document. -/
def checkSpecs (p : Policy) (files : FileTree) (r : Records) (path : String) (tags : List Tag) :
    List Violation :=
  ((firstPerSpec [] tags).filter fun t => !p.catalog.contains files t.specId.text).map fun t =>
    missingSpecViolation path t (r.locations t.specId.text).length
      (p.catalog.expectedPath t.specId.text)

/-- Check a file that is about to be created. -/
def beforeCreation (p : Policy) (files : FileTree) (r : Records) (path content : String) :
    PolicyReport :=
  let path := normalizePath path
  let found := TagSet.ofDocument path content
  { filePath := path
    violations := p.checkSpecless path found.tags ++ p.checkSpecs files r path found.tags
    formatErrors := found.errors
    strict := p.strict }

/-! ## After modification -/

/-- The violation of code that nothing tests. -/
def untestedViolation (path : String) (t : Tag) : Violation :=
  Violation.new .chainBreak .high path
      (t.specId.text ++ " is implemented but no TEST TAG verifies it")
      ("Add a test annotated with @TEST:" ++ t.specId.text ++ " verify")
    |>.withSpec t.specId.text |>.atLine t.line

/-- Whether a spec is tested: by the new content of the file, or by what is recorded for
other files.  What is recorded for the file itself is out of date. -/
def isTested (r : Records) (path : String) (tags : List Tag) (id : SpecId) : Bool :=
  (tags.any fun t => t.specId == id && t.category == .test)
    || (r.tagsOfSpec id.text).any fun t => t.filePath != path && t.category == .test

/-- One violation for each spec that is implemented and not tested. -/
def checkChains (r : Records) (path : String) (tags : List Tag) : List Violation :=
  ((firstPerSpec [] (tags.filter fun t => t.category.isCode)).filter fun t =>
    !isTested r path tags t.specId).map (untestedViolation path)

/-- The violation of a tag that states a link again. -/
def duplicateViolation (path : String) (t : Tag) (firstLine : Nat) : Violation :=
  Violation.new .duplicateTags .medium path
      ("@" ++ t.category.text ++ ":" ++ t.specId.text ++ " " ++ t.verb.text ++
        " repeats the TAG on line " ++ toString firstLine)
      "Keep one TAG per link"
    |>.withSpec t.specId.text |>.atLine t.line |>.withFix ("remove line " ++ toString t.line)

/-- One violation for each tag that states a link again; `seen` has the line on which a link was
stated first. -/
def checkDuplicates (path : String) (seen : SortedMap LinkKey Nat) : List Tag → List Violation
  | [] => []
  | t :: ts =>
    match seen.get? (.ofTag t) with
    | some line => duplicateViolation path t line :: checkDuplicates path seen ts
    | none => checkDuplicates path (seen.insert (.ofTag t) t.line) ts

/-- The violation of code in the wrong place. -/
def scopeViolation (path : String) (t : Tag) (message : String) : Violation :=
  Violation.new .directoryScope .medium path message
      ("Move the code for domain " ++ t.specId.domain ++ " or retag it")
    |>.withSpec t.specId.text |>.atLine t.line

/-- What is wrong with the place of a tag. -/
def scopeFault? (p : Policy) (path : String) (t : Tag) : Option String :=
  if !p.codePaths.isCode path then
    some ("@" ++ t.category.text ++ " TAG for " ++ t.specId.text ++
      " outside the active code directories")
  else match p.domains.get? t.specId.domain with
    | some dir => if isUnder path dir then none else some (t.specId.text ++ " belongs under " ++ dir ++ "/")
    | none => none

/-- One violation for each tag for code that is in the wrong place. -/
def checkScopes (p : Policy) (path : String) (tags : List Tag) : List Violation :=
  (tags.filter fun t => t.category.isCode).filterMap fun t =>
    (p.scopeFault? path t).map (scopeViolation path t)

/-- Check a file after it was modified. -/
def afterModification (p : Policy) (r : Records) (path content : String) : PolicyReport :=
  let path := normalizePath path
  let found := TagSet.ofDocument path content
  { filePath := path
    violations := checkChains r path found.tags ++ checkDuplicates path {} found.tags ++
      p.checkScopes path found.tags
    formatErrors := found.errors
    strict := p.strict }

end Policy

end SpecLinkage
