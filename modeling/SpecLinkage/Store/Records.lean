import SpecLinkage.Tag
import SpecLinkage.Order.SortedMap

/-! # Records and their indexes

The tags of a store, one for each key, and two indexes that list the keys by spec and by
file.

The key of a tag is its place together with what it states.  So a line may hold several
links, and a link that is recorded again takes the place of the older record.

* `Records.insert` and `Records.removeFile` change the records and both indexes together.
* `Records.isConsistent` checks that the indexes list exactly the recorded keys. -/

namespace SpecLinkage

/-- What tells records apart: the place, and the link that stands there. -/
structure RecordKey where
  filePath : String
  line : Nat
  specId : String
  category : Category
  verb : Verb
  deriving DecidableEq

namespace RecordKey

def ofTag (t : Tag) : RecordKey := ⟨t.filePath, t.line, t.specId.text, t.category, t.verb⟩

/-- Order by file, line, spec, category and verb. -/
def order : RecordKey → RecordKey → Ordering :=
  compareLex (compareOn filePath) <| compareLex (compareOn line) <|
    compareLex (compareOn specId) <| compareLex (compareOn category) (compareOn verb)

instance : Ord RecordKey := ⟨order⟩

instance : Std.TransOrd RecordKey := by
  show Std.TransCmp order
  unfold order
  infer_instance

instance : Std.LawfulEqOrd RecordKey where
  eq_of_compare {a b} h := by
    change order a b = .eq at h
    simp only [order, compareLex, compareOn, Ordering.then_eq_eq] at h
    obtain ⟨h₁, h₂, h₃, h₄, h₅⟩ := h
    have e₁ : a.filePath = b.filePath := Std.LawfulEqOrd.eq_of_compare h₁
    have e₂ : a.line = b.line := Std.LawfulEqOrd.eq_of_compare h₂
    have e₃ : a.specId = b.specId := Std.LawfulEqOrd.eq_of_compare h₃
    have e₄ : a.category = b.category := Std.LawfulEqOrd.eq_of_compare h₄
    have e₅ : a.verb = b.verb := Std.LawfulEqOrd.eq_of_compare h₅
    cases a; cases b; cases e₁; cases e₂; cases e₃; cases e₄; cases e₅; rfl

end RecordKey

/-- Keys listed under names. -/
abbrev KeyIndex := SortedMap String (SortedSet RecordKey)

namespace KeyIndex

def keysAt (i : KeyIndex) (name : String) : List RecordKey :=
  match i.get? name with
  | some keys => keys.keys
  | none => []

def add (i : KeyIndex) (name : String) (k : RecordKey) : KeyIndex :=
  i.insert name (((i.get? name).getD .empty).add k)

/-- The index without a key under a name; a name without keys goes too. -/
def drop (i : KeyIndex) (name : String) (k : RecordKey) : KeyIndex :=
  match i.get? name with
  | none => i
  | some keys =>
    let keys := keys.erase k
    if keys.isEmpty then i.erase name else i.insert name keys

end KeyIndex

/-- The tags of a store with their indexes. -/
structure Records where
  entries : SortedMap RecordKey Tag := {}
  bySpec : KeyIndex := {}
  byFile : KeyIndex := {}
  deriving DecidableEq

namespace Records

/-! ## Changes -/

def insert (r : Records) (t : Tag) : Records :=
  let k := RecordKey.ofTag t
  { entries := r.entries.insert k t
    bySpec := r.bySpec.add k.specId k
    byFile := r.byFile.add k.filePath k }

/-- Record tags from the first to the last. -/
def insertAll (r : Records) (ts : List Tag) : Records := ts.foldl insert r

def ofTags (ts : List Tag) : Records := insertAll {} ts

/-- Forget one key. -/
def eraseKey (r : Records) (k : RecordKey) : Records :=
  { r with entries := r.entries.erase k, bySpec := r.bySpec.drop k.specId k }

/-- Forget the tags of a file, and say how many there were. -/
def removeFile (r : Records) (file : String) : Nat × Records :=
  match r.byFile.get? file with
  | none => (0, r)
  | some keys =>
    (keys.size, keys.keys.foldl eraseKey { r with byFile := r.byFile.erase file })

/-- Put tags in the place of the tags of a file. -/
def replaceFile (r : Records) (file : String) (ts : List Tag) : Records :=
  (r.removeFile file).2.insertAll ts

/-! ## Questions -/

/-- All tags in the order of their keys. -/
def tags (r : Records) : List Tag := r.entries.values

/-- The specs that occur. -/
def specIds (r : Records) : List String := r.bySpec.keys

/-- The files that occur. -/
def files (r : Records) : List String := r.byFile.keys

/-- The tags with given keys. -/
def lookup (r : Records) (keys : List RecordKey) : List Tag := keys.filterMap r.entries.get?

def tagsOfSpec (r : Records) (id : String) : List Tag := r.lookup (r.bySpec.keysAt id)

def tagsOfFile (r : Records) (file : String) : List Tag :=
  r.lookup (r.byFile.keysAt (normalizePath file))

/-- A list without repetitions of neighbours. -/
def dedupNeighbours {α : Type} [DecidableEq α] : List α → List α
  | [] => []
  | [a] => [a]
  | a :: b :: l => if a = b then dedupNeighbours (b :: l) else a :: dedupNeighbours (b :: l)

/-- The places that refer to a spec, each once. -/
def locations (r : Records) (id : String) : List (String × Nat) :=
  dedupNeighbours ((r.bySpec.keysAt id).map fun k => (k.filePath, k.line))

/-- The specs that each file refers to. -/
def specsByFile (r : Records) : SortedMap String (List String) :=
  r.byFile.mapValues fun _ keys => (SortedSet.ofMembers (keys.keys.map RecordKey.specId)).keys

/-! ## Consistency -/

/-- The number of keys in an index, if every name has keys, and every key is recorded and
stands under its own name. -/
def indexSize? (entries : SortedMap RecordKey Tag) (nameOf : RecordKey → String) :
    List (String × SortedSet RecordKey) → Option Nat
  | [] => some 0
  | (name, keys) :: index =>
    if keys.isEmpty then none
    else if keys.keys.all fun k => nameOf k == name && entries.contains k then
      (indexSize? entries nameOf index).map (keys.size + ·)
    else none

/-- Whether every tag is recorded under its own key and both indexes list exactly the
recorded keys. -/
def isConsistent (r : Records) : Bool :=
  (r.entries.toList.all fun e => decide (e.1 = RecordKey.ofTag e.2))
    && indexSize? r.entries RecordKey.specId r.bySpec.toList == some r.entries.size
    && indexSize? r.entries RecordKey.filePath r.byFile.toList == some r.entries.size

end Records

end SpecLinkage
