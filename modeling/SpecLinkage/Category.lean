/-! # Verbs and categories

A TAG states a relationship (`Verb`) of a location to a spec and what kind of artifact
the location is (`Category`).  Categories come in the order of the chain they form; the
first four are the stages of the primary chain, and all are gathered in three groups. -/

namespace SpecLinkage

/-- The relationship of a location to a spec. -/
inductive Verb
  | impl
  /-- A test that checks the implementation against the spec. -/
  | verify
  | depends
  | related
  deriving DecidableEq, Repr, Inhabited

namespace Verb

/-- All verbs in order. -/
def all : List Verb := [impl, verify, depends, related]

/-- The verb as written in a TAG. -/
def text : Verb → String
  | impl => "impl"
  | verify => "verify"
  | depends => "depends"
  | related => "related"

def ofText? (s : String) : Option Verb := all.find? fun v => v.text == s

/-- Place of the verb in the order. -/
def rank : Verb → Nat
  | impl => 0
  | verify => 1
  | depends => 2
  | related => 3

end Verb

/-- The groups of categories. -/
inductive CategoryGroup
  | primary
  | implementation
  | quality
  deriving DecidableEq, Repr

/-- What kind of artifact a TAG annotates. -/
inductive Category
  | req | design | task | test
  | code | feature | api | ui | data
  | perf | sec | docs
  deriving DecidableEq, Repr

namespace Category

/-- The four stages of the primary chain in order. -/
def primaryChain : List Category := [req, design, task, test]

/-- All categories in chain order. -/
def all : List Category :=
  [req, design, task, test, code, feature, api, ui, data, perf, sec, docs]

/-- The keyword of the category in a TAG. -/
def text : Category → String
  | req => "REQ"
  | design => "DESIGN"
  | task => "TASK"
  | test => "TEST"
  | code => "CODE"
  | feature => "FEATURE"
  | api => "API"
  | ui => "UI"
  | data => "DATA"
  | perf => "PERF"
  | sec => "SEC"
  | docs => "DOCS"

def ofText? (s : String) : Option Category := all.find? fun c => c.text == s

/-- Place of the category in chain order. -/
def rank : Category → Nat
  | req => 0
  | design => 1
  | task => 2
  | test => 3
  | code => 4
  | feature => 5
  | api => 6
  | ui => 7
  | data => 8
  | perf => 9
  | sec => 10
  | docs => 11

def group : Category → CategoryGroup
  | req | design | task | test => .primary
  | code | feature | api | ui | data => .implementation
  | perf | sec | docs => .quality

def isCode (c : Category) : Bool := c.group == .implementation

end Category

namespace CategoryGroup

/-- All groups in order. -/
def all : List CategoryGroup := [primary, implementation, quality]

/-- The name of the group in reports. -/
def text : CategoryGroup → String
  | primary => "PRIMARY"
  | implementation => "IMPLEMENTATION"
  | quality => "QUALITY"

/-- The categories of the group in chain order. -/
def categories (g : CategoryGroup) : List Category := Category.all.filter fun c => c.group == g

end CategoryGroup

instance : Ord Verb := ⟨fun a b => compare a.rank b.rank⟩
instance : Ord Category := ⟨fun a b => compare a.rank b.rank⟩

/-! ## Lemmas -/

theorem Verb.mem_all (v : Verb) : v ∈ all := by cases v <;> decide

theorem Category.mem_all (c : Category) : c ∈ all := by cases c <;> decide

/-- Exactly the written verbs are read. -/
theorem Verb.ofText?_eq_some_iff {s : String} {v : Verb} : ofText? s = some v ↔ s = v.text := by
  constructor
  · intro h
    have := List.find?_some h
    exact (by simpa using this : v.text = s).symm
  · rintro rfl; cases v <;> decide

/-- Exactly the written categories are read. -/
theorem Category.ofText?_eq_some_iff {s : String} {c : Category} :
    ofText? s = some c ↔ s = c.text := by
  constructor
  · intro h
    have := List.find?_some h
    exact (by simpa using this : c.text = s).symm
  · rintro rfl; cases c <;> decide

theorem Verb.ofText?_text (v : Verb) : ofText? v.text = some v := ofText?_eq_some_iff.2 rfl

theorem Category.ofText?_text (c : Category) : ofText? c.text = some c :=
  ofText?_eq_some_iff.2 rfl

theorem Verb.rank_injective {a b : Verb} (h : a.rank = b.rank) : a = b := by
  revert h; cases a <;> cases b <;> decide

theorem Category.rank_injective {a b : Category} (h : a.rank = b.rank) : a = b := by
  revert h; cases a <;> cases b <;> decide

instance : Std.TransOrd Verb where
  eq_swap {a b} := (inferInstance : Std.TransOrd Nat).eq_swap (a := a.rank) (b := b.rank)
  isLE_trans {a b c} := (inferInstance : Std.TransOrd Nat).isLE_trans (a := a.rank) (b := b.rank)
    (c := c.rank)

instance : Std.TransOrd Category where
  eq_swap {a b} := (inferInstance : Std.TransOrd Nat).eq_swap (a := a.rank) (b := b.rank)
  isLE_trans {a b c} := (inferInstance : Std.TransOrd Nat).isLE_trans (a := a.rank) (b := b.rank)
    (c := c.rank)

instance : Std.LawfulEqOrd Verb where
  eq_of_compare h := Verb.rank_injective
    ((inferInstance : Std.LawfulEqOrd Nat).eq_of_compare h)

instance : Std.LawfulEqOrd Category where
  eq_of_compare h := Category.rank_injective
    ((inferInstance : Std.LawfulEqOrd Nat).eq_of_compare h)

end SpecLinkage
