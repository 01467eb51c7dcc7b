import SpecLinkage.Catalog
import SpecLinkage.Proofs.SpecId.Grammar
import SpecLinkage.Proofs.Disk.Spelling

/-! # Where the documents of specs are

The texts that name specs, and the paths that are made of them.

* `Catalog.search` looks for a document with any effect that tells files, so that it shows which paths
  are tested; `Catalog.documentPath?_eq_search`.
* `Catalog.StaysBelow`: the paths of a spec are its own ones in the directory.
* `SpecId.ofText?_exact` is the result. -/

namespace SpecLinkage

open Text DiskPath

namespace DiskPath

/-- A piece that does not start with a dot names something in the directory. -/
theorem follow_name (here : Location) {c : Char} (hc : c ≠ '.') (name : List Char)
    (ps : List (List Char)) :
    follow here ((c :: name) :: ps) = follow (here ++ [String.ofList (c :: name)]) ps := by
  have hdot : ∀ rest, c :: name ≠ '.' :: rest := fun rest h => hc (List.cons.inj h).1
  have hinert : isInert (c :: name) = false := by
    rw [isInert, Bool.or_eq_false_iff, beq_eq_false_iff_ne, beq_eq_false_iff_ne]
    exact ⟨List.cons_ne_nil c name, hdot []⟩
  rw [follow, hinert, if_neg Bool.false_ne_true, if_neg (hdot ['.'])]

end DiskPath

namespace Catalog

variable {id : SpecId} {s root : String}

/-- The search for the document of a spec, with the test for a file as an effect. -/
def search {m : Type → Type} [Monad m] (isFile : String → m Bool) (root id : String) :
    m (Option String) :=
  if (SpecId.ofText? id).isSome then (candidatePaths root id).findM? isFile else pure none

theorem documentPath?_eq_search (t : FileTree) (root id : String) :
    documentPath? t root id = Id.run (search (fun p => pure (t.isFile p)) root id) := by
  rw [documentPath?, search]
  split
  · rw [List.findM?_pure]
    rfl
  · rfl

theorem search_of_malformed {m : Type → Type} [Monad m] (h : SpecId.ofText? s = none)
    (isFile : String → m Bool) (root : String) : search isFile root s = pure none := by
  rw [search, h]
  rfl

/-- The paths of a spec `s` in a directory `root` are `s/spec.md` and `s.md` in it.  The search
tests these two and no other one, whatever the effect of a test is. -/
structure StaysBelow (root s : String) : Prop where
  tested : ∀ {m : Type → Type} [Monad m] (isFile : String → m Bool),
    search isFile root s =
      [join root (s ++ "/spec.md"), join root (s ++ ".md")].findM? isFile
  expected : (directory root).expectedPath s = join root (s ++ "/spec.md")
  folder : resolve (join root (s ++ "/spec.md")) = resolve root ++ [s, "spec.md"]
  flat : resolve (join root (s ++ ".md")) = resolve root ++ [s ++ ".md"]

theorem join_spec (root : String) (id : SpecId) :
    join (join root id.text) "spec.md" = join root (id.text ++ "/spec.md") := by
  have hslash : '/' ∉ id.text.toList := id.notMem_text (.inl rfl)
  rw [join_join root hslash id.text_ne (by decide), String.append_assoc]
  rfl

theorem resolve_join_folder (root : String) (id : SpecId) :
    resolve (join root (id.text ++ "/spec.md")) = resolve root ++ [id.text, "spec.md"] := by
  have hslash : '/' ∉ id.text.toList := id.notMem_text (.inl rfl)
  have hpieces : pieces (id.text ++ "/spec.md") = [id.text.toList, "spec.md".toList] := by
    rw [pieces, String.toList_append]
    show splitAll '/' (id.text.toList ++ '/' :: "spec.md".toList) = _
    rw [splitAll_append_cons, splitAll_of_notMem hslash]
    rfl
  rw [resolve_join root (isAbsolute_append hslash id.text_ne _), hpieces, id.toList_text,
    follow_name _ (by decide), ← id.toList_text, String.ofList_toList]
  show follow _ [['s', 'p', 'e', 'c', '.', 'm', 'd']] = _
  rw [follow_name _ (by decide), follow, List.append_assoc]
  rfl

theorem resolve_join_flat (root : String) (id : SpecId) :
    resolve (join root (id.text ++ ".md")) = resolve root ++ [id.text ++ ".md"] := by
  have hslash : '/' ∉ id.text.toList := id.notMem_text (.inl rfl)
  have hslash' : '/' ∉ (id.text ++ ".md").toList := by
    rw [String.toList_append, List.mem_append, not_or]
    exact ⟨hslash, by decide⟩
  rw [resolve_join root (isAbsolute_append hslash id.text_ne _), pieces,
    splitAll_of_notMem hslash', String.toList_append, id.toList_text, List.cons_append,
    follow_name _ (by decide), follow, ← List.cons_append, ← id.toList_text,
    ← String.toList_append, String.ofList_toList]

theorem staysBelow_text (root : String) (id : SpecId) : StaysBelow root id.text where
  tested isFile := by
    rw [search, SpecId.ofText?_text, candidatePaths, join_spec]
    rfl
  expected := join_spec root id
  folder := resolve_join_folder root id
  flat := resolve_join_flat root id

end Catalog

/-- Spec identifiers are read exactly by their grammar, whether characters or bytes are checked.  The
parts of one are those of its text, at the same bytes from the ends; its text has nothing that leads
elsewhere in a path, and its documents are looked for below the directory.  Nothing is looked for by
another text. -/
theorem SpecId.ofText?_exact (s : String) :
    ((ofText? s).isSome = true ↔ ∃ domain digits, Spells s domain digits) ∧
    acceptsBytes s = (ofText? s).isSome ∧
    (∀ id, ofText? s = some id →
      Spells s id.domain id.numeral ∧
      (keySlice? s = some id.chainKey.toList ∧ domainSlice? s = some id.domain.toList ∧
        numberSlice? s = some id.number.val) ∧
      (id.chainKey = SpecLinkage.chainKey s ∧ id.chainKey = id.domain ++ "-" ++ id.numeral) ∧
      (∀ c ∈ s.toList, c ≠ '/' ∧ c ≠ '\\' ∧ c ≠ '.' ∧ isBlank c = false) ∧
      ∀ root, Catalog.StaysBelow root s) ∧
    (∀ t root, Catalog.documentPath? t root s =
      Id.run (Catalog.search (fun p => pure (t.isFile p)) root s)) ∧
    (ofText? s = none → ∀ {m : Type → Type} [Monad m] (isFile : String → m Bool) root,
      Catalog.search isFile root s = pure none) := by
  refine ⟨isSome_ofText?_iff, acceptsBytes_eq s, ?_,
    fun t root => Catalog.documentPath?_eq_search t root s,
    fun h _ _ isFile root => Catalog.search_of_malformed h isFile root⟩
  intro id hid
  obtain rfl := ofText?_eq_some_iff.1 hid
  refine ⟨id.spells_text, id.slices_text, ⟨id.chainKey_text.symm, id.chainKey_eq⟩, ?_,
    fun root => Catalog.staysBelow_text root id⟩
  intro c hc
  refine ⟨?_, ?_, ?_, id.isBlank_text c hc⟩
  · rintro rfl
    exact id.notMem_text (.inl rfl) hc
  · rintro rfl
    exact id.notMem_text (.inr (.inl rfl)) hc
  · rintro rfl
    exact id.notMem_text (.inr (.inr rfl)) hc

/-- A spec identifier, and a text like one with a character of two bytes.  Where every test of a file
fails, a search that tests none does not. -/
theorem SpecId.ofText?_exact_accented :
    (∃ id, ofText? "SPEC-OAUTH2-120" = some id ∧ Spells "SPEC-OAUTH2-120" id.domain id.numeral ∧
      id.chainKey = SpecLinkage.chainKey "SPEC-OAUTH2-120" ∧
      Catalog.StaysBelow "docs/" "SPEC-OAUTH2-120") ∧
    ofText? "SPEC-AUTH-0é" = none ∧
      Catalog.search (fun _ => (none : Option Bool)) "docs/" "SPEC-AUTH-0é" = some none := by
  obtain ⟨id, hid⟩ : ∃ id, ofText? "SPEC-OAUTH2-120" = some id :=
    Option.isSome_iff_exists.1 (by decide +kernel)
  obtain ⟨hspells, -, hkey, -, hbelow⟩ := (ofText?_exact "SPEC-OAUTH2-120").2.2.1 id hid
  have hnone : ofText? "SPEC-AUTH-0é" = none := Option.not_isSome_iff_eq_none.1 (by decide +kernel)
  exact ⟨⟨id, hid, hspells, hkey.1, hbelow "docs/"⟩, hnone,
    (ofText?_exact "SPEC-AUTH-0é").2.2.2.2 hnone _ _⟩

end SpecLinkage
