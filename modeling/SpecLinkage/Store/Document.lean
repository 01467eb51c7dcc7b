import SpecLinkage.Store.Entry
import SpecLinkage.Store.Records
import SpecLinkage.Json.Reader
import SpecLinkage.Json.Writer

/-! # Store documents

What a store file holds: the records, and for each file the specs that it refers to.  The
second part can be computed from the first; it is there for readers of the file.

* `StoreDocument.text` writes a document, `StoreDocument.ofText?` reads one.
* `StoreDocument.records` are the records of a document and the number of those that are
  no tags; a later record with the same key replaces an earlier one. -/

namespace SpecLinkage

namespace Entry

/-- A record as a JSON value. -/
def toJson (e : Entry) : Json :=
  .object [("spec_id", .string e.specId), ("verb", .string e.verb),
    ("category", .string e.category), ("file_path", .string e.filePath),
    ("line", .ofNat e.line), ("description", .ofOption e.description)]

/-- The record that a JSON value holds; other fields mean nothing. -/
def ofJson? (v : Json) : Option Entry :=
  v.asFields?.bind fun fields =>
    match Json.readField? Json.asText? "spec_id" fields,
        Json.readField? Json.asText? "verb" fields,
        Json.readField? Json.asText? "category" fields,
        Json.readField? Json.asText? "file_path" fields,
        Json.readField? (Json.asNat? UInt64.size) "line" fields,
        Json.readField? Json.asOptionalText? "description" fields with
    | some (some specId), some (some verb), some (some category), some (some filePath),
        some (some line), some description =>
      some ⟨specId, verb, category, filePath, line, description.getD none⟩
    | _, _, _, _, _, _ => none

end Entry

/-- The contents of a store file. -/
structure StoreDocument where
  entries : List Entry := []
  /-- The specs that each file refers to. -/
  files : SortedMap String (List String) := {}
  deriving DecidableEq

namespace StoreDocument

def ofRecords (r : Records) : StoreDocument where
  entries := r.tags.map Entry.ofTag
  files := r.specsByFile

def toJson (d : StoreDocument) : Json :=
  .object [("tags", .array (d.entries.map Entry.toJson)),
    ("files", .object (d.files.toList.map fun f => (f.1, .ofStrings f.2)))]

def text (d : StoreDocument) : String := d.toJson.pretty

/-- The specs by file that a JSON value holds. -/
def readFiles? : Json → Option (SortedMap String (List String))
  | .object fields =>
    (fields.mapM fun f => (Json.asList? Json.asText? f.2).map fun l => (f.1, l)).map .ofList
  | _ => none

/-- The document that a JSON value holds; a part that is left out is empty. -/
def ofJson? (v : Json) : Option StoreDocument :=
  v.asFields?.bind fun fields =>
    match Json.readField? (Json.asList? Entry.ofJson?) "tags" fields,
        Json.readField? readFiles? "files" fields with
    | some entries, some files => some ⟨entries.getD [], files.getD {}⟩
    | _, _ => none

/-- The document that a text holds; a text of blanks holds the empty document. -/
def ofText? (s : String) : Option StoreDocument :=
  if (Text.trim s.toList).isEmpty then some {} else (Json.ofText? s).bind ofJson?

/-- The tags of the well-formed records. -/
def tags (d : StoreDocument) : List Tag := d.entries.filterMap Entry.tag?

/-- The number of records that are no tags. -/
def skipped (d : StoreDocument) : Nat := d.entries.countP fun e => e.tag?.isNone

def records (d : StoreDocument) : Records := .ofTags d.tags

end StoreDocument

end SpecLinkage
