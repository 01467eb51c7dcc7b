import SpecLinkage.Yaml.Reader
import SpecLinkage.CodePaths
import SpecLinkage.Disk.FileTree

/-! # Project configuration

The settings of a project, with defaults for all that is left out, and their reading from a
YAML document.

* `Config.ofYaml` reads a document.  Its form is checked first, then its values: the
  detection mode, the languages and the poll interval, in this order.
* `Config.load` reads a file; a missing file gives the defaults. -/

namespace SpecLinkage

/-- Settings of the lock of a store. -/
structure LockSettings where
  /-- Seconds that an operation waits for the lock. -/
  timeoutSecs : Nat := 300
  /-- Milliseconds between two attempts. -/
  pollIntervalMs : Nat := 500
  /-- Seconds after which a holder counts as dead. -/
  staleAfterSecs : Nat := timeoutSecs
  deriving DecidableEq, Repr

/-- Settings of a project. -/
structure Config where
  specsDir : String := "specs"
  storePath : String := ".tagtrace/linkage.json"
  /-- Whether critical violations block. -/
  strict : Bool := true
  /-- Where the globs for code come from. -/
  mode : DetectionMode := .hybrid
  languages : List Language := Language.all
  codeDirectories : List String := []
  /-- Globs of paths that are not code. -/
  exclude : List String := []
  domains : SortedMap String String := {}
  lock : LockSettings := {}

/-- Why a document is no configuration. -/
inductive ConfigError
  /-- It is no YAML document, or a value has the wrong type. -/
  | malformed
  | unknownMode (mode : String)
  | unknownLanguage (name : String)
  /-- A lock cannot be polled without pauses. -/
  | noPollInterval
  deriving DecidableEq, Repr

def ConfigError.message : ConfigError → String
  | malformed => "not a configuration document"
  | unknownMode mode =>
    "unknown detection_mode '" ++ mode ++ "' (expected auto, manual or hybrid)"
  | unknownLanguage name => "unknown language '" ++ name ++ "'"
  | noPollInterval => "lock.poll_interval_ms must be greater than zero"

namespace Config

/-! ## Form -/

/-- A value that may be absent. -/
def asOptional? {α : Type} (read : Json → Option α) : Json → Option (Option α)
  | .null => some none
  | v => (read v).map some

/-- A truth value; its words may stand in quotes. -/
def asBool? : Json → Option Bool
  | .bool b => some b
  | .string s => Yaml.truth? s
  | _ => none

/-- Texts by name; the last of equal names wins. -/
def asTexts? : Json → Option (SortedMap String String)
  | .object fields =>
    (fields.mapM fun f => (Json.asText? f.2).map fun s => (f.1, s)).map .ofList
  | _ => none

/-- Fields of a part that may be absent. -/
def asPart? : Json → Option (List (String × Json))
  | .null => some []
  | .object fields => some fields
  | _ => none

/-- A field that may be left out or absent. -/
def optional? {α : Type} (read : Json → Option α) (name : String) (fields : List (String × Json)) :
    Option (Option α) :=
  (Json.readField? (asOptional? read) name fields).map Option.join

/-- The lock settings of a document, as far as they are given: timeout, poll interval and
age. -/
def readLock? (v : Json) : Option (Option Nat × Option Nat × Option Nat) :=
  (asPart? v).bind fun fields =>
    let number := Json.asNat? UInt64.size
    match optional? number "timeout_secs" fields, optional? number "poll_interval_ms" fields,
        optional? number "stale_after_secs" fields with
    | some timeout, some poll, some stale => some (timeout, poll, stale)
    | _, _, _ => none

/-- The settings that a document gives, before their values are checked. -/
structure Draft where
  specsDir : Option String
  storePath : Option String
  strict : Option Bool
  mode : Option String
  languages : List String
  codeDirectories : List String
  /-- Globs of paths that are not code. -/
  exclude : List String
  domains : SortedMap String String
  /-- Timeout, poll interval and age of the lock. -/
  lock : Option Nat × Option Nat × Option Nat

/-- The settings that a value gives; other fields mean nothing. -/
def readDraft? (v : Json) : Option Draft :=
  v.asFields?.bind fun fields =>
    let texts := fun name => Json.readField? (Json.asList? Json.asText?) name fields
    match optional? Json.asText? "specs_dir" fields, optional? Json.asText? "store_path" fields,
        optional? asBool? "strict_mode" fields, optional? Json.asText? "detection_mode" fields,
        texts "languages", texts "code_directories", texts "exclude",
        Json.readField? asTexts? "domain_directories" fields,
        Json.readField? readLock? "lock" fields with
    | some specsDir, some storePath, some strict, some mode, some languages,
        some codeDirectories, some exclude, some domains, some lock =>
      some { specsDir, storePath, strict, mode
             languages := languages.getD []
             codeDirectories := codeDirectories.getD []
             exclude := exclude.getD []
             domains := domains.getD {}
             lock := lock.getD (none, none, none) }
    | _, _, _, _, _, _, _, _, _ => none

/-! ## Values -/

/-- The languages of the given names; the first unknown name is the error. -/
def readLanguages : List String → Except ConfigError (List Language)
  | [] => .ok []
  | name :: names =>
    match Language.ofName? name with
    | none => .error (.unknownLanguage name)
    | some l => (readLanguages names).map (l :: ·)

def readMode : Option String → Except ConfigError DetectionMode
  | none => .ok .hybrid
  | some name =>
    match DetectionMode.ofName? name with
    | none => .error (.unknownMode name)
    | some mode => .ok mode

/-- The settings of a draft whose values are sound.  No languages stand for all of them, and
a holder is dead after the timeout unless something else is said. -/
def ofDraft (d : Draft) : Except ConfigError Config :=
  match readMode d.mode with
  | .error e => .error e
  | .ok mode =>
    match readLanguages d.languages with
    | .error e => .error e
    | .ok languages =>
      let (timeout, poll, stale) := d.lock
      if poll = some 0 then .error .noPollInterval
      else
        let defaults : Config := {}
        let timeoutSecs := timeout.getD defaults.lock.timeoutSecs
        .ok { specsDir := d.specsDir.getD defaults.specsDir
              storePath := d.storePath.getD defaults.storePath
              strict := d.strict.getD defaults.strict
              mode := mode
              languages := if languages.isEmpty then Language.all else languages
              codeDirectories := d.codeDirectories
              exclude := d.exclude
              domains := d.domains
              lock := {
                timeoutSecs := timeoutSecs
                pollIntervalMs := poll.getD defaults.lock.pollIntervalMs
                staleAfterSecs := stale.getD timeoutSecs } }

/-- The settings in a YAML document. -/
def ofYaml (s : String) : Except ConfigError Config :=
  match (Yaml.ofText? s).bind fun v => readDraft? v.toJson with
  | none => .error .malformed
  | some d => ofDraft d

/-! ## Files -/

/-- Why a configuration file gives no settings. -/
inductive LoadError
  /-- The file is there but cannot be read. -/
  | unreadable (path : String) (cause : AccessError)
  /-- The file does not hold a configuration. -/
  | invalid (path : String) (cause : ConfigError)
  deriving DecidableEq, Repr

namespace LoadError

/-- What went wrong, without the reason. -/
def heading : LoadError → String
  | unreadable path _ => "Failed to read config file: " ++ path
  | invalid path _ => "Failed to parse config file: " ++ path

/-- What went wrong, with the reason. -/
def message (e : LoadError) : String :=
  e.heading ++ ": " ++ match e with
    | unreadable _ cause => cause.message
    | invalid _ cause => cause.message

end LoadError

/-- The settings in a file; a missing file gives the defaults. -/
def load (t : FileTree) (path : String) : Except LoadError Config :=
  match t.readText path with
  | .error .missing => .ok {}
  | .error e => .error (.unreadable path e)
  | .ok s =>
    match ofYaml s with
    | .error e => .error (.invalid path e)
    | .ok c => .ok c

/-- The directory of the spec documents, seen from the root of the project. -/
def resolvedSpecsDir (c : Config) (root : String) : String := DiskPath.join root c.specsDir

/-- The store file, seen from the root of the project. -/
def resolvedStorePath (c : Config) (root : String) : String := DiskPath.join root c.storePath

/-- What decides which paths are code. -/
def makeCodePaths (c : Config) : Except GlobError CodePaths :=
  CodePaths.make c.mode c.languages c.codeDirectories c.exclude

end Config

end SpecLinkage
