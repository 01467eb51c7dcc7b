import SpecLinkage.Disk.Basic
import SpecLinkage.Json.Reader
import SpecLinkage.Json.Writer
import SpecLinkage.Text.Blank

/-! # Who holds a lock

The holder of a lock writes a record about itself into the lock file, so that others can
say who it is and judge how old its claim is. -/

namespace SpecLinkage

/-- A process, as others see it. -/
structure Identity where
  pid : Nat
  host : String
  deriving DecidableEq, Repr

/-- The record that the holder of a lock leaves in the lock file. -/
structure LockMetadata where
  pid : Nat
  host : String
  /-- When the lock was taken, in milliseconds since the epoch. -/
  acquiredAt : Nat
  deriving DecidableEq, Repr

namespace LockMetadata

/-- The record of a process that takes a lock at the given time. -/
def ofIdentity (p : Identity) (now : Nat) : LockMetadata := ⟨p.pid, p.host, now⟩

/-- How long the lock has been held, in milliseconds; nothing for a record from the
future. -/
def age (m : LockMetadata) (now : Nat) : Nat := now - m.acquiredAt

/-- The holder in words. -/
def describe (m : LockMetadata) (now : Nat) : String :=
  "pid " ++ toString m.pid ++ " on " ++ m.host ++ " for " ++ toString (m.age now / 1000) ++ "s"

/-- The record as a JSON value. -/
def toJson (m : LockMetadata) : Json :=
  .object [("pid", .ofNat m.pid), ("host", .string m.host),
    ("acquired_at_ms", .ofNat m.acquiredAt)]

/-- The text of the record. -/
def text (m : LockMetadata) : String := m.toJson.compact

/-- The record that a JSON value holds; other fields mean nothing. -/
def ofJson? (v : Json) : Option LockMetadata :=
  v.asFields?.bind fun fields =>
    match Json.readField? (Json.asNat? UInt32.size) "pid" fields,
        Json.readField? Json.asText? "host" fields,
        Json.readField? (Json.asNat? UInt64.size) "acquired_at_ms" fields with
    | some (some pid), some (some host), some (some acquiredAt) => some ⟨pid, host, acquiredAt⟩
    | _, _, _ => none

/-- The record that a text holds. -/
def ofText? (s : String) : Option LockMetadata := (Json.ofText? s).bind ofJson?

def read? (t : FileTree) (path : String) : Option LockMetadata :=
  match t.readText path with
  | .ok s => if (Text.trim s.toList).isEmpty then none else ofText? s
  | .error _ => none

end LockMetadata

end SpecLinkage
