import SpecLinkage.Disk.FileTree

/-! # Errors of a store

Reading a store never fails; the store remembers what went wrong and starts empty.  Writing
can fail, and it is refused while the file is there but could not be read. -/

namespace SpecLinkage

/-- What can go wrong with a store file. -/
inductive StoreError
  /-- The file is there but cannot be read. -/
  | unreadable (path : String) (cause : AccessError)
  | unwritable (path : String) (cause : AccessError)
  /-- The file does not hold a store document. -/
  | corrupted (path : String)
  /-- The file could not be read before and is not overwritten. -/
  | refused (path : String) (cause : StoreError)
  | serialization (reason : String)
  deriving DecidableEq, Repr

namespace StoreError

/-- What went wrong, without the reason. -/
def heading : StoreError → String
  | unreadable path _ => "Failed to read store " ++ path
  | unwritable path _ => "Failed to write store " ++ path
  | corrupted path => "Store " ++ path ++ " is corrupted"
  | refused path _ => "Refusing to overwrite store " ++ path ++ " that could not be read"
  | serialization _ => "Failed to serialize store"

/-- What went wrong, with the reason. -/
def message (e : StoreError) : String :=
  e.heading ++ ": " ++ match e with
    | unreadable _ cause => cause.message
    | unwritable _ cause => cause.message
    | corrupted _ => "not a store document"
    | refused _ cause => message cause
    | serialization reason => reason

end StoreError

/-- How a store came to hold what it holds. -/
inductive LoadStatus
  | fresh
  /-- The file was read; some records may have been skipped. -/
  | loaded (skipped : Nat)
  /-- The file was corrupted; the next write replaces it. -/
  | degraded (cause : StoreError)
  /-- The file could not be read; nothing is written until it can. -/
  | unreadable (cause : StoreError)
  deriving DecidableEq, Repr

namespace LoadStatus

/-- Whether the store had to start empty although there was a file. -/
def isDegraded : LoadStatus → Bool
  | degraded _ | unreadable _ => true
  | _ => false

end LoadStatus

end SpecLinkage
