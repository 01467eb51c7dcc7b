import SpecLinkage.Proofs.Disk.Places
import SpecLinkage.Proofs.Json.RoundTrip
import SpecLinkage.Proofs.Text.Words
import SpecLinkage.Lock.FileLock

/-! # The record in a lock file

A record that was written into a lock file is read back as it is, whatever the name of the host.
If a number in it is too large then nothing is read, but never a record of somebody else.

* `Json.ofText?_compact`: objects without nested values, on one line.
* `LockMetadata.ofText?_text`: records.
* `FileTree.recordAt?` is the record at a place, whatever path leads there. -/

namespace SpecLinkage

/-! ## Objects on one line -/

namespace Json

/-- Whether a value has no parts. -/
def IsAtom : Json → Prop
  | .array _ | .object _ => False
  | _ => True

theorem ends_brace (s : List Char) : Ends ('\x7d' :: s) := by
  rintro c ⟨⟩
  rfl

/-- A value without parts looks the same on one line and on several. -/
theorem compactChars_of_isAtom {v : Json} (h : v.IsAtom) : compactChars v = prettyChars 0 v := by
  cases v with
  | array => exact h.elim
  | object => exact h.elim
  | bool b => cases b <;> rfl
  | _ => rfl

theorem readValue?_compact {v : Json} (hv : v.Written) (h : v.IsAtom) (fuel : Nat)
    {rest : List Char} (hrest : Ends rest) :
    readValue? (fuel + 1) (compactChars v ++ rest) = some (v, rest) := by
  have hsize : v.size ≤ fuel + 1 := by
    cases v with
    | array => exact h.elim
    | object => exact h.elim
    | _ => exact Nat.succ_le_succ (Nat.zero_le fuel)
  rw [compactChars_of_isAtom h]
  obtain ⟨c, r, hhead, hgap, -⟩ := prettyChars_head 0 hv
  refine readValue?_pretty 0 hv hsize ?_ hrest
  rw [hhead, List.cons_append, skipGap_cons _ hgap]

theorem skipGap_quoted (k : String) (s : List Char) :
    skipGap (quoted k ++ s) = '"' :: (k.toList.flatMap escapeChar ++ '"' :: s) := by
  rw [quoted, List.cons_append, skipGap_cons _ rfl, List.append_assoc]
  rfl

theorem readFields?_compact {f : String × Json} {fs : List (String × Json)} {fuel : Nat}
    (hv : WrittenFields (f :: fs)) (h : ∀ g ∈ f :: fs, g.2.IsAtom) (hf : fs.length + 2 ≤ fuel)
    (rest : List Char) :
    readFields? fuel (compactFields (f :: fs) ++ '\x7d' :: rest) = some (f :: fs, rest) := by
  induction fs generalizing f fuel with
  | nil =>
    obtain ⟨k, v⟩ := f
    obtain ⟨fuel, rfl⟩ : ∃ n, fuel = n + 1 + 1 := ⟨fuel - 2, by omega⟩
    have hvalue := readValue?_compact hv.1 (h _ List.mem_cons_self) fuel (ends_brace rest)
    have hs : skipGap (compactFields [(k, v)] ++ '\x7d' :: rest) =
        '"' :: (k.toList.flatMap escapeChar ++ '"' :: ':' ::
          (compactChars v ++ '\x7d' :: rest)) := by
      rw [← skipGap_quoted, compactFields, List.append_assoc]
      rfl
    rw [readFields?_of_value hs hvalue, skipGap_cons rest rfl]
    rfl
  | cons g fs ih =>
    obtain ⟨k, v⟩ := f
    rw [List.length_cons] at hf
    obtain ⟨fuel, rfl⟩ : ∃ n, fuel = n + 1 + 1 := ⟨fuel - 2, by omega⟩
    have hvalue := readValue?_compact hv.1 (h _ List.mem_cons_self) fuel
      (ends_comma (compactFields (g :: fs) ++ '\x7d' :: rest))
    have hs : skipGap (compactFields ((k, v) :: g :: fs) ++ '\x7d' :: rest) =
        '"' :: (k.toList.flatMap escapeChar ++ '"' :: ':' ::
          (compactChars v ++ ',' :: (compactFields (g :: fs) ++ '\x7d' :: rest))) := by
      rw [← skipGap_quoted, compactFields]
      · simp only [List.append_assoc, List.cons_append]
      · rintro ⟨⟩
    have hfields : readFields? (fuel + 1) (compactFields (g :: fs) ++ '\x7d' :: rest) =
        some (g :: fs, rest) :=
      ih hv.2 (fun g' hg' => h g' (List.mem_cons_of_mem _ hg')) (by omega)
    rw [readFields?_of_value hs hvalue, skipGap_cons _ rfl]
    simp only [hfields, Option.map_some]

theorem length_le_compactFields (fs : List (String × Json)) :
    fs.length ≤ (compactFields fs).length := by
  induction fs with
  | nil => exact Nat.le_refl 0
  | cons f fs ih =>
    obtain ⟨k, v⟩ := f
    cases fs with
    | nil => exact Nat.succ_le_succ (Nat.zero_le _)
    | cons g fs =>
      rw [compactFields]
      · simp only [List.length_append, List.length_cons] at ih ⊢
        omega
      · rintro ⟨⟩

/-- An object of values without parts is read back. -/
theorem ofText?_compact {f : String × Json} {fs : List (String × Json)}
    (hv : WrittenFields (f :: fs)) (h : ∀ g ∈ f :: fs, g.2.IsAtom) :
    ofText? (object (f :: fs)).compact = some (.object (f :: fs)) := by
  have htext : (object (f :: fs)).compact.toList =
      '\x7b' :: (compactFields (f :: fs) ++ ['\x7d']) := String.toList_ofList
  have hfuel : fs.length + 2 ≤ 2 * (object (f :: fs)).compact.length + 1 := by
    have := length_le_compactFields (f :: fs)
    rw [List.length_cons] at this
    rw [← String.length_toList, htext, List.length_cons, List.length_append]
    omega
  have hfields := readFields?_compact hv h hfuel []
  rw [ofText?, htext, readValue?, skipGap_cons _ rfl]
  simp only [hfields, Option.map_some]

end Json

/-! ## Records -/

namespace LockMetadata

theorem ofJson?_toJson (m : LockMetadata) :
    ofJson? m.toJson =
      if m.pid < UInt32.size ∧ m.acquiredAt < UInt64.size then some m else none := by
  show Option.bind (some _) _ = _
  rw [Option.bind_some,
    Json.readField?_of_filter (Json.asNat? UInt32.size) (v := .ofNat m.pid) rfl,
    Json.readField?_of_filter Json.asText? (v := .string m.host) rfl,
    Json.readField?_of_filter (Json.asNat? UInt64.size) (v := .ofNat m.acquiredAt) rfl,
    Json.asNat?_ofNat (by decide), Json.asNat?_ofNat (by decide)]
  by_cases hpid : m.pid < UInt32.size
  · by_cases hat : m.acquiredAt < UInt64.size
    · rw [if_pos hpid, if_pos hat, if_pos ⟨hpid, hat⟩]
      rfl
    · have hlarge : ¬(m.pid < UInt32.size ∧ m.acquiredAt < UInt64.size) := fun h => hat h.2
      rw [if_pos hpid, if_neg hat, if_neg hlarge]
      rfl
  · have hlarge : ¬(m.pid < UInt32.size ∧ m.acquiredAt < UInt64.size) := fun h => hpid h.1
    rw [if_neg hpid, if_neg hlarge]
    rfl

/-- A record is read back if its numbers are in range; otherwise none is. -/
theorem ofText?_text (m : LockMetadata) :
    ofText? m.text = if m.pid < UInt32.size ∧ m.acquiredAt < UInt64.size then some m else none := by
  have hread : Json.ofText? m.text = some m.toJson :=
    Json.ofText?_compact ⟨Json.written_ofNat _, trivial, Json.written_ofNat _, trivial⟩ (by
      simp only [List.forall_mem_cons]
      exact ⟨trivial, trivial, trivial, List.forall_mem_nil _⟩)
  rw [ofText?, hread, Option.bind_some, ofJson?_toJson]

/-- The record that the bytes of a file hold. -/
def ofBytes? (bytes : ByteArray) : Option LockMetadata :=
  match String.fromUTF8? bytes with
  | none => none
  | some s => if (Text.trim s.toList).isEmpty then none else ofText? s

theorem ofBytes?_empty : ofBytes? .empty = none := rfl

/-- The bytes of a record hold it, if its numbers are in range; otherwise they hold none. -/
theorem ofBytes?_text (m : LockMetadata) :
    ofBytes? m.text.toUTF8 =
      if m.pid < UInt32.size ∧ m.acquiredAt < UInt64.size then some m else none := by
  have hblank : (Text.trim m.text.toList).isEmpty = false := by
    rw [List.isEmpty_eq_false_iff, text, Json.compact, String.toList_ofList]
    exact Text.trim_ne_nil rfl _
  rw [ofBytes?, FileTree.fromUTF8?_toUTF8]
  dsimp only
  rw [hblank, if_neg Bool.false_ne_true, ofText?_text]

theorem eq_of_ofBytes?_text {m m' : LockMetadata} (h : ofBytes? m.text.toUTF8 = some m') :
    m' = m := by
  rw [ofBytes?_text] at h
  split at h
  · exact (Option.some.inj h).symm
  · cases h

end LockMetadata

/-! ## Places -/

namespace FileTree

/-- The record at a place. -/
def recordAt? (t : FileTree) (l : Location) : Option LockMetadata :=
  (t.bytesAt? l).bind LockMetadata.ofBytes?

end FileTree

theorem FileLock.recordAt?_of_holder? {l : FileLock} {d : Disk} {m : LockMetadata}
    (h : l.holder? d = some m) : d.tree.recordAt? (DiskPath.resolve l.path) = some m := by
  rw [holder?, LockMetadata.read?] at h
  rcases hl : d.tree.locate l.path with e | place
  · rw [FileTree.readText, FileTree.readBytes, FileTree.find, hl] at h
    cases h
  · rw [FileTree.readText_of_locate hl] at h
    obtain rfl := FileTree.locate_eq_resolve hl
    rw [FileTree.recordAt?, FileTree.bytesAt?]
    rcases hn : d.tree.node? (DiskPath.resolve l.path) with _ | _ | id <;> rw [hn] at h
    · cases h
    · cases h
    · show LockMetadata.ofBytes? (d.tree.content id) = some m
      rw [LockMetadata.ofBytes?]
      dsimp only at h
      rcases hs : String.fromUTF8? (d.tree.content id) with _ | s <;> rw [hs] at h
      · cases h
      · exact h

end SpecLinkage
