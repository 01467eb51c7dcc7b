import SpecLinkage.Proofs.Lock.Footprint
import Mathlib.Logic.Function.Basic

/-! # Processes at one lock file

Any number of processes take a lock on one file and give it back.  They act one at a time, each by
single steps on the disk and in any order.  A process may crash at any step: the disk frees the
file that it has locked, and what it wrote stays.

* `Contest.step` is one step of one process, `Contest.run` a number of them.
* `Contest.exists_run_acquire` and `Contest.run_release`: with nobody acting in between, the steps
  are those of taking the lock and of giving it back.
* `Contest.Throughout` is what holds in every state of a run.
* `Contest.Sound` is an invariant of all runs: open files have descriptors of their own, and who
  has locked a file is the owner of its lock.
* `Contest.Sound.eq_of_same_file`: one file is locked by one live process. -/

namespace SpecLinkage

/-! ## The disk -/

namespace Disk

/-- What opening a file does to the descriptors. -/
theorem openFile_descriptors {d d' : Disk} {path : String} {r : Except AccessError OpenFile}
    (h : d.openFile path = (r, d')) :
    d'.owners = d.owners ∧ match r with
      | .ok f => f.descriptor = d.nextDescriptor ∧ d'.nextDescriptor = d.nextDescriptor + 1
      | .error _ => d'.nextDescriptor = d.nextDescriptor := by
  rw [openFile] at h
  rcases hm : d.tree.makeParent path with e | t <;> rw [hm] at h
  · cases h
    exact ⟨rfl, rfl⟩
  · dsimp only at h
    rcases ho : t.openOrCreate path with e | ⟨id, t'⟩ <;> rw [ho] at h <;> cases h
    · exact ⟨rfl, rfl⟩
    · exact ⟨rfl, rfl, rfl⟩

/-- What locking a file does to the locks. -/
theorem tryLock_owners {d d' : Disk} {f : OpenFile} (h : d.tryLock f = some d') :
    d'.nextDescriptor = d.nextDescriptor ∧ d'.owner? f.id = some f.descriptor ∧
      ∀ id o, d.owner? id = some o → d'.owner? id = some o := by
  rw [tryLock] at h
  split at h
  · next hfree =>
    cases h
    refine ⟨rfl, SortedMap.get?_insert_self .., fun id o ho => ?_⟩
    have hid : id ≠ f.id := by
      rintro rfl
      rw [hfree] at ho
      cases ho
    exact (SortedMap.get?_insert_of_ne _ _ hid).trans ho
  · next o ho =>
    split at h
    · next hsame =>
      cases h
      exact ⟨rfl, hsame ▸ ho, fun _ _ h => h⟩
    · cases h

end Disk

/-! ## Attempts -/

/-- The file that a process has locked in an attempt, and the record that it is going to write. -/
def LockPhase.locked? : LockPhase → Option (OpenFile × LockMetadata)
  | emptying f m | writing f m => some (f, m)
  | _ => none

/-- Whether the next step of an attempt may change the disk. -/
def LockPhase.acts : LockPhase → Bool
  | opening | locking _ | emptying _ _ | writing _ _ | removing _ => true
  | _ => false

/-- A step that does not change the disk opens and locks nothing. -/
theorem FileLock.step_of_not_acts (l : FileLock) (me : Identity) (start timeout : Nat)
    {p : LockPhase} (d : Disk) (h : p.acts = false) :
    ∃ p', l.step me start timeout p d = (p', d) ∧ p'.locked? = none ∧
      ∀ f, p'.openFile? = some f → p.openFile? = some f := by
  cases p with
  | inspecting =>
    refine ⟨l.judge d.now (l.holder? d), rfl, ?_⟩
    rcases l.holder? d with _ | m
    · exact ⟨rfl, by rintro f ⟨⟩⟩
    · rw [judge]
      split <;> exact ⟨rfl, by rintro f ⟨⟩⟩
  | confirming m =>
    refine ⟨_, rfl, ?_⟩
    split <;> exact ⟨rfl, by rintro f ⟨⟩⟩
  | waiting m =>
    by_cases hover : d.now - start ≥ timeout
    · refine ⟨_, by simp only [step, if_pos hover]; rfl, rfl, by rintro f ⟨⟩⟩
    · refine ⟨_, by simp only [step, if_neg hover]; rfl, rfl, by rintro f ⟨⟩⟩
  | sleeping wake =>
    refine ⟨_, rfl, ?_⟩
    split <;> exact ⟨rfl, by rintro f ⟨⟩⟩
  | acquired f => exact ⟨_, rfl, rfl, fun _ h => h⟩
  | failed e => exact ⟨_, rfl, rfl, fun _ h => h⟩
  | _ => cases h

/-- The lock is taken when the record has been written. -/
theorem FileLock.writing_of_acquired {l : FileLock} {me : Identity} {start timeout : Nat}
    {p : LockPhase} {d : Disk} {f : OpenFile} (h : (l.step me start timeout p d).1 = .acquired f)
    (hp : p.isFinal = false) : ∃ m, p = .writing f m := by
  cases hacts : p.acts with
  | false =>
    obtain ⟨p', hstep, -, hopen⟩ := l.step_of_not_acts me start timeout d hacts
    rw [hstep] at h
    have hf := hopen f (by rw [show p' = .acquired f from h]; rfl)
    cases p with
    | inspecting => cases hf
    | confirming m => cases hf
    | waiting m => cases hf
    | sleeping wake => cases hf
    | acquired g => cases hp
    | failed e => cases hp
    | _ => cases hacts
  | true =>
    cases p with
    | opening =>
      rw [step] at h
      rcases ho : d.openFile l.path with ⟨e | g, d'⟩ <;> rw [ho] at h <;> cases h
    | locking g =>
      rw [step] at h
      rcases ht : d.tryLock g with _ | d' <;> rw [ht] at h <;> cases h
    | writing g m =>
      cases h
      exact ⟨m, rfl⟩
    | removing m =>
      rw [step] at h
      split at h <;> cases h
    | emptying g m => cases h
    | _ => cases hacts

/-! ## Stages -/

/-- How far a process has come with the lock. -/
inductive LockStage
  /-- The process does not want the lock. -/
  | outside
  /-- In an attempt that began at `start` and may last for `timeout` milliseconds. -/
  | trying (l : FileLock) (start timeout : Nat) (p : LockPhase)
  /-- The lock is taken, and the record is in the file. -/
  | holding (f : OpenFile) (m : LockMetadata)
  /-- The file is emptied; about to be freed. -/
  | freeing (f : OpenFile) (m : LockMetadata)
  /-- The process is dead; what it has left in the file. -/
  | crashed (left : Option LockMetadata)
  deriving DecidableEq, Repr

namespace LockStage

/-- The stage after a step of an attempt from phase `p`. -/
def after (l : FileLock) (start timeout : Nat) (p : LockPhase) : LockPhase → LockStage
  | .acquired f =>
    match p.locked? with
    | some (_, m) => .holding f m
    | none => .trying l start timeout (.acquired f)
  | .failed _ => .outside
  | p' => .trying l start timeout p'

def openFile? : LockStage → Option OpenFile
  | trying _ _ _ p => p.openFile?
  | holding f _ | freeing f _ => some f
  | _ => none

/-- The file that a live process has locked and not freed yet, and the record that goes with it.
The record tells when the file was locked. -/
def locked? : LockStage → Option (OpenFile × LockMetadata)
  | trying _ _ _ p => p.locked?
  | holding f m | freeing f m => some (f, m)
  | _ => none

/-- The record that a process has left in the file. -/
def mark? : LockStage → Option LockMetadata
  | holding _ m => some m
  | crashed left => left
  | _ => none

/-- The age from which on a record counts as dead for a process that waits for the lock. -/
def threshold? : LockStage → Option Nat
  | trying l _ _ p => if p.locked? = none then some l.staleAfter else none
  | _ => none

theorem openFile?_after (l : FileLock) (start timeout : Nat) (p p' : LockPhase) :
    (after l start timeout p p').openFile? = p'.openFile? := by
  cases p' with
  | acquired f =>
    rw [after]
    split <;> rfl
  | _ => rfl

theorem locked?_after (l : FileLock) (start timeout : Nat) {p : LockPhase} (p' : LockPhase)
    (h : p.locked? = none) : (after l start timeout p p').locked? = p'.locked? := by
  cases p' with
  | acquired f =>
    rw [after, h]
    rfl
  | _ => rfl

theorem openFile?_of_locked? {x : LockStage} {f : OpenFile} {m : LockMetadata}
    (h : x.locked? = some (f, m)) : x.openFile? = some f := by
  cases x with
  | trying l start timeout p => cases p <;> cases h <;> rfl
  | holding => cases h; rfl
  | freeing => cases h; rfl
  | outside => cases h
  | crashed => cases h

end LockStage

/-! ## Processes -/

/-- The disk and the processes at a lock file. -/
structure Contest (ι : Type) where
  disk : Disk
  stage : ι → LockStage

/-- What happens next. -/
inductive LockEvent (ι : Type)
  /-- A process begins an attempt. -/
  | ask (i : ι) (pollInterval staleAfter timeout : Nat)
  /-- A process takes the next step of its attempt, or frees the file that it has emptied. -/
  | act (i : ι)
  /-- A process that holds the lock empties the file. -/
  | release (i : ι)
  /-- A process dies. -/
  | crash (i : ι)
  /-- Time passes. -/
  | wait (ms : Nat)

namespace Contest

variable {ι : Type}

/-- The processes before they want the lock. -/
def start (d : Disk) : Contest ι := ⟨d, fun _ => .outside⟩

section Steps

variable [DecidableEq ι]

/-- A process comes to a stage and leaves a disk. -/
def put (s : Contest ι) (i : ι) (x : LockStage) (d : Disk) : Contest ι :=
  ⟨d, Function.update s.stage i x⟩

variable (me : ι → Identity) (path : String)

/-- One step; an event that is not possible changes nothing. -/
def step (s : Contest ι) : LockEvent ι → Contest ι
  | .ask i pollInterval staleAfter timeout =>
    match s.stage i with
    | .outside =>
      s.put i (.trying ⟨path, pollInterval, staleAfter⟩ s.disk.now timeout .opening) s.disk
    | _ => s
  | .act i =>
    match s.stage i with
    | .trying l start timeout p =>
      s.put i (.after l start timeout p (l.step (me i) start timeout p s.disk).1)
        (l.step (me i) start timeout p s.disk).2
    | .freeing f _ => s.put i .outside (s.disk.close f)
    | _ => s
  | .release i =>
    match s.stage i with
    | .holding f m => s.put i (.freeing f m) (s.disk.overwrite f .empty)
    | _ => s
  | .crash i =>
    s.put i (.crashed (s.stage i).mark?) (match (s.stage i).openFile? with
      | some f => s.disk.close f
      | none => s.disk)
  | .wait ms => { s with disk := s.disk.waitUntil (s.disk.now + ms) }

def run (s : Contest ι) (es : List (LockEvent ι)) : Contest ι := es.foldl (step me path) s

/-- Whether every state of a run has a property. -/
def Throughout (P : Contest ι → Prop) (s : Contest ι) : List (LockEvent ι) → Prop
  | [] => P s
  | e :: es => P s ∧ Throughout P (s.step me path e) es

instance decidableThroughout (P : Contest ι → Prop) [DecidablePred P] :
    (s : Contest ι) → (es : List (LockEvent ι)) → Decidable (Throughout me path P s es)
  | s, [] => inferInstanceAs (Decidable (P s))
  | s, e :: es =>
    have := decidableThroughout P (s.step me path e) es
    inferInstanceAs (Decidable (P s ∧ Throughout me path P (s.step me path e) es))

variable {me path} {s : Contest ι} {i : ι} {x : LockStage} {d : Disk}

@[simp] theorem stage_put_self : (s.put i x d).stage i = x := Function.update_self ..

theorem stage_put_of_ne {j : ι} (h : j ≠ i) : (s.put i x d).stage j = s.stage j :=
  Function.update_of_ne h ..

theorem put_put (y : LockStage) (d' : Disk) : (s.put i x d).put i y d' = s.put i y d' := by
  rw [put, put, put, Function.update_idem]

/-- With nobody acting in between, an attempt that takes the lock is a run. -/
theorem exists_run {l : FileLock} {start timeout n : Nat} {p : LockPhase} {f : OpenFile}
    {d' : Disk} (hi : s.stage i = .trying l start timeout p) (hp : p.isFinal = false)
    (h : l.run (me i) start timeout n p s.disk = (.acquired f, d')) :
    ∃ es m, s.run me path es = s.put i (.holding f m) d' := by
  induction n generalizing s p with
  | zero =>
    cases h
    cases hp
  | succ n ih =>
    rw [FileLock.run_succ l (me i) start timeout n s.disk hp] at h
    obtain ⟨ms, hwait⟩ : ∃ ms, s.step me path (.wait ms) =
        { s with disk := FileLock.awaited p s.disk } := by
      cases p with
      | sleeping wake =>
        refine ⟨wake - s.disk.now, ?_⟩
        have hnow : max s.disk.now (s.disk.now + (wake - s.disk.now)) = max s.disk.now wake := by
          omega
        rw [step, FileLock.awaited, Disk.waitUntil, Disk.waitUntil, hnow]
      | _ =>
        refine ⟨0, ?_⟩
        rw [step, Disk.waitUntil, Nat.add_zero, Nat.max_self]
        rfl
    rcases hstep : l.step (me i) start timeout p (FileLock.awaited p s.disk) with ⟨p', d''⟩
    rw [hstep] at h
    have hact : (s.step me path (.wait ms)).step me path (.act i) =
        s.put i (.after l start timeout p p') d'' := by
      rw [hwait, step]
      simp only [hi, hstep]
      rfl
    cases hp' : p'.isFinal with
    | true =>
      rw [FileLock.run_final l (me i) start timeout n d'' hp'] at h
      cases h
      obtain ⟨m, rfl⟩ := FileLock.writing_of_acquired (congrArg Prod.fst hstep) hp
      exact ⟨[.wait ms, .act i], m, hact⟩
    | false =>
      have hstage : LockStage.after l start timeout p p' = .trying l start timeout p' := by
        cases p' <;> first | rfl | cases hp'
      rw [hstage] at hact
      obtain ⟨es, m, hes⟩ := ih (s := s.put i (.trying l start timeout p') d'') stage_put_self hp' h
      refine ⟨.wait ms :: .act i :: es, m, ?_⟩
      show ((s.step me path (.wait ms)).step me path (.act i)).run me path es = _
      rw [hact, hes, put_put]

/-- Taking the lock takes a number of steps, between which others may act. -/
theorem exists_run_acquire {pollInterval staleAfter timeout : Nat} {f : OpenFile} {d' : Disk}
    (hi : s.stage i = .outside)
    (h : FileLock.acquire ⟨path, pollInterval, staleAfter⟩ (me i) timeout s.disk = (.ok f, d')) :
    ∃ es m, s.run me path (.ask i pollInterval staleAfter timeout :: es) =
      s.put i (.holding f m) d' := by
  have hask : s.step me path (.ask i pollInterval staleAfter timeout) =
      s.put i (.trying ⟨path, pollInterval, staleAfter⟩ s.disk.now timeout .opening) s.disk := by
    rw [step, hi]
  obtain ⟨es, m, hes⟩ : ∃ es m, Contest.run me path _ es = _ :=
    exists_run stage_put_self rfl (FileLock.run_of_acquire h)
  refine ⟨es, m, ?_⟩
  show (s.step me path (.ask i pollInterval staleAfter timeout)).run me path es = _
  rw [hask, hes, put_put]

/-- Giving the lock back takes two steps, between which others may act. -/
theorem run_release {f : OpenFile} {m : LockMetadata} (h : s.stage i = .holding f m) :
    s.run me path [.release i, .act i] = s.put i .outside (FileLock.release f s.disk) := by
  have hrelease : s.step me path (.release i) =
      s.put i (.freeing f m) (s.disk.overwrite f .empty) := by
    rw [step, h]
  have hfree : (s.put i (.freeing f m) (s.disk.overwrite f .empty)).step me path (.act i) =
      (s.put i (.freeing f m) (s.disk.overwrite f .empty)).put i .outside
        ((s.disk.overwrite f .empty).close f) := by
    rw [step, stage_put_self]
    rfl
  show ((s.step me path (.release i)).step me path (.act i)) = _
  rw [hrelease, hfree, put_put]
  rfl

end Steps

/-! ## Descriptors and locks -/

/-- Open files have descriptors of their own, and a file that a live process has locked is locked
under the descriptor of this process. -/
structure Sound (s : Contest ι) : Prop where
  numbered : ∀ i f, (s.stage i).openFile? = some f → f.descriptor < s.disk.nextDescriptor
  distinct : ∀ i j f g, (s.stage i).openFile? = some f → (s.stage j).openFile? = some g →
    f.descriptor = g.descriptor → i = j
  owned : ∀ i f m, (s.stage i).locked? = some (f, m) →
    s.disk.owner? f.id = some f.descriptor

/-- One file is locked by one live process. -/
theorem Sound.eq_of_same_file {s : Contest ι} (h : s.Sound) {i j : ι} {f g : OpenFile}
    {m n : LockMetadata} (hi : (s.stage i).locked? = some (f, m))
    (hj : (s.stage j).locked? = some (g, n)) (hfile : f.id = g.id) : i = j := by
  have howner : some f.descriptor = some g.descriptor := by
    rw [← h.owned i f m hi, ← h.owned j g n hj, hfile]
  exact h.distinct i j f g (LockStage.openFile?_of_locked? hi) (LockStage.openFile?_of_locked? hj)
    (Option.some.inj howner)

theorem sound_start (d : Disk) : (start d : Contest ι).Sound :=
  ⟨by rintro i f ⟨⟩, by rintro i j f g ⟨⟩, by rintro i f m ⟨⟩⟩

section Steps

variable [DecidableEq ι] {me : ι → Identity} {path : String} {s : Contest ι} {i : ι}
  {x : LockStage} {d : Disk}

/-- A process comes to a stage at which it has no other file open than before. -/
theorem Sound.put (h : s.Sound) (hnext : d.nextDescriptor = s.disk.nextDescriptor)
    (hopen : ∀ f, x.openFile? = some f → (s.stage i).openFile? = some f)
    (hself : ∀ f m, x.locked? = some (f, m) → d.owner? f.id = some f.descriptor)
    (hothers : ∀ j f m, j ≠ i → (s.stage j).locked? = some (f, m) →
      d.owner? f.id = some f.descriptor) : (s.put i x d).Sound := by
  have hopen' : ∀ j f, ((s.put i x d).stage j).openFile? = some f →
      (s.stage j).openFile? = some f := by
    intro j f hf
    by_cases hj : j = i
    · subst hj
      rw [stage_put_self] at hf
      exact hopen f hf
    · rwa [stage_put_of_ne hj] at hf
  refine ⟨fun j f hf => ?_, fun j k f g hf hg => ?_, fun j f m hm => ?_⟩
  · exact hnext ▸ h.numbered j f (hopen' j f hf)
  · exact h.distinct j k f g (hopen' j f hf) (hopen' k g hg)
  · by_cases hj : j = i
    · subst hj
      rw [stage_put_self] at hm
      exact hself f m hm
    · rw [stage_put_of_ne hj] at hm
      exact hothers j f m hj hm

/-- A process acts on the files, and has no other file open or locked than before. -/
theorem Sound.put_kept (h : s.Sound) (howners : d.owners = s.disk.owners)
    (hnext : d.nextDescriptor = s.disk.nextDescriptor)
    (hopen : ∀ f, x.openFile? = some f → (s.stage i).openFile? = some f)
    (hlocked : ∀ f m, x.locked? = some (f, m) → (s.stage i).locked? = some (f, m)) :
    (s.put i x d).Sound := by
  have hown : ∀ j f m, (s.stage j).locked? = some (f, m) → d.owner? f.id = some f.descriptor := by
    intro j f m hm
    rw [Disk.owner?, howners]
    exact h.owned j f m hm
  exact h.put hnext hopen (fun f m hm => hown i f m (hlocked f m hm)) fun j f m _ => hown j f m

/-- A process acts on the files, and has none open then. -/
theorem Sound.put_bare (h : s.Sound) (howners : d.owners = s.disk.owners)
    (hnext : d.nextDescriptor = s.disk.nextDescriptor) (hx : x.openFile? = none) :
    (s.put i x d).Sound := by
  refine h.put_kept howners hnext ?_ ?_
  · intro f hf
    rw [hx] at hf
    cases hf
  · intro f m hm
    rw [LockStage.openFile?_of_locked? hm] at hx
    cases hx

/-- A process frees the file that it has open. -/
theorem Sound.put_closed (h : s.Sound) {f : OpenFile} (hf : (s.stage i).openFile? = some f)
    (hx : x.openFile? = none) : (s.put i x (s.disk.close f)).Sound := by
  have hnext : (s.disk.close f).nextDescriptor = s.disk.nextDescriptor := by
    rw [Disk.close]
    split <;> rfl
  refine h.put hnext ?_ ?_ ?_
  · intro g hg
    rw [hx] at hg
    cases hg
  · intro g m hm
    rw [LockStage.openFile?_of_locked? hm] at hx
    cases hx
  · intro j g m hj hm
    have hown := h.owned j g m hm
    -- the lock that is freed belongs to another descriptor
    have hother : ¬(s.disk.owner? g.id = some f.descriptor ∧ g.id = f.id) := by
      rintro ⟨ho, -⟩
      rw [hown] at ho
      exact hj (h.distinct j i g f (LockStage.openFile?_of_locked? hm) hf (Option.some.inj ho))
    rw [Disk.owner?_close, if_neg hother, hown]

/-- A process locks the file that it has open. -/
theorem Sound.put_locked (h : s.Sound) {f : OpenFile} {m : LockMetadata}
    (hf : (s.stage i).openFile? = some f) (ht : s.disk.tryLock f = some d)
    (hx : x.openFile? = some f) (hlocked : x.locked? = some (f, m)) : (s.put i x d).Sound := by
  obtain ⟨hnext, hown, hkeep⟩ := Disk.tryLock_owners ht
  refine h.put hnext ?_ ?_ fun j g m' _ hm => hkeep _ _ (h.owned j g m' hm)
  · intro g hg
    rw [hx] at hg
    exact hg ▸ hf
  · intro g m' hm
    rw [hlocked] at hm
    cases hm
    exact hown

/-- A process opens a file. -/
theorem Sound.put_opened (h : s.Sound) {f : OpenFile} (howners : d.owners = s.disk.owners)
    (hnew : f.descriptor = s.disk.nextDescriptor)
    (hnext : d.nextDescriptor = s.disk.nextDescriptor + 1) (hx : x.openFile? = some f)
    (hlocked : x.locked? = none) : (s.put i x d).Sound := by
  have hself : ∀ g, ((s.put i x d).stage i).openFile? = some g → g = f := by
    intro g hg
    rw [stage_put_self, hx] at hg
    exact (Option.some.inj hg).symm
  have hothers : ∀ j g, j ≠ i → ((s.put i x d).stage j).openFile? = some g →
      (s.stage j).openFile? = some g ∧ g.descriptor < f.descriptor := by
    intro j g hj hg
    rw [stage_put_of_ne hj] at hg
    exact ⟨hg, hnew ▸ h.numbered j g hg⟩
  refine ⟨fun j g hg => ?_, fun j k g g' hg hg' heq => ?_, fun j g m hm => ?_⟩
  · show g.descriptor < d.nextDescriptor
    rw [hnext, ← hnew]
    by_cases hj : j = i
    · subst hj
      rw [hself g hg]
      exact Nat.lt_succ_self _
    · exact Nat.lt_succ_of_lt (hothers j g hj hg).2
  · -- the new descriptor is larger than all others
    by_cases hj : j = i <;> by_cases hk : k = i
    · rw [hj, hk]
    · subst hj
      rw [hself g hg] at heq
      exact absurd heq (Nat.ne_of_gt (hothers k g' hk hg').2)
    · subst hk
      rw [hself g' hg'] at heq
      exact absurd heq (Nat.ne_of_lt (hothers j g hj hg).2)
    · exact h.distinct j k g g' (hothers j g hj hg).1 (hothers k g' hk hg').1 heq
  · by_cases hj : j = i
    · subst hj
      rw [stage_put_self, hlocked] at hm
      cases hm
    · rw [stage_put_of_ne hj] at hm
      have hkeep : d.owner? g.id = s.disk.owner? g.id := by
        rw [Disk.owner?, Disk.owner?, howners]
      exact hkeep.trans (h.owned j g m hm)

/-! ## Steps -/

/-- A step of an attempt. -/
theorem Sound.attempt (h : s.Sound) {l : FileLock} {start timeout : Nat} {p : LockPhase}
    (hi : s.stage i = .trying l start timeout p) :
    (s.put i (.after l start timeout p (l.step (me i) start timeout p s.disk).1)
      (l.step (me i) start timeout p s.disk).2).Sound := by
  have hopen : (s.stage i).openFile? = p.openFile? := by
    rw [hi]
    rfl
  have hlocked : (s.stage i).locked? = p.locked? := by
    rw [hi]
    rfl
  cases hacts : p.acts with
  | false =>
    obtain ⟨p', hstep, hnone, hopen'⟩ := l.step_of_not_acts (me i) start timeout s.disk hacts
    have hfree : p.locked? = none := by
      cases p <;> cases hacts <;> rfl
    rw [hstep]
    refine h.put_kept rfl rfl ?_ ?_
    · intro f hf
      rw [LockStage.openFile?_after] at hf
      exact hopen.trans (hopen' f hf)
    · intro f m hm
      rw [LockStage.locked?_after l start timeout p' hfree, hnone] at hm
      cases hm
  | true =>
    cases p with
    | opening =>
      rw [FileLock.step]
      rcases ho : s.disk.openFile l.path with ⟨e | f, d'⟩ <;>
        obtain ⟨howners, hnext⟩ := Disk.openFile_descriptors ho
      · exact h.put_bare howners hnext rfl
      · exact h.put_opened howners hnext.1 hnext.2 rfl rfl
    | locking f =>
      rw [FileLock.step]
      rcases ht : s.disk.tryLock f with _ | d'
      · exact h.put_bare rfl rfl rfl
      · exact h.put_locked hopen ht rfl rfl
    | emptying f m =>
      exact h.put_kept rfl rfl (fun g hg => hopen.trans hg) fun g n hn => hlocked.trans hn
    | writing f m =>
      exact h.put_kept rfl rfl (fun g hg => hopen.trans hg) fun g n hn => hlocked.trans hn
    | removing m =>
      rw [FileLock.step]
      split
      · exact h.put_bare rfl rfl rfl
      · exact h.put_bare rfl rfl rfl
      · exact h.put_bare rfl rfl rfl
    | _ => cases hacts

theorem Sound.step (h : s.Sound) (e : LockEvent ι) : (s.step me path e).Sound := by
  cases e with
  | ask i pollInterval staleAfter timeout =>
    rw [Contest.step]
    split
    · exact h.put_bare rfl rfl rfl
    · exact h
  | act i =>
    rw [Contest.step]
    split
    · next hi => exact h.attempt hi
    · next hi => exact h.put_closed (by rw [hi]; rfl) rfl
    · exact h
  | release i =>
    rw [Contest.step]
    split
    · next hi =>
      refine h.put_kept rfl rfl ?_ ?_
      · rintro g ⟨⟩
        rw [hi]
        rfl
      · rintro g n ⟨⟩
        rw [hi]
        rfl
    · exact h
  | crash i =>
    rw [Contest.step]
    split
    · next hf => exact h.put_closed hf rfl
    · exact h.put_bare rfl rfl rfl
  | wait ms => exact ⟨h.numbered, h.distinct, h.owned⟩

theorem Sound.run (h : s.Sound) (es : List (LockEvent ι)) : (s.run me path es).Sound := by
  induction es generalizing s with
  | nil => exact h
  | cons e es ih => exact ih (h.step e)

end Steps

end Contest

end SpecLinkage
