import Mathlib.Logic.Function.Basic
import SpecLinkage.Proofs.Store.Follow

/-! # Many handles on one store

Several stores have one file and share one lock.  Each of them has its own records in memory, which
may be out of date, and the steps of their updates may come in any order: take the lock, reload, run
the program, write, give the lock back.

* `Handles` are the handles with what they share, and `Handles.step` is one step.  A step that is
  not possible changes nothing, so every list of events is a run.
* `Handles.log` are the updates in the order in which they have taken the lock.
* `Handles.run_update`: the steps of one update, with nothing in between, are an update.
* `StoreProgram.landed` is what one update alone makes of the records in the file. -/

namespace SpecLinkage

/-- An update that has taken the lock. -/
structure Ticket (α : Type) where
  program : StoreProgram α
  /-- How it has ended, if it has. -/
  result : Option (Except StoreError α)

/-- How far a handle has come with its update. -/
inductive UpdatePhase (α : Type)
  | idle
  /-- It has taken the lock. -/
  | locked (p : StoreProgram α)
  /-- It has reloaded and remembers the tags. -/
  | loaded (p : StoreProgram α) (snapshot : List Tag)
  /-- The program has run. -/
  | applied (snapshot : List Tag) (result : Except StoreError α)
  /-- It has written, or brought back the tags, and has still to give the lock back. -/
  | settled

/-- What a handle does next. -/
inductive HandleEvent (ι α : Type)
  | acquire (i : ι) (p : StoreProgram α)
  /-- Reload, in an update or outside of any. -/
  | reload (i : ι)
  | apply (i : ι)
  /-- Write if there is something to write; the disk may fail for a reason of its own. -/
  | persist (i : ι) (fault : Option StoreError)
  | release (i : ι)

/-- Handles on one store. -/
structure Handles (ι α : Type) where
  me : Identity
  disk : Disk
  store : ι → Store
  phase : ι → UpdatePhase α
  /-- Who has the lock. -/
  holder : Option ι
  /-- The updates that have taken the lock, the first one first. -/
  log : List (Ticket α)

namespace Handles

variable {ι α : Type} [DecidableEq ι]

/-! ## Steps -/

/-- What a handle works with. -/
def workspace (s : Handles ι α) (i : ι) : Workspace :=
  { me := s.me, disk := s.disk, store := s.store i }

/-- The handles after one of them has done something and come to another phase. -/
def keep (s : Handles ι α) (i : ι) (w : Workspace) (phase : UpdatePhase α) : Handles ι α :=
  { s with
    disk := w.disk
    store := Function.update s.store i w.store
    phase := Function.update s.phase i phase }

/-- Note how the update that is under way has ended. -/
def close (log : List (Ticket α)) (result : Except StoreError α) : List (Ticket α) :=
  log.map fun t => if t.result.isNone then { t with result := some result } else t

/-- The result of a program that is to be written, if the disk fails. -/
def spoil (fault : Option StoreError) (w : Workspace) (result : Except StoreError α) :
    Except StoreError α :=
  match fault, result with
  | some e, .ok a => if w.store.dirty then .error e else .ok a
  | _, result => result

def step (s : Handles ι α) : HandleEvent ι α → Handles ι α
  | .acquire i p =>
    match s.phase i, s.holder with
    | .idle, none =>
      { s with
        phase := Function.update s.phase i (.locked p)
        holder := some i
        log := s.log ++ [⟨p, none⟩] }
    | _, _ => s
  | .reload i =>
    let w := (s.workspace i).reload
    match s.phase i with
    | .idle => s.keep i w .idle
    | .locked p => s.keep i w.deferWrites (.loaded p w.store.tags)
    | _ => s
  | .apply i =>
    match s.phase i with
    | .loaded p snapshot =>
      let (result, w) := p.run (s.workspace i)
      s.keep i w (.applied snapshot result)
    | _ => s
  | .persist i fault =>
    match s.phase i with
    | .applied snapshot result =>
      let (result, w) := Workspace.settle snapshot (spoil fault (s.workspace i) result) (s.workspace i)
      { s.keep i w .settled with log := close s.log result }
    | _ => s
  | .release i =>
    match s.phase i with
    | .settled => { s with phase := Function.update s.phase i .idle, holder := none }
    | _ => s

def run (s : Handles ι α) (es : List (HandleEvent ι α)) : Handles ι α := es.foldl step s

/-- The programs of the updates that have gone well, in the order in which they took the lock. -/
def succeeded (log : List (Ticket α)) : List (StoreProgram α) :=
  log.filterMap fun t =>
    match t.result with
    | some (.ok _) => some t.program
    | _ => none

theorem workspace_keep (s : Handles ι α) (i : ι) {w : Workspace} (phase : UpdatePhase α)
    (hme : w.me = s.me) (hlocks : w.locks = {}) : (s.keep i w phase).workspace i = w := by
  obtain ⟨me, disk, locks, store⟩ := w
  cases hme
  cases hlocks
  simp only [workspace, keep, Function.update_self]
  rfl

/-- The steps of one update, with nothing in between, do what an update does under its lock. -/
theorem run_update (s : Handles ι α) (i : ι) (p : StoreProgram α) (hidle : s.phase i = .idle)
    (hfree : s.holder = none) :
    let o := Workspace.transact (fun w => (((), (p.run w).1), (p.run w).2)) (s.workspace i)
    s.run [.acquire i p, .reload i, .apply i, .persist i none, .release i] =
      { s.keep i o.2 .idle with log := close (s.log ++ [⟨p, none⟩]) o.1.2 } := by
  intro o
  let w := (s.workspace i).reload
  have hrun := p.run_deferred w.deferWrites rfl
  let s₁ : Handles ι α := { s with
    phase := Function.update s.phase i (.locked p)
    holder := some i
    log := s.log ++ [⟨p, none⟩] }
  have h₁ : s.step (.acquire i p) = s₁ := by
    simp only [step, hidle, hfree]
    rfl
  have h₂ : s₁.step (.reload i) = s₁.keep i w.deferWrites (.loaded p w.store.tags) := by
    simp only [step, s₁, Function.update_self]
    rfl
  have h₃ : (s₁.keep i w.deferWrites (.loaded p w.store.tags)).step (.apply i) =
      s₁.keep i (p.run w.deferWrites).2 (.applied w.store.tags (p.run w.deferWrites).1) := by
    have hw := s₁.workspace_keep i (.loaded p w.store.tags) (w := w.deferWrites) rfl rfl
    simp only [step, hw]
    simp only [keep, Function.update_self, Function.update_idem]
  have h₄ : (s₁.keep i (p.run w.deferWrites).2
        (.applied w.store.tags (p.run w.deferWrites).1)).step (.persist i none) =
      { s₁.keep i o.2 .settled with log := close s₁.log o.1.2 } := by
    have hw := s₁.workspace_keep i (.applied w.store.tags (p.run w.deferWrites).1)
      (w := (p.run w.deferWrites).2) (by rw [hrun]; rfl) (by rw [hrun]; rfl)
    simp only [step, hw]
    simp only [keep, Function.update_self, Function.update_idem]
    rfl
  simp only [run, List.foldl_cons, List.foldl_nil, h₁, h₂, h₃, h₄]
  simp only [step, keep, Function.update_self, Function.update_idem, s₁, hfree]

end Handles

/-! ## One update alone -/

/-- What is read again after records were written. -/
def Records.reread (r : Records) : Records :=
  .ofTags (((StoreDocument.ofText? (Store.textOf r)).map StoreDocument.tags).getD [])

/-- What is read again after an update with a program, if these records are read before it.  If
nothing is changed then nothing is written. -/
def StoreProgram.landed {α : Type} (p : StoreProgram α) (r : Records) : Records :=
  if (p.plan r).2.2 = 0 then r else (p.plan r).2.1.reread

/-- What is read again after updates, one after the other. -/
def StoreProgram.landedAll {α : Type} (r : Records) (ps : List (StoreProgram α)) : Records :=
  ps.foldl (fun r p => p.landed r) r

end SpecLinkage
