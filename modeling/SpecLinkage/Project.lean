import SpecLinkage.Config
import SpecLinkage.Policy.Basic
import SpecLinkage.Report.Render
import SpecLinkage.Workspace

/-! # Projects

A project follows its files as they are created, modified and deleted.  It owns the
settings, the rules, and the store with its lock; paths below its root are taken relative
to the root.

* `Project.afterModification` checks a file and records its tags, in one update.
* `Project.fileDeleted` forgets the tags of a file.
* `Project.relative_of_relativeTo?`: under which path a file below the root is known. -/

namespace SpecLinkage

/-- Why a project cannot be opened. -/
inductive ProjectError
  | config (e : Config.LoadError)
  /-- A glob in the settings cannot be read. -/
  | glob (e : GlobError)
  deriving DecidableEq, Repr

namespace ProjectError

/-- What went wrong, without the reason. -/
def heading : ProjectError → String
  | config e => "Configuration error: " ++ e.heading
  | glob e => "Configuration error: " ++ e.message

/-- What went wrong, with the reason. -/
def message : ProjectError → String
  | config e => "Configuration error: " ++ e.message
  | glob e => "Configuration error: " ++ e.message

end ProjectError

/-- Why a report was not written. -/
inductive ExportError
  /-- The directory of the file cannot be made. -/
  | directory (path : String) (cause : AccessError)
  | file (path : String) (cause : AccessError)
  deriving DecidableEq, Repr

namespace ExportError

/-- What went wrong, without the reason. -/
def heading : ExportError → String
  | directory path _ => "Failed to create directory " ++ path
  | file path _ => "Failed to write report " ++ path

end ExportError

/-- A project with its state. -/
structure Project where
  root : String
  config : Config
  policy : Policy
  workspace : Workspace

namespace Project

/-- The configuration file below the root of a project. -/
def configPath : String := ".tagtrace/config.yaml"

def lockName : String := "store"

/-! ## Opening -/

/-- A project with given parts. -/
def assemble (root : String) (config : Config) (catalog : Catalog) (store : Store) (lock : Lock)
    (me : Identity) (disk : Disk) : Except ProjectError Project :=
  match config.makeCodePaths with
  | .error e => .error (.glob e)
  | .ok codePaths =>
    .ok { root, config
          policy := .make codePaths catalog config.domains config.strict
          workspace := { me, disk, store, locks := .ofList [(lockName, lock)] } }

/-- The lock of a store, as the settings ask for it. -/
def storeLock (config : Config) (storePath : String) : FileLock :=
  { FileLock.forStore storePath with
    pollInterval := config.lock.pollIntervalMs
    staleAfter := config.lock.staleAfterSecs * 1000 }

/-- The project at a root with given settings; the store and the spec documents are on
disk. -/
def withConfig (root : String) (config : Config) (me : Identity) (disk : Disk) :
    Except ProjectError Project :=
  let storePath := config.resolvedStorePath root
  assemble root config (.directory (config.resolvedSpecsDir root))
    (Store.openAt disk.tree storePath) (.file (storeLock config storePath) none) me disk

/-- The project at a root with the settings of its configuration file. -/
def openAt (root : String) (me : Identity) (disk : Disk) : Except ProjectError Project :=
  match Config.load disk.tree (DiskPath.join root configPath) with
  | .error e => .error (.config e)
  | .ok config => withConfig root config me disk

/-- A project that keeps everything in memory. -/
def inMemory (root : String) (config : Config) (catalog : Catalog) (me : Identity)
    (disk : Disk) : Except ProjectError Project :=
  assemble root config catalog .inMemory (.memory false) me disk

/-! ## Files -/

/-- The path under which a file is known. -/
def relative (p : Project) (path : String) : String :=
  normalizePath ((DiskPath.relativeTo? p.root path).getD path)

/-- Milliseconds that an operation waits for the lock. -/
def timeout (p : Project) : Nat := p.config.lock.timeoutSecs * 1000

def update {α : Type} (p : Project) (body : Workspace → Except StoreError α × Workspace) :
    Except UpdateError α × Project :=
  let (result, w) := p.workspace.update lockName p.timeout body
  (result, { p with workspace := w })

/-- Check a file that is about to be created.  Nothing is recorded. -/
def beforeCreation (p : Project) (path content : String) : PolicyReport :=
  p.policy.beforeCreation p.workspace.disk.tree p.workspace.store.records (p.relative path) content

/-- Check a file and record its tags in the place of the old ones. -/
def modify (p : Project) (path content : String) (w : Workspace) :
    Except StoreError PolicyReport × Workspace :=
  let report := p.policy.afterModification w.store.records path content
  let (result, w) := w.onStore (Store.replaceFileTags path (TagSet.ofDocument path content).tags)
  (result.map fun _ => report, w)

/-- Check a modified file and record its tags, in one update. -/
def afterModification (p : Project) (path content : String) :
    Except UpdateError PolicyReport × Project :=
  p.update (p.modify (p.relative path) content)

/-- Forget the tags of a deleted file, and say how many there were. -/
def fileDeleted (p : Project) (path : String) : Except UpdateError Nat × Project :=
  p.update fun w => w.onStore (Store.removeFileTags (p.relative path))

/-- Forget all tags. -/
def clear (p : Project) : Except UpdateError Unit × Project :=
  p.update fun w => w.onStore Store.clear

/-- Read the store again. -/
def reload (p : Project) : Project := { p with workspace := p.workspace.reload }

/-! ## Questions -/

/-- The recorded tags whose spec has no document. -/
def orphanedTags (p : Project) : List Tag :=
  p.workspace.store.orphanedTags p.policy.catalog p.workspace.disk.tree

/-- The links of all recorded tags. -/
def links (p : Project) : List Link := p.workspace.store.links

/-- The report on all links. -/
def report (p : Project) (format : ReportFormat) (title : String) : String :=
  (Report.ofLinks p.links title).render format none

/-- Write the report to a file below the root. -/
def exportReport (p : Project) (path : String) (format : ReportFormat) :
    Except ExportError Unit × Project :=
  let path := DiskPath.join p.root path
  let put (t : FileTree) : Project :=
    { p with workspace := { p.workspace with disk := { p.workspace.disk with tree := t } } }
  match p.workspace.disk.tree.makeParent path with
  | .error e => (.error (.directory ((DiskPath.parent? path).getD "") e), p)
  | .ok t =>
    match t.writeFile path (p.report format Report.defaultTitle).toUTF8 with
    | .error e => (.error (.file path e), put t)
    | .ok t => (.ok (), put t)

/-! ## Lemmas -/

/-- A file below the root is known by its path from there. -/
theorem relative_of_relativeTo? (p : Project) {path r : String}
    (h : DiskPath.relativeTo? p.root path = some r) : p.relative path = normalizePath r := by
  simp [relative, h]

end Project

end SpecLinkage
