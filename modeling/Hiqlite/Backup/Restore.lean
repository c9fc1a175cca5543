import Hiqlite.Lib.Exec
import Hiqlite.Snapshot.Select

/-!
# B1 — restoring a backup

`restore_backup` replaces the database file while the node is down, and `StateMachineSqlite::new`
opens it at the next start: **`restored_backup_opens_iff`**; `lock_file_empties_restored`.
-/

namespace Hiqlite.Backup

open Exec Function
open Snapshot (DirEntry)
open Snapshot.Sqlite (Name Meta readCurrentSnapshot)

inductive Place (E : Type)
  | absent
  | file
  | dir (entries : E)
  deriving DecidableEq

/-- `create_dir_all`, which fails on a regular file. -/
def Place.createDirAll {E : Type} (new : E) : Place E → Option (Place E)
  | .absent => some (.dir new)
  | .file => none
  | .dir entries => some (.dir entries)

/-- `remove_dir_all`, which removes nothing on a regular file. -/
def Place.removeDirAll {E : Type} : Place E → Place E
  | .dir _ => .absent
  | p => p

inductive Entry (D : Type)
  | file (content : D)
  | dir
  deriving DecidableEq

abbrev Files (D : Type) := String → Option (Entry D)

def Files.content {D : Type} (f : Files D) (name : String) : Option D :=
  match f name with
  | some (.file d) => some d
  | _ => none

def Files.hasDir {D : Type} (f : Files D) (name : String) : Bool :=
  match f name with
  | some .dir => true
  | _ => false

/-- The data directory. `baseIsFile`: there is a regular file at `state_machine`. -/
structure DataDir (D : Type) where
  baseIsFile : Bool
  db : Place (Files D)
  backups : Place (Files D)
  snapshots : Place (List (DirEntry Name (Option (Meta × D))))
  lock : Place Unit
  logs : Place Unit

def Place.files {D : Type} : Place (Files D) → Files D
  | .dir f => f
  | _ => fun _ => none

structure Engine (D : Type) where
  empty : D
  /-- The database in a file with a write-ahead log and a rollback journal next to it, if it is
  one. -/
  openDb : D → Option D → Option D → Option D
  /-- The metadata is there and `PRAGMA integrity_check` finds nothing. -/
  valid : D → Bool
  openDb_alone : ∀ d d', openDb d none none = some d' → d' = d
  openDb_empty : openDb empty none none = some empty

variable {D : Type}

def walName (name : String) : String := name ++ "-wal"

def journalName (name : String) : String := name ++ "-journal"

def Engine.openFile (Q : Engine D) (f : Files D) (name : String) : Option D :=
  (f.content name).bind fun d => Q.openDb d (f.content (walName name)) (f.content (journalName name))

/-! ## The restore -/

inductive SourcePath
  | outside (path filename : String)
  | backups (filename : String)
  deriving DecidableEq

inductive BackupSource
  | s3 (object : String)
  | file (path : SourcePath)
  deriving DecidableEq

/-- The configuration and what is outside of the data directory. -/
structure NodeConfig (D : Type) where
  filenameDb : String
  s3Config : Option (String → Option D)
  files : String → Option D
  /-- `HQL_BACKUP_SKIP_VALIDATION` -/
  skipValidation : Bool

inductive RestoreError
  | s3
  | io
  | invalid
  deriving DecidableEq

def backupDbName : String := "restore.sqlite"

def createBackups : Exec (DataDir D) RestoreError Unit := do
  let s ← Exec.get
  if s.baseIsFile then stop .io
  else
    match s.backups.createDirAll fun _ => none with
    | none => stop .io
    | some backups => modify fun s => { s with backups }

def writeBackup (name : String) (d : D) : Exec (DataDir D) RestoreError Unit := do
  let s ← Exec.get
  if s.backups.files.hasDir name then stop .io
  else
    modify fun s => { s with
      backups := .dir (update s.backups.files name (some (.file d))) }

variable (Q : Engine D) (cfg : NodeConfig D)

def fetch (src : BackupSource) : Exec (DataDir D) RestoreError String := do
  match src with
  | .s3 object =>
    let remote ← unwrap .s3 cfg.s3Config
    createBackups
    let d ← unwrap .s3 (remote object)
    writeBackup backupDbName d
    pure backupDbName
  | .file (.outside path filename) =>
    createBackups
    let d ← unwrap .io (cfg.files path)
    writeBackup filename d
    pure filename
  | .file (.backups filename) =>
    createBackups
    let s ← Exec.get
    let _ ← unwrap .io (s.backups.files.content filename)
    -- the target is truncated before the source, which is the same file, is read
    writeBackup filename Q.empty
    pure filename

/-- `validate_backup_db`. The log and the journal of the file are gone when it is closed. -/
def validateBackupDb (name : String) : Exec (DataDir D) RestoreError Unit := do
  if cfg.skipValidation then pure ()
  else
    let s ← Exec.get
    let d ← unwrap .invalid (Q.openFile s.backups.files name)
    modify fun s => { s with
      backups := .dir (update (update (update s.backups.files
        (walName name) none) (journalName name) none) name (some (.file d))) }
    if Q.valid d then pure () else stop .invalid

def DataDir.wipe (s : DataDir D) : DataDir D :=
  { s with
    db := s.db.removeDirAll
    snapshots := s.snapshots.removeDirAll
    lock := s.lock.removeDirAll
    logs := s.logs.removeDirAll }

def moveIntoPlace (name : String) : Exec (DataDir D) RestoreError Unit := do
  let s ← Exec.get
  let db ← unwrap .io (s.db.createDirAll fun _ => none)
  modify fun s => { s with db }
  let d ← unwrap .io (s.backups.files.content name)
  if db.files.hasDir cfg.filenameDb then stop .io
  else
    modify fun s => { s with
      db := .dir (update db.files cfg.filenameDb (some (.file d)))
      backups := .dir (update s.backups.files name none) }

def restoreBackup (src : BackupSource) : Exec (DataDir D) RestoreError Unit := do
  let name ← fetch Q cfg src
  validateBackupDb Q cfg name
  modify DataDir.wipe
  moveIntoPlace cfg name

/-! ## The start -/

inductive StartError
  | panic
  | io
  deriving DecidableEq

def buildFolders : Exec (DataDir D) StartError Unit := do
  let s ← Exec.get
  if s.baseIsFile then stop .panic
  else
    -- an error for the database directory is ignored
    modify fun s => { s with db := (s.db.createDirAll fun _ => none).getD s.db }
    let backups ← unwrap .panic (s.backups.createDirAll fun _ => none)
    modify fun s => { s with backups }
    let snapshots ← unwrap .panic (s.snapshots.createDirAll [])
    modify fun s => { s with snapshots }

/-- `check_set_lock_file`: whether the database was removed because of a lock file. -/
def checkSetLockFile : Exec (DataDir D) StartError Bool := do
  let s ← Exec.get
  match s.lock with
  | .dir _ => stop .panic
  | .absent => do
    modify fun s => { s with lock := .file }
    pure false
  | .file => do
    let db ← unwrap .panic (s.db.removeDirAll.createDirAll fun _ => none)
    modify fun s => { s with db }
    pure true

def connect : Exec (DataDir D) StartError D := do
  let s ← Exec.get
  match s.db with
  | .dir f =>
    match f cfg.filenameDb with
    | none => do
      modify fun s => { s with
        db := .dir (update f cfg.filenameDb (some (.file Q.empty))) }
      pure Q.empty
    | some _ => unwrap .io (Q.openFile f cfg.filenameDb)
  | _ => stop .io

def restoreSnapshot (d : D) : Exec (DataDir D) StartError D := do
  let s ← Exec.get
  match s.snapshots with
  | .dir list =>
    let found ← lift ((readCurrentSnapshot (list.map fun e =>
      ⟨e.name, e.isDir, e.content.map Prod.fst⟩)).mapError fun _ => StartError.io)
    match found with
    | none => pure d
    | some (id, _) => do
      let entry ← unwrap .io ((list.find? fun e => e.name = .snapshot id).bind DirEntry.content)
      modify fun s => { s with
        db := .dir (update s.db.files cfg.filenameDb (some (.file entry.2))) }
      pure entry.2
  | _ => stop .io

/-- `StateMachineSqlite::new`: the database that is opened. -/
def new : Exec (DataDir D) StartError D := do
  let s ← Exec.get
  let dbExists := (s.db.files cfg.filenameDb).isSome
  buildFolders
  let healed ← checkSetLockFile
  let d ← connect Q cfg
  if dbExists && !healed then pure d else restoreSnapshot cfg d

/-! ## What a restore leaves -/

def backup (s : DataDir D) : BackupSource → Option D
  | .s3 object => cfg.s3Config.bind fun remote => remote object
  | .file (.outside path _) => cfg.files path
  | .file (.backups filename) => s.backups.files.content filename

def landed : BackupSource → Option (String × D)
  | .s3 object => (cfg.s3Config.bind fun remote => remote object).map (backupDbName, ·)
  | .file (.outside path filename) => (cfg.files path).map (filename, ·)
  | .file (.backups filename) => some (filename, Q.empty)

/-- What is in the copy when it is moved into place. -/
def arrived (s : DataDir D) (src : BackupSource) : Option D :=
  (landed Q cfg src).bind fun (name, d) =>
    if cfg.skipValidation then some d
    else (Q.openDb d (s.backups.files.content (walName name))
      (s.backups.files.content (journalName name))).filter Q.valid

variable {Q cfg} {s s' : DataDir D} {name : String} {d : D} {src : BackupSource}

theorem content_update_self (f : Files D) :
    Files.content (update f name (some (.file d))) name = some d := by
  simp [Files.content]

variable {f : Files D}

theorem content_update_of_ne {n : String} {e : Option (Entry D)} (h : n ≠ name) :
    Files.content (update f name e) n = f.content n := by
  simp [Files.content, h]

theorem append_ne_self {a b : String} (hb : b ≠ "") : a ++ b ≠ a := by
  intro h
  apply hb
  simpa using congrArg String.toList h

theorem walName_ne (n : String) : walName n ≠ n := append_ne_self (by decide)

theorem journalName_ne (n : String) : journalName n ≠ n := append_ne_self (by decide)

@[simp] theorem files_dir (f : Files D) : (Place.dir f).files = f := rfl

theorem openFile_update (f : Files D) : Q.openFile (update f name (some (.file d))) name =
      Q.openDb d (f.content (walName name)) (f.content (journalName name)) := by
  rw [Engine.openFile, content_update_self, Option.bind_some, content_update_of_ne (walName_ne name),
    content_update_of_ne (journalName_ne name)]

theorem createBackups_ok (h : createBackups s = (.ok (), s')) :
    s.baseIsFile = false ∧ s' = { s with backups := .dir s.backups.files } := by
  rw [createBackups, get_bind] at h
  cases hb : s.baseIsFile with
  | true => simp [hb] at h
  | false =>
    refine ⟨rfl, ?_⟩
    cases hp : s.backups <;> simp_all [Place.createDirAll, Place.files]

theorem writeBackup_ok (h : writeBackup name d s = (.ok (), s')) :
    s' = { s with backups := .dir (update s.backups.files name (some (.file d))) } := by
  rw [writeBackup, get_bind] at h
  cases hd : s.backups.files.hasDir name with
  | true => simp [hd] at h
  | false => simpa [hd, eq_comm] using h

theorem fetch_ok (h : fetch Q cfg src s = (.ok name, s')) : s.baseIsFile = false ∧
    ∃ d, landed Q cfg src = some (name, d) ∧
      s' = { s with backups := .dir (update s.backups.files name (some (.file d))) } := by
  have hwrite : ∀ {n : String} {d : D} {s1 : DataDir D}, createBackups s = (.ok (), s1) →
      (writeBackup n d >>= fun _ => pure n) s1 = (.ok name, s') → landed Q cfg src = some (n, d) →
      s.baseIsFile = false ∧ ∃ d, landed Q cfg src = some (name, d) ∧
        s' = { s with backups := .dir (update s.backups.files name (some (.file d))) } := by
    intro n d s1 h1 h2 hl
    obtain ⟨hbase, rfl⟩ := createBackups_ok h1
    obtain ⟨_, s2, hw, hp⟩ := bind_eq_ok.mp h2
    cases hp
    refine ⟨hbase, d, hl, ?_⟩
    rw [writeBackup_ok hw]
    rfl
  cases src with
  | s3 object =>
    obtain ⟨remote, s1, hr, h1⟩ := bind_eq_ok.mp h
    obtain ⟨hremote, rfl⟩ := unwrap_eq_ok.mp hr
    obtain ⟨_, s2, hc, h2⟩ := bind_eq_ok.mp h1
    obtain ⟨d, s₃, hd, h3⟩ := bind_eq_ok.mp h2
    obtain ⟨hobject, rfl⟩ := unwrap_eq_ok.mp hd
    exact hwrite hc h3 (by simp [landed, hremote, hobject])
  | file path =>
    cases path with
    | outside path filename =>
      obtain ⟨_, s1, hc, h1⟩ := bind_eq_ok.mp h
      obtain ⟨d, s2, hd, h2⟩ := bind_eq_ok.mp h1
      obtain ⟨hfile, rfl⟩ := unwrap_eq_ok.mp hd
      exact hwrite hc h2 (by simp [landed, hfile])
    | backups filename =>
      obtain ⟨_, s1, hc, h1⟩ := bind_eq_ok.mp h
      rw [get_bind] at h1
      obtain ⟨d, s2, hd, h2⟩ := bind_eq_ok.mp h1
      obtain ⟨-, rfl⟩ := unwrap_eq_ok.mp hd
      exact hwrite hc h2 rfl

theorem validateBackupDb_ok (h : validateBackupDb Q cfg name s = (.ok (), s'))
    (hd : s.backups = .dir s.backups.files) (hc : s.backups.files.content name = some d) :
    ∃ d' f, s' = { s with backups := .dir f } ∧ f.content name = some d' ∧
      (if cfg.skipValidation then some d
        else (Q.openFile s.backups.files name).filter Q.valid) = some d' := by
  unfold validateBackupDb at h
  by_cases hskip : cfg.skipValidation = true
  · rw [if_pos hskip] at h ⊢
    cases h
    exact ⟨d, s.backups.files, by rw [← hd], hc, rfl⟩
  · rw [if_neg hskip, get_bind] at h
    rw [if_neg hskip]
    obtain ⟨d', s1, ho, h1⟩ := bind_eq_ok.mp h
    obtain ⟨hopen, rfl⟩ := Exec.unwrap_eq_ok.mp ho
    rw [modify_bind, Exec.ite_apply] at h1
    by_cases hv : Q.valid d' = true
    · rw [if_pos hv] at h1
      cases h1
      exact ⟨d', _, rfl, content_update_self _, by simp [hopen, hv]⟩
    · rw [if_neg hv] at h1
      cases h1

theorem moveIntoPlace_ok (h : moveIntoPlace cfg name s = (.ok (), s'))
    (hdb : ∀ f, s.db ≠ .dir f) (hc : s.backups.files.content name = some d) : ∃ f, s' = { s with
      backups := .dir f
      db := .dir (update (fun _ => none) cfg.filenameDb (some (.file d))) } := by
  unfold moveIntoPlace at h
  rw [get_bind] at h
  obtain ⟨db, s1, hcreate, h1⟩ := bind_eq_ok.mp h
  obtain ⟨hnew, rfl⟩ := unwrap_eq_ok.mp hcreate
  have hempty : db = .dir fun _ => none := by
    cases hp : s1.db with
    | absent => simpa [hp, Place.createDirAll, eq_comm] using hnew
    | file => simp [hp, Place.createDirAll] at hnew
    | dir f => exact absurd hp (hdb f)
  subst hempty
  rw [modify_bind, hc, Exec.unwrap_some, Exec.pure_bind, Exec.ite_apply] at h1
  have hno : ¬ (Place.dir fun _ => none : Place (Files D)).files.hasDir cfg.filenameDb = true := by
    simp [Place.files, Files.hasDir]
  rw [if_neg hno] at h1
  cases h1
  exact ⟨_, rfl⟩

theorem restoreBackup_ok (h : restoreBackup Q cfg src s = (.ok (), s')) : s.baseIsFile = false ∧
    ∃ d f, arrived Q cfg s src = some d ∧ s' = { s.wipe with
      backups := .dir f
      db := .dir (update (fun _ => none) cfg.filenameDb (some (.file d))) } := by
  obtain ⟨name, s1, hf, h1⟩ := bind_eq_ok.mp h
  obtain ⟨hbase, d, hl, rfl⟩ := fetch_ok hf
  obtain ⟨_, s2, hv, h2⟩ := bind_eq_ok.mp h1
  obtain ⟨d', f, rfl, hcontent, hchecked⟩ := validateBackupDb_ok hv rfl (content_update_self _)
  rw [modify_bind] at h2
  obtain ⟨g, rfl⟩ := moveIntoPlace_ok h2 (fun f hf => by
    cases hdb : s.db <;> simp [DataDir.wipe, hdb, Place.removeDirAll] at hf) hcontent
  refine ⟨hbase, d', g, ?_, rfl⟩
  rw [arrived, hl]
  simp only [Option.bind_some]
  rw [← hchecked, files_dir, openFile_update]

/-! ## The next start -/

theorem buildFolders_ok (h : buildFolders s = (.ok (), s')) (hdb : s.db = .dir f)
    (hs : ∀ l, s.snapshots ≠ .dir l) :
    s'.db = .dir f ∧ s'.lock = s.lock ∧ s'.snapshots = .dir [] := by
  rw [buildFolders, get_bind, Exec.ite_apply] at h
  by_cases hbase : s.baseIsFile = true
  · rw [if_pos hbase] at h
    cases h
  · rw [if_neg hbase, modify_bind] at h
    obtain ⟨backups, s1, hb, h1⟩ := bind_eq_ok.mp h
    obtain ⟨-, rfl⟩ := unwrap_eq_ok.mp hb
    rw [modify_bind] at h1
    obtain ⟨snapshots, s2, hsnap, h2⟩ := bind_eq_ok.mp h1
    obtain ⟨hnew, rfl⟩ := unwrap_eq_ok.mp hsnap
    cases h2
    refine ⟨by simp [hdb, Place.createDirAll], rfl, ?_⟩
    cases hp : s.snapshots with
    | absent => simpa [hp, Place.createDirAll, eq_comm] using hnew
    | file => simp [hp, Place.createDirAll] at hnew
    | dir l => exact absurd hp (hs l)

theorem checkSetLockFile_ok {healed : Bool} (h : checkSetLockFile s = (.ok healed, s'))
    (hdb : s.db = .dir f) : s'.snapshots = s.snapshots ∧ (healed = true ↔ s.lock = .file) ∧
      s'.db = .dir (if healed then fun _ => none else f) := by
  rw [checkSetLockFile, get_bind] at h
  cases hl : s.lock with
  | dir u => simp [hl] at h
  | absent =>
    simp only [hl, modify_bind] at h
    cases h
    exact ⟨rfl, by simp, by simp [hdb]⟩
  | file =>
    simp only [hl, hdb, Place.removeDirAll, Place.createDirAll, unwrap_some, pure_bind,
      modify_bind] at h
    cases h
    exact ⟨rfl, by simp, rfl⟩

theorem new_restored {opened : D} (h : (new Q cfg { s.wipe with
      backups := .dir f
      db := .dir (update (fun _ => none) cfg.filenameDb (some (.file d))) }).1 =
        .ok opened) : opened = if s.lock = .file then Q.empty else d := by
  obtain ⟨s', h⟩ : ∃ s', new Q cfg { s.wipe with
      backups := .dir f
      db := .dir (update (fun _ => none) cfg.filenameDb (some (.file d))) } =
        (.ok opened, s') := ⟨_, Prod.ext h rfl⟩
  rw [new, get_bind] at h
  obtain ⟨_, s1, hbuild, h1⟩ := bind_eq_ok.mp h
  obtain ⟨hdb1, hlock1, hsnap1⟩ := buildFolders_ok hbuild rfl (fun l hl => by
    cases hp : s.snapshots <;> simp [DataDir.wipe, hp, Place.removeDirAll] at hl)
  obtain ⟨healed, s2, hcheck, h2⟩ := bind_eq_ok.mp h1
  obtain ⟨hsnap2, hhealed, hdb2⟩ := checkSetLockFile_ok hcheck hdb1
  have hfile : healed = true ↔ s.lock = .file := by
    rw [hhealed, hlock1]
    cases hp : s.lock <;> simp [DataDir.wipe, hp, Place.removeDirAll]
  obtain ⟨d', s₃, hconn, h3⟩ := bind_eq_ok.mp h2
  rw [connect, get_bind, hdb2] at hconn
  cases healed with
  | true =>
    rw [if_pos (hfile.mp rfl)]
    simp only [if_true, modify_bind] at hconn
    cases hconn
    rw [Bool.not_true, Bool.and_false, if_neg (by simp), restoreSnapshot, get_bind] at h3
    simp only [hsnap2, hsnap1] at h3
    cases h3
    rfl
  | false =>
    rw [if_neg (fun hl => by simpa using hfile.mpr hl)]
    simp only [Bool.false_eq_true, if_false, update_self, openFile_update] at hconn
    obtain ⟨hopen, rfl⟩ := unwrap_eq_ok.mp hconn
    rw [if_pos (by simp)] at h3
    cases h3
    exact Q.openDb_alone d _ hopen

/-- **The backup is what is opened** after a restore and a start, and no old log is left, iff there
was no lock file and the copy of the backup arrived as it was, or the backup is empty. -/
theorem restored_backup_opens_iff {b opened : D} (hb : backup cfg s src = some b)
    (hr : restoreBackup Q cfg src s = (.ok (), s')) (hn : (new Q cfg s').1 = .ok opened) :
    (opened = b ∧ (∀ l, s'.logs ≠ .dir l) ↔
      if s.lock = .file then b = Q.empty else arrived Q cfg s src = some b) ∧
    ((∀ filename, src ≠ .file (.backups filename)) →
      (∀ name d, landed Q cfg src = some (name, d) → s.backups.files.content (walName name) = none ∧
        s.backups.files.content (journalName name) = none) → arrived Q cfg s src = some b) := by
  obtain ⟨-, d, f, harr, rfl⟩ := restoreBackup_ok hr
  have hopened := new_restored hn
  have hlogs : ∀ l, s.wipe.logs ≠ .dir l := fun l hl => by
    cases hp : s.logs <;> simp [DataDir.wipe, hp, Place.removeDirAll] at hl
  constructor
  · rw [hopened]
    by_cases hl : s.lock = .file
    · simp only [if_pos hl]
      exact ⟨fun h => h.1.symm, fun h => ⟨h.symm, hlogs⟩⟩
    · simp only [if_neg hl, harr, Option.some.injEq]
      exact ⟨fun h => h.1, fun h => ⟨h, hlogs⟩⟩
  · intro hself hside
    have hland : ∃ name, landed Q cfg src = some (name, b) := by
      cases src with
      | s3 object =>
        rw [backup] at hb
        exact ⟨_, by rw [landed, hb]; rfl⟩
      | file path =>
        cases path with
        | outside path filename =>
          rw [backup] at hb
          exact ⟨_, by rw [landed, hb]; rfl⟩
        | backups filename => exact absurd rfl (hself filename)
    obtain ⟨name, hland⟩ := hland
    obtain ⟨hw, hj⟩ := hside name b hland
    rw [harr]
    rw [arrived, hland, Option.bind_some] at harr
    by_cases hskip : cfg.skipValidation = true
    · simpa [hskip, eq_comm] using harr
    · simp only [if_neg hskip, hw, hj] at harr
      exact congrArg some (Q.openDb_alone b d (Option.filter_eq_some_iff.mp harr).1)

/-- Databases as numbers. A log or a journal replaces the content. -/
def plainEngine : Engine ℕ where
  empty := 0
  openDb d wal journal := some (wal.getD (journal.getD d))
  valid d := d ≠ 0
  openDb_alone _ _ h := by simpa [eq_comm] using h
  openDb_empty := rfl

def plainConfig (skipValidation : Bool) : NodeConfig ℕ where
  filenameDb := "hiqlite.db"
  s3Config := none
  files path := if path = "/backup/b.sqlite" then some 7 else none
  skipValidation := skipValidation

/-- A directory with an older database, its log, an older snapshot and logs. -/
def oldDir (lock : Place Unit) : DataDir ℕ where
  baseIsFile := false
  db := .dir fun n => if n = "hiqlite.db" ∨ n = "hiqlite.db-wal" then some (.file 3) else none
  backups := .dir fun n => if n = "b.sqlite" then some (.file 7) else none
  snapshots := .dir [⟨.snapshot 1, false, some (⟨none, some 1⟩, 2)⟩]
  lock := lock
  logs := .dir ()

/-- A restore over older data after a clean shutdown. -/
theorem restored_backup_opens_clean :
    ∃ s', restoreBackup plainEngine (plainConfig false) (.file (.outside "/backup/b.sqlite" "b.sqlite"))
        (oldDir .absent) = (.ok (), s') ∧
      (new plainEngine (plainConfig false) s').1 = .ok 7 ∧ ∀ l, s'.logs ≠ .dir l := by
  have hr : (restoreBackup plainEngine (plainConfig false)
      (.file (.outside "/backup/b.sqlite" "b.sqlite")) (oldDir .absent)).1 = .ok () := by
    decide +kernel
  have hn : (new plainEngine (plainConfig false) (restoreBackup plainEngine (plainConfig false)
      (.file (.outside "/backup/b.sqlite" "b.sqlite")) (oldDir .absent)).2).1 = .ok 7 := by
    decide +kernel
  obtain ⟨hiff, harrived⟩ := restored_backup_opens_iff (b := 7) (by decide +kernel)
    (Prod.ext hr rfl) hn
  have harr := harrived (by simp) (by
    rintro name d h
    cases h
    decide +kernel)
  exact ⟨_, Prod.ext hr rfl, hn, (hiff.mpr (by rw [if_neg (by decide)]; exact harr)).2⟩

/-- What the start opens after a restore that returned `Ok`. -/
def openedAfter (Q : Engine D) (cfg : NodeConfig D) (src : BackupSource) (s : DataDir D) : Option D :=
  match restoreBackup Q cfg src s with
  | (.ok (), s') => (new Q cfg s').1.toOption
  | (.error _, _) => none

/-- **After a kill** the lock file survives the restore, and the start removes the restored
database. -/
theorem lock_file_empties_restored :
    openedAfter plainEngine (plainConfig false) (.file (.outside "/backup/b.sqlite" "b.sqlite"))
        (oldDir .file) = some 0 ∧
      openedAfter plainEngine (plainConfig true) (.file (.backups "b.sqlite")) (oldDir .absent) =
        some 0 := by
  decide +kernel

end Hiqlite.Backup
