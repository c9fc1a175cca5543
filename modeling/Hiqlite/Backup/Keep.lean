import Hiqlite.Backup.Restore

/-!
# B2 — what a restore does to the file it restores from

`restore_backup` from a file, with the source on the same disk and with every step failing. The target
of the copy is computed from the file name alone, so it may be the source.

* `restoreFile_calm`: without faults this is `restoreBackup`;
* **`restore_keeps_source_iff`**; `restored_backup_lost`.
-/

namespace Hiqlite.Backup

open Exec Function


variable {D : Type}

/-- The disk: the data directory and the files at other paths. -/
structure Disk (D : Type) where
  outside : String → Option D
  data : DataDir D

def Disk.content (s : Disk D) : SourcePath → Option D
  | .outside path _ => s.outside path
  | .backups filename => s.data.backups.files.content filename

/-- What is behind the last `/`. -/
def SourcePath.filename : SourcePath → String
  | .outside _ filename => filename
  | .backups filename => filename

/-- The steps that return an error to the caller. -/
inductive RestoreStep
  | createBackups
  | accessBackups
  | openSource
  | openTarget
  | syncCopy
  | validate
  | createDb
  | accessDb
  | syncBackup
  | moveBackup
  | syncDir
  | accessFile
  deriving DecidableEq

structure Faults (D : Type) where
  fails : RestoreStep → Bool
  /-- The copy breaks off and leaves this in its target. -/
  broken : Option D
  /-- The removal of old data, whose errors are ignored, leaves this. -/
  leftover : Option (DataDir D)

def Faults.calm : Faults D := ⟨fun _ => false, none, none⟩

def Faults.pass {σ : Type} (F : Faults D) (k : RestoreStep) : Exec σ RestoreError Unit :=
  if F.fails k then stop .io else pure ()

def inData {α : Type} (x : Exec (DataDir D) RestoreError α) : Exec (Disk D) RestoreError α :=
  zoom Disk.data (fun data s => { s with data }) x

variable (Q : Engine D) (cfg : NodeConfig D) (F : Faults D)

/-- `fs::copy` into the backups directory: the source is opened, the target truncated, the source
read. -/
def fsCopy (path : SourcePath) (name : String) : Exec (Disk D) RestoreError Unit := do
  F.pass .openSource
  let s ← Exec.get
  let _ ← unwrap .io (s.content path)
  F.pass .openTarget
  inData (writeBackup name Q.empty)
  match F.broken with
  | some d => do
    inData (writeBackup name d)
    stop .io
  | none => do
    let s ← Exec.get
    let d ← unwrap .io (s.content path)
    inData (writeBackup name d)

/-- `restore_backup` up to the point where old data is removed. -/
def prepareBackup (path : SourcePath) : Exec (Disk D) RestoreError Unit := do
  F.pass .createBackups
  inData createBackups
  F.pass .accessBackups
  fsCopy Q F path path.filename
  F.pass .syncCopy
  F.pass .validate
  inData (validateBackupDb Q cfg path.filename)

def removeOldData (s : DataDir D) : DataDir D :=
  match F.leftover with
  | none => s.wipe
  | some t => { s with db := t.db, snapshots := t.snapshots, lock := t.lock, logs := t.logs }

def createDb : Exec (DataDir D) RestoreError Unit := do
  let s ← Exec.get
  let db ← unwrap .io (s.db.createDirAll fun _ => none)
  modify fun s => { s with db }

def renameBackup (name : String) : Exec (DataDir D) RestoreError Unit := do
  let s ← Exec.get
  let d ← unwrap .io (s.backups.files.content name)
  if s.db.files.hasDir cfg.filenameDb then stop .io
  else
    modify fun s => { s with
      db := .dir (update s.db.files cfg.filenameDb (some (.file d)))
      backups := .dir (update s.backups.files name none) }

/-- `restore_backup` from where old data is removed, with `atomic_file_switch`. -/
def finishRestore (name : String) : Exec (DataDir D) RestoreError Unit := do
  modify (removeOldData F)
  F.pass .createDb
  createDb
  F.pass .accessDb
  F.pass .syncBackup
  F.pass .moveBackup
  renameBackup cfg name
  F.pass .syncDir
  F.pass .accessFile

/-- `restore_backup` with `BackupSource::File`. -/
def restoreFile (path : SourcePath) : Exec (Disk D) RestoreError Unit := do
  prepareBackup Q cfg F path
  inData (finishRestore cfg F path.filename)

variable {Q cfg F} {s s' : Disk D} {path : SourcePath}

/-! ## Without faults -/

variable {σ : Type} {name : String} {d : D} {R : DataDir D → Prop}

@[simp] theorem pass_calm (k : RestoreStep) :
    ((.calm : Faults D).pass k : Exec σ RestoreError Unit) = pure () := rfl

@[simp] theorem removeOldData_calm : removeOldData (.calm : Faults D) = DataDir.wipe := rfl

theorem inData_bind {α β : Type} (x : Exec (DataDir D) RestoreError α)
    (f : α → Exec (DataDir D) RestoreError β) :
    inData (x >>= f) = inData x >>= fun a => inData (f a) := by
  funext s
  rcases h : x s.data with ⟨r, t⟩
  have hx : inData x s = (r, { s with data := t }) := by rw [inData, zoom_apply, h]
  cases r with
  | ok a => rw [bind_ok hx, inData, zoom_apply, bind_ok h]; rfl
  | error e => rw [bind_error hx, inData, zoom_apply, bind_error h]

def Disk.put (s : Disk D) (name : String) (d : D) : Disk D :=
  { s with data := { s.data with
    backups := .dir (update s.data.backups.files name (some (.file d))) } }

theorem write_refused (h : s.data.backups.files.hasDir name = true) (d : D) :
    inData (writeBackup name d) s = (.error .io, s) := by
  simp [inData, writeBackup, h]

theorem write_put (h : s.data.backups.files.hasDir name = false) (d : D) :
    inData (writeBackup name d) s = (.ok (), s.put name d) := by
  simp [inData, writeBackup, h, Disk.put]

theorem hasDir_put (s : Disk D) (name : String) (d : D) :
    (s.put name d).data.backups.files.hasDir name = false := by
  simp [Disk.put, Files.hasDir]

theorem put_put (s : Disk D) (name : String) (d d' : D) :
    (s.put name d).put name d' = s.put name d' := by
  simp [Disk.put]

theorem createDb_renameBackup (name : String) :
    (createDb >>= fun _ => renameBackup cfg name) = moveIntoPlace cfg name := by
  funext t
  cases h : t.db.createDirAll fun _ => none with
  | none =>
    have hstop : createDb t = (.error .io, t) := by simp [createDb, h]
    rw [bind_error hstop, moveIntoPlace, get_bind, h]
    rfl
  | some db =>
    have hok : createDb t = (.ok (), { t with db }) := by simp [createDb, h]
    rw [bind_ok hok, moveIntoPlace, get_bind, h, unwrap_some, pure_bind,
      modify_bind, renameBackup, get_bind]
    cases hc : t.backups.files.content name with
    | none => rfl
    | some d =>
      rw [unwrap_some, Exec.pure_bind, Exec.pure_bind, Exec.ite_apply, Exec.ite_apply]
      rfl

theorem fsCopy_calm (path : SourcePath) {d' : D} (h : s.content path = some d)
    (h' : (s.put path.filename Q.empty).content path = some d') :
    fsCopy Q .calm path path.filename s = inData (writeBackup path.filename d') s := by
  have hopen : fsCopy Q .calm path path.filename s =
      (inData (writeBackup path.filename Q.empty) >>= fun _ => do
        let s ← Exec.get
        let d ← unwrap .io (s.content path)
        inData (writeBackup path.filename d)) s := by
    simp only [fsCopy, pass_calm, pure_bind, get_bind, h, unwrap_some]
    rfl
  rw [hopen]
  cases hd : s.data.backups.files.hasDir path.filename with
  | true => rw [bind_error (write_refused hd _), write_refused hd]
  | false =>
    rw [bind_ok (write_put hd _), get_bind, h', unwrap_some, pure_bind,
      write_put hd, write_put (hasDir_put s _ _), put_put]

theorem fsCopy_outside {p n : String} (h : s.outside p = some d) :
    fsCopy Q .calm (.outside p n) n s = inData (writeBackup n d) s :=
  fsCopy_calm (.outside p n) h h

theorem fsCopy_backups {n : String} (h : s.data.backups.files.content n = some d) :
    fsCopy Q .calm (.backups n) n s = inData (writeBackup n Q.empty) s :=
  fsCopy_calm (.backups n) h (content_update_self _)

theorem fsCopy_absent (h : s.content path = none) (n : String) :
    fsCopy Q .calm path n s = (.error .io, s) := by
  simp [fsCopy, h]

theorem restoreFile_calm_eq : restoreFile Q cfg .calm path =
    (inData createBackups >>= fun _ => fsCopy Q .calm path path.filename >>= fun _ =>
      inData (validateBackupDb Q cfg path.filename >>= fun _ =>
        modify DataDir.wipe >>= fun _ => moveIntoPlace cfg path.filename)) := by
  have hend : ∀ name, (renameBackup cfg name >>= fun _ => pure ()) = renameBackup cfg name := by
    intro name
    funext t
    rcases h : renameBackup cfg name t with ⟨r, t'⟩
    cases r with
    | ok a => rw [bind_ok h]; rfl
    | error e => rw [bind_error h]
  simp only [restoreFile, prepareBackup, finishRestore, pass_calm, pure_bind, bind_assoc',
    removeOldData_calm, ← createDb_renameBackup, inData_bind]
  simp only [← inData_bind, hend]

theorem fetch_eq (k : String → Exec (DataDir D) RestoreError Unit) :
    (inData createBackups >>= fun _ => fsCopy Q .calm path path.filename >>= fun _ =>
      inData (k path.filename)) s =
        inData (fetch Q { cfg with files := s.outside } (.file path) >>= k) s := by
  rcases hc : inData createBackups s with ⟨r, t⟩
  have hout : t.outside = s.outside := by
    rw [inData, zoom_apply] at hc
    rw [← (Prod.mk.inj hc).2]
  cases path with
  | outside p n =>
    simp only [fetch, inData_bind, bind_assoc', SourcePath.filename]
    cases r with
    | error e => rw [bind_error hc, bind_error hc]
    | ok a =>
      rw [bind_ok hc, bind_ok hc]
      cases hp : s.outside p with
      | none =>
        have hp' : t.content (.outside p n) = none := by rw [Disk.content, hout, hp]
        rw [bind_error (fsCopy_absent hp' n)]
        rfl
      | some d =>
        rw [bind_congr (fsCopy_outside (hout ▸ hp))]
        rfl
  | backups n =>
    simp only [fetch, inData_bind, bind_assoc', SourcePath.filename]
    cases r with
    | error e => rw [bind_error hc, bind_error hc]
    | ok a =>
      rw [bind_ok hc, bind_ok hc]
      have hget : inData Exec.get t = (.ok t.data, t) := rfl
      rw [bind_ok hget]
      cases hp : t.data.backups.files.content n with
      | none =>
        rw [bind_error (fsCopy_absent (show t.content (.backups n) = none from hp) n)]
        rfl
      | some d =>
        rw [bind_congr (fsCopy_backups hp)]
        rfl

theorem restoreFile_calm : restoreFile Q cfg .calm path s =
    inData (restoreBackup Q { cfg with files := s.outside } (.file path)) s := by
  rw [restoreFile_calm_eq]
  exact fetch_eq fun name => validateBackupDb Q cfg name >>= fun _ =>
    modify DataDir.wipe >>= fun _ => moveIntoPlace cfg name

/-! ## What is kept -/

theorem pass_keeps {R : σ → Prop} (k : RestoreStep) : Keeps R (F.pass k) :=
  (keeps_stop _).ite (keeps_pure _)

theorem inData_keeps {α : Type} {R : Disk D → Prop} {x : Exec (DataDir D) RestoreError α}
    (h : ∀ out, Keeps (fun t => R ⟨out, t⟩) x) : Keeps R (inData x) :=
  fun s hs => h s.outside s.data hs

def SameOld (t t' : DataDir D) : Prop :=
  t'.db = t.db ∧ t'.snapshots = t.snapshots ∧ t'.lock = t.lock ∧ t'.logs = t.logs

def BackupsOnly (R : DataDir D → Prop) : Prop := ∀ t backups, R t → R { t with backups }

theorem createBackups_keeps (hR : BackupsOnly R) : Keeps R createBackups := by
  refine Keeps.get_bind fun t => (keeps_stop _).ite ?_
  split
  · exact keeps_stop _
  · exact keeps_modify fun t => hR t _

theorem writeBackup_keeps (hR : BackupsOnly R) (name : String) (d : D) :
    Keeps R (writeBackup name d) :=
  Keeps.get_bind fun _ => (keeps_stop _).ite (keeps_modify fun t => hR t _)

theorem validateBackupDb_keeps (hR : BackupsOnly R) (name : String) :
    Keeps R (validateBackupDb Q cfg name) := by
  refine (keeps_pure _).ite (Keeps.get_bind fun t => (keeps_unwrap _ _).bind fun d => ?_)
  refine (keeps_modify fun t => hR t _).bind fun _ => ?_
  exact (keeps_pure _).ite (keeps_stop _)

theorem prepareBackup_keeps {R : Disk D → Prop} (hR : ∀ out, BackupsOnly fun t => R ⟨out, t⟩) :
    Keeps R (prepareBackup Q cfg F path) := by
  have hwrite : ∀ name d, Keeps R (inData (writeBackup name d)) := fun name d =>
    inData_keeps fun out => writeBackup_keeps (hR out) name d
  have hcopy : Keeps R (fsCopy Q F path path.filename) := by
    refine (pass_keeps _).bind fun _ => Keeps.get_bind fun s => ?_
    refine (keeps_unwrap _ _).bind fun _ => (pass_keeps _).bind fun _ => ?_
    refine (hwrite _ _).bind fun _ => ?_
    split
    · exact (hwrite _ _).bind fun _ => keeps_stop _
    · exact Keeps.get_bind fun s => (keeps_unwrap _ _).bind fun d => hwrite _ d
  refine (pass_keeps _).bind fun _ => (inData_keeps fun out => createBackups_keeps (hR out)).bind
    fun _ => (pass_keeps _).bind fun _ => hcopy.bind fun _ => (pass_keeps _).bind fun _ =>
      (pass_keeps _).bind fun _ => inData_keeps fun out => validateBackupDb_keeps (hR out) _

theorem restoreFile_keeps (path' : String) (o : Option D) :
    Keeps (fun s : Disk D => s.outside path' = o) (restoreFile Q cfg F path) :=
  (prepareBackup_keeps fun _ _ _ h => h).bind fun _ _ h => h

theorem prepareBackup_error {e : RestoreError} (h : prepareBackup Q cfg F path s = (.error e, s')) :
    restoreFile Q cfg F path s = (.error e, s') ∧ SameOld s.data s'.data := by
  refine ⟨bind_error h, ?_⟩
  have hkeep : Keeps (fun t => SameOld s.data t.data) (prepareBackup Q cfg F path) :=
    prepareBackup_keeps fun _ _ _ h => h
  have hold := hkeep s ⟨rfl, rfl, rfl, rfl⟩
  rwa [h] at hold

/-! ## The source -/

theorem pass_ok {k : RestoreStep} {t t' : σ} (h : F.pass k t = (.ok (), t')) : t' = t := by
  rw [Faults.pass, Exec.ite_apply] at h
  split_ifs at h
  · cases h
  · cases h
    rfl

theorem renameBackup_ok {t t' : DataDir D} (h : renameBackup cfg name t = (.ok (), t')) :
    t'.backups.files.content name = none := by
  rw [renameBackup, get_bind] at h
  obtain ⟨d, t1, hd, h1⟩ := bind_eq_ok.mp h
  obtain ⟨-, rfl⟩ := Exec.unwrap_eq_ok.mp hd
  rw [Exec.ite_apply] at h1
  split_ifs at h1
  · cases h1
  · cases h1
    simp [Files.content]

/-- **A restore that succeeds** leaves no file of this name in the backups directory. -/
theorem restoreFile_ok (h : restoreFile Q cfg F path s = (.ok (), s')) :
    s'.data.backups.files.content path.filename = none := by
  obtain ⟨_, s1, -, h1⟩ := bind_eq_ok.mp h
  rw [inData, zoom_apply] at h1
  obtain ⟨hr, rfl⟩ := Prod.mk.inj h1
  rcases hf : finishRestore cfg F path.filename s1.data with ⟨r, t⟩
  rw [hf] at hr
  subst hr
  obtain ⟨_, t1, -, h2⟩ := bind_eq_ok.mp hf
  obtain ⟨_, t2, -, h3⟩ := bind_eq_ok.mp h2
  obtain ⟨_, t3, -, h4⟩ := bind_eq_ok.mp h3
  obtain ⟨_, t4, -, h5⟩ := bind_eq_ok.mp h4
  obtain ⟨_, t5, -, h6⟩ := bind_eq_ok.mp h5
  obtain ⟨_, t6, -, h7⟩ := bind_eq_ok.mp h6
  obtain ⟨_, t7, hrename, h8⟩ := bind_eq_ok.mp h7
  obtain ⟨_, t8, hsync, haccess⟩ := bind_eq_ok.mp h8
  obtain rfl := pass_ok hsync
  obtain rfl := pass_ok haccess
  exact renameBackup_ok hrename

def oneBackup (name : String) (b : D) : Disk D where
  outside _ := none
  data := {
    baseIsFile := false
    db := .absent
    backups := .dir (update (fun _ => none) name (some (.file b)))
    snapshots := .absent
    lock := .absent
    logs := .absent }

def trusting : NodeConfig D := ⟨"hiqlite.db", none, fun _ => none, true⟩

theorem oneBackup_restored (Q : Engine D) (name : String) (b : D) :
    (restoreFile Q trusting .calm (.backups name) (oneBackup name b)).1 = .ok () := by
  have hcreate : inData createBackups (oneBackup name b) = (.ok (), oneBackup name b) := rfl
  have hcopy : fsCopy Q .calm (.backups name) name (oneBackup name b) =
      (.ok (), (oneBackup name b).put name Q.empty) := by
    have hfile : (oneBackup name b).data.backups.files.content name = some b :=
      content_update_self _
    have hdir : (oneBackup name b).data.backups.files.hasDir name = false := by
      simp [oneBackup, Files.hasDir]
    rw [fsCopy_backups hfile, write_put hdir]
  rw [restoreFile_calm_eq, bind_ok hcreate, SourcePath.filename, bind_ok hcopy]
  simp [inData, validateBackupDb, moveIntoPlace, oneBackup, trusting, Disk.put, DataDir.wipe,
    Place.createDirAll, Place.removeDirAll, content_update_self, Place.files, Files.hasDir]

/-- **A restore and its source.** An error before old data is removed leaves that data alone. The
file that is restored from survives every outcome iff it is not in the backups directory. -/
theorem restore_keeps_source_iff (Q : Engine D) (path : SourcePath) :
    (∀ cfg F s s' e, prepareBackup Q cfg F path s = (.error e, s') →
      restoreFile Q cfg F path s = (.error e, s') ∧ SameOld s.data s'.data) ∧
    ((∀ cfg F s b, s.content path = some b →
      (restoreFile Q cfg F path s).2.content path = some b) ↔ ∀ name, path ≠ .backups name) := by
  refine ⟨fun cfg F s s' e h => prepareBackup_error h, ?_, ?_⟩
  · rintro h name rfl
    have hb : (oneBackup name Q.empty).content (.backups name) = some Q.empty := by
      simp [Disk.content, oneBackup, content_update_self]
    have hlost := restoreFile_ok (Prod.ext (oneBackup_restored Q name Q.empty) rfl)
    have hkept := h trusting .calm _ _ hb
    cases hlost.symm.trans hkept
  · intro h cfg F s b hb
    cases path with
    | outside p n => exact restoreFile_keeps p (some b) s hb
    | backups name => exact absurd rfl (h name)

def ownBackup : Disk ℕ := ⟨fun _ => none, oldDir .absent⟩

/-- **A node that restores one of its own backups loses it**: the file is truncated by the copy. -/
theorem restored_backup_lost : ownBackup.content (.backups "b.sqlite") = some 7 ∧
    (restoreFile plainEngine (plainConfig false) .calm (.backups "b.sqlite") ownBackup).1 =
      .error .invalid ∧
    (restoreFile plainEngine (plainConfig false) .calm (.backups "b.sqlite") ownBackup).2.content
      (.backups "b.sqlite") = some 0 ∧
    (restoreFile plainEngine (plainConfig true) .calm (.backups "b.sqlite") ownBackup).1 = .ok () ∧
    (restoreFile plainEngine (plainConfig true) .calm (.backups "b.sqlite") ownBackup).2.content
      (.backups "b.sqlite") = none := by
  decide +kernel

end Hiqlite.Backup
