import Hiqlite.Backup.Create
import Hiqlite.Backup.Restore

/-!
# B5 — from a backup to the next start

A backup is taken, copied to S3 or to another place, and restored on some node.

* `backupRequest_ok`: the file of a request that is acknowledged;
* **`backup_round_trip`**: the start after the restore opens the tables that were committed.
-/

namespace Hiqlite.Backup

open Option
open Sqlite (Db Conn Writer tiny)

variable {A M L E S D : Type} {Q : Engine D} {cfg : NodeConfig D} {s s' : DataDir D}
  {src : BackupSource} {b d : D}

theorem landed_of_elsewhere (hsrc : ∀ name, src ≠ .file (.backups name))
    (hb : backup cfg s src = some b) : ∃ name, landed Q cfg src = some (name, b) := by
  cases src with
  | s3 object => exact ⟨_, congrArg (Option.map _) hb⟩
  | file path =>
    cases path with
    | outside path filename => exact ⟨_, congrArg (Option.map _) hb⟩
    | backups name => exact absurd rfl (hsrc name)

/-- Nothing in the backups directory is taken for the log or the journal of the copy. -/
def Alone (Q : Engine D) (cfg : NodeConfig D) (src : BackupSource) (s : DataDir D) : Prop :=
  ∀ name d, landed Q cfg src = some (name, d) → s.backups.files.content (walName name) = none ∧
    s.backups.files.content (journalName name) = none

theorem arrived_alone {name : String} (hland : landed Q cfg src = some (name, b))
    (halone : Alone Q cfg src s) (h : arrived Q cfg s src = some d) : d = b := by
  obtain ⟨hwal, hjournal⟩ := halone name b hland
  rw [arrived, hland, bind_some] at h
  dsimp only at h
  rw [hwal, hjournal] at h
  split_ifs at h
  · exact (some.inj h).symm
  · exact Q.openDb_alone b d (filter_eq_some_iff.mp h).1

variable [Inhabited M] {X : Sqlite.Engine A L E S} {faults : CreateFaults} {w : Writer A M L E}
  {now nodeId ts : ℕ} {f g : Folder A M} {gs : List (Folder A M)}

/-- What was committed, without its Raft state unless that could not be reset. -/
def backedUp (faults : CreateFaults) (db : Db A M) : Db A M := if faults.persist then db else reset db

theorem backupRequest_ok (hlast : ¬ w.tsLastBackup.any (fun last => now < last + 60))
    (h : backupRequest X faults w now nodeId ts f = (g :: gs, .ok ())) :
    g (.final nodeId ts) = some (some (backedUp faults w.conn.file)) := by
  obtain ⟨e, he, -⟩ := exec_vacuum_eq (X := X) w.conn
  rw [backupRequest, if_neg hlast, he] at h
  rcases vacuumTemp_cases X faults w.conn.tick with ⟨c, err, hv, -⟩ | ⟨c, hv, -⟩
  · simp [createBackup, hv] at h
  cases hrename : faults.rename with
  | true => simp [createBackup, hv, hrename] at h
  | false =>
    cases hconnect : faults.connect with
    | some e => simp [createBackup, hv, hrename, hconnect] at h
    | none =>
      simp only [createBackup, hv, hrename, hconnect, Bool.false_eq_true, if_false] at h
      obtain rfl := (List.cons.inj (Prod.mk.inj h).1).1
      rw [backedUp]
      split_ifs <;> exact Function.update_self ..

/-- **A backup that is restored.** After an acknowledged backup, a restore of a copy from elsewhere and
a start without a lock file, the database has the tables that were committed at the backup. No log is
left, and no Raft state unless its reset has failed. -/
theorem backup_round_trip {Q : Engine (Db A M)} {cfg : NodeConfig (Db A M)}
    {s s' : DataDir (Db A M)} {opened : Db A M}
    (hlast : ¬ w.tsLastBackup.any (fun last => now < last + 60))
    (hbackup : backupRequest X faults w now nodeId ts f = (g :: gs, .ok ()))
    (hsrc : ∀ name, src ≠ .file (.backups name))
    (hcopy : g (.final nodeId ts) = some (backup cfg s src)) (halone : Alone Q cfg src s)
    (hlock : s.lock ≠ .file) (hrestore : restoreBackup Q cfg src s = (.ok (), s'))
    (hnew : (new Q cfg s').1 = .ok opened) :
    opened = backedUp faults w.conn.file ∧ ∀ l, s'.logs ≠ .dir l := by
  have hb := some.inj (hcopy.symm.trans (backupRequest_ok hlast hbackup))
  obtain ⟨name, hland⟩ := landed_of_elsewhere (Q := Q) hsrc hb
  obtain ⟨-, d, k, harr, rfl⟩ := restoreBackup_ok hrestore
  refine ⟨?_, fun l hl => ?_⟩
  · rw [new_restored hnew, if_neg hlock, arrived_alone hland halone harr]
  · cases hp : s.logs <;> simp [DataDir.wipe, hp, Place.removeDirAll] at hl

def tableEngine : Engine (Db (List ℕ) ℕ) where
  empty := ⟨[], none⟩
  openDb d wal journal := some (wal.getD (journal.getD d))
  valid d := d.metadata.isSome
  openDb_alone _ _ h := by simpa [eq_comm] using h
  openDb_empty := rfl

/-- A copy of the backup at every other path. -/
def copied : NodeConfig (Db (List ℕ) ℕ) :=
  ⟨"hiqlite.db", none, fun _ => some ⟨[7], some default⟩, false⟩

def freshDir : DataDir (Db (List ℕ) ℕ) := ⟨false, .absent, .absent, .absent, .absent, .absent⟩

/-- The backup of a node with Raft state starts a new cluster. -/
theorem backup_round_trip_fresh : ∃ s',
    restoreBackup tableEngine copied (.file (.outside "/b.sqlite" "b.sqlite")) freshDir = (.ok (), s') ∧
    (new tableEngine copied s').1 = .ok (backedUp {} (oneRow snapshotted).conn.file) ∧
    ∀ l, s'.logs ≠ .dir l := by
  have hbackup : backupRequest tiny {} (oneRow snapshotted) 0 1 9 (fun _ => none) =
      (_ :: _, .ok ()) := rfl
  have hrestore : restoreBackup tableEngine copied (.file (.outside "/b.sqlite" "b.sqlite")) freshDir =
      (.ok (), _) := rfl
  have hnew : (new tableEngine copied (restoreBackup tableEngine copied
      (.file (.outside "/b.sqlite" "b.sqlite")) freshDir).2).1 = .ok ⟨[7], some default⟩ := rfl
  obtain ⟨h, hlogs⟩ := backup_round_trip (by decide) hbackup (by simp) rfl (fun _ _ _ => ⟨rfl, rfl⟩)
    (by decide) hrestore hnew
  exact ⟨_, hrestore, h ▸ hnew, hlogs⟩

end Hiqlite.Backup
