import Hiqlite.Sqlite.Writer

/-!
# B3 — creating a backup

`WriterRequest::Backup` and `create_backup`: the database is vacuumed into a temporary file, which is
moved to its final name, and only then the metadata in it are reset. A kill may come anywhere.

* `backupRequest_answer`: the answer is that of `Sqlite.backup`;
* **`backup_sound_iff`**: when no unusable file is left under a final name; `unreset_backups`.
-/

namespace Hiqlite.Backup

open Option Function
open Sqlite

variable {A M L E S : Type}

/-- `backup_node_{node_id}_{ts}.sqlite`, and the same with a `~`. -/
inductive BackupFile
  | final (nodeId ts : ℕ)
  | temp (nodeId ts : ℕ)
  deriving DecidableEq

/-- The files of the backups directory. A file that is being written is no database yet. -/
abbrev Folder (A M : Type) := BackupFile → Option (Option (Db A M))

structure CreateFaults where
  vacuumInto : Option SqlError := none
  remove : Bool := false
  rename : Bool := false
  connect : Option SqlError := none
  persist : Bool := false

variable (X : Sqlite.Engine A L E S) (faults : CreateFaults)

def removeTemp (nodeId ts : ℕ) (f : Folder A M) : Folder A M :=
  if faults.remove then f else update f (.temp nodeId ts) none

def vacuumTemp (c : Conn A M L E) : Conn A M L E × Sqlite.Result (Db A M) :=
  match faults.vacuumInto with
  | some e => ((vacuumInto X c true).1, .error (.ofSql e))
  | none => vacuumInto X c true

variable [Inhabited M]

/-- The database with `StateMachineData::default()`. -/
def reset (db : Db A M) : Db A M := { db with metadata := some default }

/-- `create_backup`: the directory after each step. -/
def createBackup (c : Conn A M L E) (nodeId ts : ℕ) (f : Folder A M) :
    Conn A M L E × List (Folder A M) × Sqlite.Result Unit :=
  let begun := update f (.temp nodeId ts) (some none)
  match vacuumTemp X faults c with
  | (c, .error e) => (c, [begun, removeTemp faults nodeId ts begun], .error e)
  | (c, .ok db) =>
    let written := update f (.temp nodeId ts) (some (some db))
    if faults.rename then
      (c, [begun, written, removeTemp faults nodeId ts written], .error (.error .rename))
    else
      let moved := update (update f (.temp nodeId ts) none) (.final nodeId ts)
        (some (some db))
      match faults.connect with
      | some e => (c, [begun, written, moved], .error (.ofSql e))
      | none =>
        -- the result of `persist_metadata` is dropped
        let done := if faults.persist then moved
          else update moved (.final nodeId ts) (some (some (reset db)))
        (c, [begun, written, moved, done], .ok ())

/-- `WriterRequest::Backup`: the directories that are passed, and the answer. -/
def backupRequest (w : Writer A M L E) (now nodeId ts : ℕ) (f : Folder A M) :
    List (Folder A M) × Sqlite.Result Unit :=
  if w.tsLastBackup.any (fun last => now < last + 60) then ([f], .ok ())
  else
    let (_, fs, r) := createBackup X faults (w.conn.exec X .vacuum []).1 nodeId ts f
    ((f :: fs).reverse, r)

/-! ## Usable backups -/

/-- Every file under a final name has the tables that belong to it and no Raft state. -/
def Usable (tables : ℕ → ℕ → A) (f : Folder A M) : Prop :=
  ∀ nodeId ts d, f (.final nodeId ts) = some d → d = some ⟨tables nodeId ts, some default⟩

/-- At any kill the backups are usable, and one that is acknowledged is there. -/
def Sound (tables : ℕ → ℕ → A) (nodeId ts : ℕ)
    (r : List (Folder A M) × Sqlite.Result Unit) : Prop :=
  (∀ f ∈ r.1, Usable tables f) ∧
    (r.2 = .ok () → ∀ f ∈ r.1.head?, (f (.final nodeId ts)).isSome)

variable {X faults} {w : Writer A M L E} {now nodeId ts : ℕ} {tables : ℕ → ℕ → A} {f : Folder A M}

theorem Usable.temp (h : Usable tables f) (d : Option (Option (Db A M))) :
    Usable tables (update f (.temp nodeId ts) d) := by
  intro n t d' hd
  rw [update_of_ne (by simp)] at hd
  exact h n t d' hd

theorem Usable.removeTemp (h : Usable tables f) : Usable tables (removeTemp faults nodeId ts f) := by
  unfold Backup.removeTemp
  split_ifs
  · exact h
  · exact h.temp none

theorem usable_final {db : Db A M} (h : Usable tables f) :
    Usable tables (update f (.final nodeId ts) (some (some db))) ↔
      db = ⟨tables nodeId ts, some default⟩ := by
  refine ⟨fun hu => some.inj (hu nodeId ts _ (update_self ..)), ?_⟩
  rintro rfl n t d hd
  by_cases hn : BackupFile.final n t = .final nodeId ts
  · cases hn
    rw [update_self] at hd
    exact (some.inj hd).symm
  · rw [update_of_ne hn] at hd
    exact h n t d hd

omit [Inhabited M] in
theorem exec_vacuum_eq (c : Conn A M L E) : ∃ e, c.exec X .vacuum [] = (c.tick, ⟨[], e⟩) ∧
    (e = none ↔ c.txn = none ∧ X.refuse c.file.app .vacuum = none) := by
  cases hc : c.txn with
  | some t => exact ⟨_, by simp only [Conn.exec, hc]; rfl, by simp⟩
  | none =>
    have hdb : c.tick.db = c.file := by simp [Conn.db, Conn.tick, hc]
    simp only [Conn.exec, hc, Conn.execIdle, Conn.guarded, hdb]
    cases X.refuse c.file.app .vacuum with
    | none | some => exact ⟨_, rfl, by simp⟩

omit [Inhabited M] in
/-- **What is vacuumed** is what is committed. -/
theorem vacuumTemp_cases (X : Sqlite.Engine A L E S) (faults : CreateFaults) (c : Conn A M L E) :
    (∃ c' e, vacuumTemp X faults c = (c', .error e) ∧ (faults.vacuumInto.isSome ∨ c.txn.isSome ∨
      (X.refuse c.file.app .vacuum).isSome)) ∨
    ∃ c', vacuumTemp X faults c = (c', .ok c.file) ∧ faults.vacuumInto = none ∧ c.txn = none ∧
      X.refuse c.file.app .vacuum = none := by
  unfold vacuumTemp
  cases faults.vacuumInto with
  | some e => exact .inl ⟨_, _, rfl, .inl rfl⟩
  | none =>
    obtain ⟨e, he, hiff⟩ := exec_vacuum_eq (X := X) c
    cases e with
    | some e =>
      refine .inl ⟨c.tick, .sqlite (.of e), by simp only [vacuumInto, he], .inr ?_⟩
      by_contra hno
      simp only [not_or, not_isSome_iff_eq_none] at hno
      cases hiff.mpr hno
    | none => exact .inr ⟨c.tick, by simp only [vacuumInto, he]; rfl, rfl, hiff.mp rfl⟩

/-- The answer is that of `Sqlite.backup`. -/
theorem backupRequest_answer (hinto : faults.vacuumInto = none) (hconnect : faults.connect = none)
    (l : Option LogId) : (backupRequest X faults w now nodeId ts f).2 =
      (Sqlite.backup X w now (!faults.rename) l).2 := by
  unfold backupRequest Sqlite.backup
  simp only
  split_ifs
  · rfl
  simp only [createBackup, vacuumTemp, hinto, hconnect, vacuumInto]
  rcases (w.conn.exec X .vacuum []).1.exec X .vacuum [] with ⟨c, rows, e⟩
  cases e with
  | some e => rfl
  | none => cases faults.rename <;> rfl

/-- **A backup request is sound** iff it is no duplicate within a minute of a backup that is not there,
and the metadata of the database are reset already or the backup fails before it gets its name. -/
theorem backup_sound_iff (h : Usable tables f) (htables : tables nodeId ts = w.conn.file.app) :
    Sound tables nodeId ts (backupRequest X faults w now nodeId ts f) ↔
      if w.tsLastBackup.any (fun last => now < last + 60) then (f (.final nodeId ts)).isSome = true
      else faults.vacuumInto.isSome ∨ w.conn.txn.isSome ∨
        (X.refuse w.conn.file.app .vacuum).isSome ∨ faults.rename ∨
          w.conn.file.metadata = some default := by
  unfold backupRequest
  split_ifs with hlast
  · simp [Sound, h]
  obtain ⟨e, he, -⟩ := exec_vacuum_eq (X := X) w.conn
  rw [he]
  rcases vacuumTemp_cases X faults w.conn.tick with
    ⟨c, err, hv, hfail⟩ | ⟨c, hv, hinto, htxn, hrefuse⟩
  · simp only [createBackup, hv]
    refine iff_of_true ⟨?_, nofun⟩ ?_
    · simp [h, h.temp, (h.temp _).removeTemp]
    · rcases hfail with hfail | hfail | hfail
      · exact .inl hfail
      · exact .inr (.inl hfail)
      · exact .inr (.inr (.inl hfail))
  have htxn' : w.conn.txn = none := htxn
  have hrefuse' : X.refuse w.conn.file.app .vacuum = none := hrefuse
  have hfile : w.conn.tick.file = w.conn.file := rfl
  simp only [createBackup, hv, hinto, htxn', hrefuse', hfile, isSome_none,
    Bool.false_eq_true, false_or]
  cases faults.rename with
  | true =>
    refine iff_of_true ⟨?_, nofun⟩ (.inl rfl)
    simp [h, h.temp, (h.temp _).removeTemp]
  | false =>
    -- the file has its final name before the metadata are reset
    have hmoved : Usable tables (update (update f (.temp nodeId ts) none)
        (.final nodeId ts) (some (some w.conn.file))) ↔ w.conn.file.metadata = some default := by
      rw [usable_final (h.temp none), htables]
      exact ⟨fun hdb => by rw [hdb], fun hm => by rw [← hm]⟩
    have hreset (hm : w.conn.file.metadata = some default) : reset w.conn.file = w.conn.file := by
      rw [reset, ← hm]
    simp only [Bool.false_eq_true, if_false, false_or, ← hmoved]
    refine ⟨fun hs => hs.1 _ ?_, fun hm => ?_⟩
    · cases faults.connect <;> simp
    · cases faults.connect with
      | some e => exact ⟨by simp [h, h.temp, hm], nofun⟩
      | none =>
        simp only [hreset (hmoved.mp hm), update_idem, ite_self]
        exact ⟨by simp [h, h.temp, hm], by simp⟩

def oneRow (metadata : StateMachineData ℕ) : Writer (List ℕ) ℕ ℕ ℕ :=
  { newWriter with conn := { newWriter.conn with file := ⟨[7], some metadata⟩ } }

def snapshotted : StateMachineData ℕ := { (default : StateMachineData ℕ) with lastSnapshotId := some 1 }

theorem backup_sound_fresh :
    Sound (fun _ _ => [7]) 1 9 (backupRequest tiny {} (oneRow default) 0 1 9 fun _ => none) :=
  (backup_sound_iff (fun _ _ _ hd => by cases hd) rfl).mpr
    (.inr (.inr (.inr (.inr rfl))))

/-- The file has its final name while it still names the last applied entry, and keeps it when
`persist_metadata` fails, which is acknowledged all the same. -/
theorem unreset_backups :
    (backupRequest tiny {} (oneRow snapshotted) 0 1 9 fun _ => none).1.map (· (.final 1 9)) =
      [some (some ⟨[7], some default⟩), some (some ⟨[7], some snapshotted⟩), none, none, none] ∧
    (backupRequest tiny { persist := true } (oneRow snapshotted) 0 1 9 fun _ => none).1.head?.map
      (· (.final 1 9)) = some (some (some ⟨[7], some snapshotted⟩)) ∧
    (backupRequest tiny { persist := true } (oneRow snapshotted) 0 1 9 fun _ => none).2 = .ok () ∧
    (backupRequest tiny {} { oneRow snapshotted with tsLastBackup := some 0 } 30 1 9 fun _ => none).1.map
      (· (.final 1 9)) = [none] ∧
    (backupRequest tiny {} { oneRow snapshotted with tsLastBackup := some 0 } 30 1 9 fun _ => none).2 =
      .ok () :=
  ⟨rfl, rfl, rfl, rfl, rfl⟩

end Hiqlite.Backup
