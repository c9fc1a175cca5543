import Hiqlite.External.Calls

/-!
# G5 — snapshots of the external engine

A snapshot is a copy of the database with evidence of what is in it.

* **`validateSnapshotFile_ok`**: what is known of a file that is accepted;
* **`restoreRequest_cases`**: a restore is refused without a trace, poisons the writer, or puts the
  state of the evidence in place.
-/

namespace Hiqlite.External

open Exec

variable {A C Out : Type}

structure ExternalSnapshotEvidence (C : Type) where
  formatVersion : ℕ
  snapshotFormat : String
  snapshotId : String
  applicationId : String
  initialSequence : CommitSequence
  initialStateSchema : UInt64
  receiptCodec : String
  checkpoint : Option (ExternalApplied C)
  receiptFloor : Option CommitSequence
  receiptRetention : UInt64
  maxReceiptBytes : UInt64
  sqlitePageSize : UInt32
  sqliteBytes : UInt64
  sqliteSha256 : Sha256Digest
  deriving DecidableEq

structure SnapshotFile (A : Type) where
  regular : Bool
  bytes : UInt64
  sha256 : Sha256Digest
  quickCheck : Except String String
  pageSize : UInt32
  db : Db A

def StoredState.snapshotEvidence (state : StoredState C) (snapshotId : String)
    (sqlitePageSize : UInt32) (sqliteBytes : UInt64) (sqliteSha256 : Sha256Digest) :
    ExternalSnapshotEvidence C where
  formatVersion := externalFormatVersion
  snapshotFormat := externalSqliteSnapshotFormat
  snapshotId := snapshotId
  applicationId := state.applicationId
  initialSequence := state.initialSequence
  initialStateSchema := state.initialStateSchema
  receiptCodec := state.receiptCodec
  checkpoint := state.lastApplied
  receiptFloor := state.receiptFloor
  receiptRetention := state.receiptRetention
  maxReceiptBytes := state.maxReceiptBytes
  sqlitePageSize := sqlitePageSize
  sqliteBytes := sqliteBytes
  sqliteSha256 := sqliteSha256

/-! ## Validation -/

/-- `validate_snapshot_file` on what is at the path. -/
def validateSnapshotFile [DecidableEq C] (k : Codec C Out) (file : Option (SnapshotFile A))
    (evidence : ExternalSnapshotEvidence C) : Except ExternalError Unit := do
  ensure (evidence.formatVersion = externalFormatVersion) (.unsupportedFormat evidence.formatVersion)
  ensure (evidence.snapshotFormat = externalSqliteSnapshotFormat)
    (.snapshotMismatch "unsupported SQLite snapshot format")
  match file with
  | none => throw (.io "No such file or directory")
  | some file =>
    ensure (file.regular = true) (.snapshotMismatch "snapshot path is not a regular file")
    ensure (file.bytes = evidence.sqliteBytes) (.snapshotMismatch "file size differs from evidence")
    ensure (file.sha256 = evidence.sqliteSha256)
      (.snapshotMismatch "file SHA-256 differs from evidence")
    let quickCheck ← file.quickCheck.mapError .sqlite
    ensure (quickCheck = "ok") (.snapshotMismatch s!"SQLite quick_check returned {quickCheck}")
    ensure (file.pageSize = evidence.sqlitePageSize)
      (.snapshotMismatch "SQLite page size differs from evidence")
    let state ← loadState k file.db
    validateReceipts k file.db state
    ensure (state.snapshotId = some evidence.snapshotId)
      (.snapshotMismatch "embedded snapshot ID differs from evidence")
    let actual := state.snapshotEvidence evidence.snapshotId evidence.sqlitePageSize
      evidence.sqliteBytes evidence.sqliteSha256
    ensure (actual = evidence) (.snapshotMismatch "embedded metadata differs from evidence")

def validateSnapshotCompatibility (live : StoredState C) (evidence : ExternalSnapshotEvidence C) :
    Except ExternalError Unit := do
  ensure (evidence.formatVersion = externalFormatVersion) (.unsupportedFormat evidence.formatVersion)
  ensure (evidence.snapshotFormat = externalSqliteSnapshotFormat)
    (.snapshotMismatch "unsupported SQLite snapshot format")
  let mismatches :=
    (if evidence.applicationId ≠ live.applicationId then ["application_id"] else []) ++
    (if evidence.initialSequence ≠ live.initialSequence then ["initial_sequence"] else []) ++
    (if evidence.initialStateSchema ≠ live.initialStateSchema then ["initial_state_schema"]
      else []) ++
    (if evidence.receiptCodec ≠ live.receiptCodec then ["receipt_codec"] else []) ++
    (if evidence.receiptRetention ≠ live.receiptRetention then ["receipt_retention"] else []) ++
    (if evidence.maxReceiptBytes ≠ live.maxReceiptBytes then ["max_receipt_bytes"] else [])
  let fields := ", ".intercalate mismatches
  ensure (mismatches = []) (.snapshotMismatch s!"incompatible {fields}")

def rejectStaleSnapshot [DecidableEq C] (live incoming : Option (ExternalApplied C)) :
    Except ExternalError Unit :=
  match live, incoming with
  | some _, none => .error .staleSnapshot
  | some live, some incoming =>
    if incoming.commit.sequence < live.commit.sequence then .error .staleSnapshot
    else if incoming.commit.sequence = live.commit.sequence ∧ incoming ≠ live then
      .error (.commitConflict incoming.commit.sequence)
    else .ok ()
  | none, _ => .ok ()

theorem validateSnapshotFile_ok [DecidableEq C] {k : Codec C Out} {file : Option (SnapshotFile A)}
    {evidence : ExternalSnapshotEvidence C} (h : validateSnapshotFile k file evidence = .ok ()) :
    ∃ f state, file = some f ∧ loadState k f.db = .ok state ∧ validateReceipts k f.db state = .ok () ∧
      state.snapshotId = some evidence.snapshotId ∧
      state.snapshotEvidence evidence.snapshotId evidence.sqlitePageSize evidence.sqliteBytes
        evidence.sqliteSha256 = evidence := by
  unfold validateSnapshotFile at h
  obtain ⟨-, -, h⟩ := bind_eq_ok.mp h
  obtain ⟨-, -, h⟩ := bind_eq_ok.mp h
  cases file with
  | none => cases h
  | some f =>
    obtain ⟨-, -, h⟩ := bind_eq_ok.mp h
    obtain ⟨-, -, h⟩ := bind_eq_ok.mp h
    obtain ⟨-, -, h⟩ := bind_eq_ok.mp h
    obtain ⟨quickCheck, -, h⟩ := bind_eq_ok.mp h
    obtain ⟨-, -, h⟩ := bind_eq_ok.mp h
    obtain ⟨-, -, h⟩ := bind_eq_ok.mp h
    obtain ⟨state, hload, h⟩ := bind_eq_ok.mp h
    obtain ⟨_, hval, h⟩ := bind_eq_ok.mp h
    obtain ⟨_, hid, h⟩ := bind_eq_ok.mp h
    exact ⟨f, state, rfl, hload, hval, ensure_eq_ok.mp hid, ensure_eq_ok.mp h⟩

theorem validateSnapshotCompatibility_ok {live : StoredState C}
    {evidence : ExternalSnapshotEvidence C}
    (h : validateSnapshotCompatibility live evidence = .ok ()) :
    evidence.applicationId = live.applicationId ∧ evidence.initialSequence = live.initialSequence ∧
    evidence.initialStateSchema = live.initialStateSchema ∧
    evidence.receiptCodec = live.receiptCodec ∧ evidence.receiptRetention = live.receiptRetention ∧
    evidence.maxReceiptBytes = live.maxReceiptBytes := by
  unfold validateSnapshotCompatibility at h
  obtain ⟨-, -, h⟩ := bind_eq_ok.mp h
  obtain ⟨-, -, h⟩ := bind_eq_ok.mp h
  have hnil := ensure_eq_ok.mp h
  simpa [List.append_eq_nil_iff, and_assoc] using hnil

theorem rejectStaleSnapshot_ok [DecidableEq C] {live incoming : Option (ExternalApplied C)}
    (h : rejectStaleSnapshot live incoming = .ok ()) {l : ExternalApplied C} (hl : live = some l) :
    ∃ i, incoming = some i ∧
      (l.commit.sequence.toNat < i.commit.sequence.toNat ∨ i = l) := by
  subst hl
  cases incoming with
  | none => cases h
  | some i =>
    refine ⟨i, rfl, ?_⟩
    unfold rejectStaleSnapshot at h
    dsimp only at h
    split_ifs at h with h1 h2
    rw [UInt64.lt_iff_toNat_lt] at h1
    rcases Nat.lt_or_ge l.commit.sequence.toNat i.commit.sequence.toNat with hlt | hge
    · exact .inl hlt
    · have heq : i.commit.sequence = l.commit.sequence := UInt64.toNat_inj.mp (by omega)
      exact .inr (not_not.mp fun hne => h2 ⟨heq, hne⟩)

/-! ## Requests -/

structure SnapshotFaults where
  update : Option String := none
  publish : Option ExternalError := none

/-- `WriterRequest::Snapshot`: the reply and the writer, whose file has been copied. -/
def snapshotRequest (faults : SnapshotFaults) (snapshotId : String) (w : Writer A C) :
    Except ExternalError (StoredState C) × Writer A C :=
  match execute faults.update
    (updateMetadata fun row => { row with snapshotId := some snapshotId }) w.conn with
  | (.error e, conn) => (.error e, { w with conn := conn })
  | (.ok _, conn) =>
    let state := { w.state with snapshotId := some snapshotId }
    match faults.publish with
    | some e => (.error e, ⟨conn, state⟩)
    | none => (.ok state, ⟨conn, state⟩)

structure RestoreFaults (A : Type) where
  poisonMarker : Option String := none
  /-- The tables of the database that SQLite creates where there is no file. -/
  created : Option A := none
  copy : Option (String × Db A) := none
  activeMarker : Option String := none

/-- The reply to the caller, the error that poisons the writer, and the writer. -/
structure Restored (A C : Type) where
  result : Except ExternalError (ExternalSnapshotEvidence C)
  poison : Option ExternalError
  writer : Writer A C

/-- The database that is restored. A file that is missing is created, and empty. -/
def source (faults : RestoreFaults A) : Option (SnapshotFile A) → Option (Db A)
  | some file => some file.db
  | none => faults.created.map fun app => ⟨app, none, none⟩

/-- `WriterRequest::Restore` once the snapshot was validated. -/
def restoreLive [DecidableEq C] (k : Codec C Out) (faults : RestoreFaults A)
    (file : Option (SnapshotFile A)) (evidence : ExternalSnapshotEvidence C) :
    Exec (Writer A C) ExternalError (ExternalSnapshotEvidence C) := do
  match faults.copy with
  | some (e, db) =>
    modify fun w => { w with conn := ⟨db, none⟩ }
    stop (.sqlite e)
  | none => pure ()
  let db ← unwrap (.sqlite "unable to open database file") (source faults file)
  modify fun w => { w with conn := ⟨db, none⟩ }
  let restored ← lift (loadState k db)
  lift (validateReceipts k db restored)
  let restoredEvidence := restored.snapshotEvidence evidence.snapshotId evidence.sqlitePageSize
    evidence.sqliteBytes evidence.sqliteSha256
  lift (ensure (restoredEvidence = evidence)
    (.snapshotMismatch "restored metadata differs from supplied evidence"))
  lift ((permit faults.activeMarker).mapError fun e => .io e.message)
  modify fun w => { w with state := restored }
  pure restoredEvidence

/-- What `WriterRequest::Restore` checks first. -/
def preflight [DecidableEq C] (k : Codec C Out) (state : StoredState C)
    (file : Option (SnapshotFile A)) (evidence : ExternalSnapshotEvidence C) :
    Except ExternalError Unit := do
  validateSnapshotCompatibility state evidence
  rejectStaleSnapshot state.lastApplied evidence.checkpoint
  validateSnapshotFile k file evidence

/-- The reply once the snapshot was validated. An error poisons the writer. -/
def restoreReply [DecidableEq C] (k : Codec C Out) (faults : RestoreFaults A)
    (file : Option (SnapshotFile A)) (evidence : ExternalSnapshotEvidence C) (w : Writer A C) :
    Restored A C :=
  match restoreLive k faults file evidence w with
  | (.ok evidence, w) => ⟨.ok evidence, none, w⟩
  | (.error e, w) =>
    let message := e.message
    let err := .writerPoisoned s!"live snapshot restore failed: {message}"
    ⟨.error err, some err, w⟩

/-- `WriterRequest::Restore`, with the file as it is validated and as it is restored. -/
def restoreRequest [DecidableEq C] (k : Codec C Out) (faults : RestoreFaults A)
    (validated restored : Option (SnapshotFile A)) (evidence : ExternalSnapshotEvidence C)
    (w : Writer A C) : Restored A C :=
  match preflight k w.state validated evidence, faults.poisonMarker with
  | .error e, _ => ⟨.error e, none, w⟩
  | .ok _, some e => ⟨.error (.io e), none, w⟩
  | .ok _, none => restoreReply k faults restored evidence w

/-! ## What a restore leaves behind -/

section Restore

variable [DecidableEq C] {k : Codec C Out} {faults : RestoreFaults A}
  {validated restored : Option (SnapshotFile A)} {evidence : ExternalSnapshotEvidence C}
  {w w' : Writer A C}

theorem restoreLive_ok {ev : ExternalSnapshotEvidence C}
    (h : restoreLive k faults restored evidence w = (.ok ev, w')) :
    ∃ f state, restored = some f ∧ loadState k f.db = .ok state ∧
      validateReceipts k f.db state = .ok () ∧
      state.snapshotEvidence evidence.snapshotId evidence.sqlitePageSize evidence.sqliteBytes
        evidence.sqliteSha256 = evidence ∧ ev = evidence ∧ w' = ⟨⟨f.db, none⟩, state⟩ := by
  unfold restoreLive at h
  cases hc : faults.copy with
  | some p =>
    rw [hc] at h
    cases h
  | none =>
    rw [hc] at h
    cases restored with
    | none =>
      cases hcreated : faults.created <;>
        · simp only [source, hcreated] at h
          cases h
    | some f =>
      simp only [source, unwrap_some, pure_bind, modify_bind] at h
      cases hload : loadState k f.db with
      | error e =>
        rw [hload] at h
        cases h
      | ok state =>
        rw [hload, lift_ok, pure_bind] at h
        cases hval : validateReceipts k f.db state with
        | error e =>
          rw [hval] at h
          cases h
        | ok u =>
          rw [hval, lift_ok, pure_bind] at h
          by_cases heq : state.snapshotEvidence evidence.snapshotId evidence.sqlitePageSize
              evidence.sqliteBytes evidence.sqliteSha256 = evidence
          · rw [ensure_of heq, lift_ok, pure_bind] at h
            cases hm : faults.activeMarker with
            | some m =>
              rw [hm] at h
              cases h
            | none =>
              rw [hm] at h
              cases h
              exact ⟨f, state, rfl, hload, hval, heq, heq, rfl⟩
          · rw [ensure_not heq] at h
            cases h

theorem restoreReply_cases (k : Codec C Out) (faults : RestoreFaults A)
    (restored : Option (SnapshotFile A)) (evidence : ExternalSnapshotEvidence C) (w : Writer A C) :
    (∃ e w', restoreReply k faults restored evidence w =
      ⟨.error (.writerPoisoned e), some (.writerPoisoned e), w'⟩) ∨
    ∃ f state, restored = some f ∧ loadState k f.db = .ok state ∧
      validateReceipts k f.db state = .ok () ∧
      state.snapshotEvidence evidence.snapshotId evidence.sqlitePageSize evidence.sqliteBytes
        evidence.sqliteSha256 = evidence ∧
      restoreReply k faults restored evidence w =
        ⟨.ok evidence, none, ⟨⟨f.db, none⟩, state⟩⟩ := by
  unfold restoreReply
  rcases hrun : restoreLive k faults restored evidence w with ⟨r, w'⟩
  cases r with
  | error e => exact .inl ⟨_, _, rfl⟩
  | ok ev =>
    obtain ⟨f, state, rfl, hload, hval, heq, rfl, rfl⟩ := restoreLive_ok hrun
    exact .inr ⟨f, state, rfl, hload, hval, heq, rfl⟩

theorem restoreRequest_cases (k : Codec C Out) (faults : RestoreFaults A)
    (validated restored : Option (SnapshotFile A)) (evidence : ExternalSnapshotEvidence C)
    (w : Writer A C) :
    (∃ e, restoreRequest k faults validated restored evidence w = ⟨.error e, none, w⟩) ∨
    (∃ e w', restoreRequest k faults validated restored evidence w =
      ⟨.error (.writerPoisoned e), some (.writerPoisoned e), w'⟩) ∨
    ∃ f state, preflight k w.state validated evidence = .ok () ∧ restored = some f ∧
      loadState k f.db = .ok state ∧ validateReceipts k f.db state = .ok () ∧
      state.snapshotEvidence evidence.snapshotId evidence.sqlitePageSize evidence.sqliteBytes
        evidence.sqliteSha256 = evidence ∧
      restoreRequest k faults validated restored evidence w =
        ⟨.ok evidence, none, ⟨⟨f.db, none⟩, state⟩⟩ := by
  unfold restoreRequest
  cases preflight k w.state validated evidence with
  | error e => exact .inl ⟨e, rfl⟩
  | ok u =>
    cases faults.poisonMarker with
    | some m => exact .inl ⟨_, rfl⟩
    | none =>
      rcases restoreReply_cases k faults restored evidence w with
        ⟨e, w', hrun⟩ | ⟨f, state, hsome, hload, hval, heq, hrun⟩
      · exact .inr (.inl ⟨e, w', hrun⟩)
      · exact .inr (.inr ⟨f, state, rfl, hsome, hload, hval, heq, hrun⟩)

theorem preflight_ok {state : StoredState C} {file : Option (SnapshotFile A)}
    (h : preflight k state file evidence = .ok ()) :
    validateSnapshotCompatibility state evidence = .ok () ∧
      rejectStaleSnapshot state.lastApplied evidence.checkpoint = .ok () ∧
      validateSnapshotFile k file evidence = .ok () := by
  obtain ⟨_, hcompat, h⟩ := bind_eq_ok.mp h
  obtain ⟨_, hstale, hfile⟩ := bind_eq_ok.mp h
  exact ⟨hcompat, hstale, hfile⟩

end Restore

theorem snapshotRequest_ok {k : Codec C Out} {db : Db A} {state : StoredState C}
    (hload : loadState k db = .ok state) (faults : SnapshotFaults) (snapshotId : String) :
    (∃ e, snapshotRequest faults snapshotId (.idle db state) =
      (.error e, .idle db state)) ∨
    ∃ r db', snapshotRequest faults snapshotId (.idle db state) =
        (r, ⟨⟨db', none⟩, { state with snapshotId := some snapshotId }⟩) ∧
      (∀ st, r = .ok st → st = { state with snapshotId := some snapshotId }) ∧
      (faults.publish = none → r = .ok { state with snapshotId := some snapshotId }) ∧
      loadState k db' = .ok { state with snapshotId := some snapshotId } ∧
      db'.app = db.app ∧ db'.receipts = db.receipts := by
  obtain ⟨row, options, last, floor, hrow, hoptions, hlast, rfl⟩ := loadState_eq_ok.mp hload
  cases hu : faults.update with
  | some m =>
    refine .inl ⟨.sqlite m, ?_⟩
    rw [snapshotRequest, hu, execute_fault]
  | none =>
    right
    have hstmt : updateMetadata (fun row => { row with snapshotId := some snapshotId })
        (Session.view ⟨db, none⟩) =
        .ok { db with metadata := some (.ok { row with snapshotId := some snapshotId }) } := by
      rw [Session.view_idle, updateMetadata, hrow]
      rfl
    have hload' : loadState k
        ({ db with metadata := some (.ok { row with snapshotId := some snapshotId }) } : Db A) =
        .ok { options with
          lastApplied := last, receiptFloor := floor, snapshotId := some snapshotId } :=
      loadState_eq_ok.mpr ⟨_, options, last, floor, rfl, hoptions, hlast, rfl⟩
    rw [snapshotRequest, hu, execute_ok _ hstmt, Session.write_idle]
    cases hp : faults.publish with
    | some e =>
      exact ⟨.error e, _, rfl, by simp, by simp, hload', rfl, rfl⟩
    | none => exact ⟨_, _, rfl, fun st h => (Except.ok.inj h).symm, fun _ => rfl, hload', rfl, rfl⟩

end Hiqlite.External
