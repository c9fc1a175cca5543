import Hiqlite.Lib.BigEndian
import Hiqlite.Lib.Rows

/-!
# G1 — the tables of the external engine

The engine for applications with a consensus of their own keeps two tables next to those of the
application: one row with its options and its last commit, and the latest receipts.

* **`loadState_eq_ok`**: which rows are read; **`floorOf_toNat`**: the oldest receipt that is kept.
-/

namespace Hiqlite.External

abbrev Bytes := List UInt8

/-! ## Checks -/

section Checks

variable {ε α β : Type} {c : Prop} [Decidable c] {e : ε}

def ensure (c : Prop) [Decidable c] (e : ε) : Except ε Unit := if c then .ok () else .error e

@[simp] theorem ensure_eq_ok {u : Unit} : ensure c e = .ok u ↔ c := by
  unfold ensure
  split_ifs with h <;> simp [h]

theorem ensure_of (h : c) : ensure c e = .ok () := ensure_eq_ok.mpr h

theorem ensure_not (h : ¬ c) : ensure c e = .error e := by rw [ensure, if_neg h]

theorem bind_eq_ok {x : Except ε α} {f : α → Except ε β} {b : β} :
    (x >>= f) = .ok b ↔ ∃ a, x = .ok a ∧ f a = .ok b := by
  cases x <;> simp [bind, Except.bind]

@[simp] theorem ok_bind (a : α) (f : α → Except ε β) : (Except.ok a >>= f) = f a := rfl

end Checks

/-! ## Commits -/

/-- The dense order of the commits, a `u64`. -/
abbrev CommitSequence := UInt64

structure Sha256Digest where
  bytes : Bytes
  size : bytes.length = 32
  deriving DecidableEq

inductive ExternalError
  | locked (path : String)
  | rebuildRequired (path : String)
  | rebuildNotRequired (path : String)
  | adoptionNotAllowed (reason : String)
  | invalidOptions (reason : String)
  | missingMetadata
  | invalidMetadata (reason : String)
  | unsupportedFormat (version : ℕ)
  | configurationMismatch (fields : String)
  | sequenceGap (expected received : CommitSequence)
  | sequenceBeforeInitial (initial received : CommitSequence)
  | sequenceOverflow
  | commitConflict (sequence : CommitSequence)
  | receiptUnavailable (sequence : CommitSequence)
  | receiptTooLarge (actual maximum : ℕ)
  | serialization (reason : String)
  | sqlite (reason : String)
  | io (reason : String)
  | setup (reason : String)
  | pool (reason : String)
  | writerClosed
  | writerStopped
  | writerPoisoned (reason : String)
  | snapshotMismatch (reason : String)
  | snapshotDestinationExists (path : String)
  | staleSnapshot
  deriving DecidableEq

def ExternalError.message : ExternalError → String
  | .locked path =>
    s!"external state machine is already open or was not shut down cleanly: {path}"
  | .rebuildRequired path =>
    s!"external projection must be rebuilt from a validated snapshot/log: {path}"
  | .rebuildNotRequired path => s!"external projection does not require a rebuild: {path}"
  | .adoptionNotAllowed reason => s!"existing projection cannot be adopted: {reason}"
  | .invalidOptions reason => s!"external state-machine options are invalid: {reason}"
  | .missingMetadata => "external state-machine metadata is missing"
  | .invalidMetadata reason => s!"external state-machine metadata is invalid: {reason}"
  | .unsupportedFormat version => s!"unsupported external state-machine format {version}"
  | .configurationMismatch fields =>
    s!"external state-machine configuration does not match persisted metadata: {fields}"
  | .sequenceGap expected received =>
    s!"expected commit sequence {expected}, received {received}"
  | .sequenceBeforeInitial initial received =>
    s!"commit sequence {received} is before configured initial sequence {initial}"
  | .sequenceOverflow => "commit sequence overflow"
  | .commitConflict sequence => s!"commit identity conflicts with retained sequence {sequence}"
  | .receiptUnavailable sequence =>
    s!"response receipt for sequence {sequence} is outside the retained window"
  | .receiptTooLarge actual maximum =>
    s!"encoded response receipt has {actual} bytes, maximum is {maximum}"
  | .serialization reason => s!"serialization failed: {reason}"
  | .sqlite reason => s!"SQLite error: {reason}"
  | .io reason => s!"I/O error: {reason}"
  | .setup reason => s!"external state-machine setup failed: {reason}"
  | .pool reason => s!"read pool error: {reason}"
  | .writerClosed => "external writer is no longer available"
  | .writerStopped => "external writer stopped before replying"
  | .writerPoisoned reason =>
    s!"external writer was poisoned and requires projection rebuild: {reason}"
  | .snapshotMismatch reason => s!"snapshot evidence does not match its SQLite file: {reason}"
  | .snapshotDestinationExists path => s!"snapshot destination already exists: {path}"
  | .staleSnapshot => "snapshot checkpoint is older than the live checkpoint"

def checkedNext (sequence : CommitSequence) : Except ExternalError CommitSequence :=
  if sequence.toNat + 1 < 2 ^ 64 then .ok (sequence + 1) else .error .sequenceOverflow

structure ExternalCommit (C : Type) where
  sequence : CommitSequence
  coordinate : C
  commandDigest : Sha256Digest
  stateSchema : UInt64
  receiptSchema : UInt64
  deriving DecidableEq

inductive ExternalEntryKind
  | operation
  | advance
  deriving DecidableEq

def ExternalEntryKind.asI64 : ExternalEntryKind → Int
  | .operation => 1
  | .advance => 2

def ExternalEntryKind.fromI64 (value : Int) : Except ExternalError ExternalEntryKind :=
  if value = 1 then .ok .operation
  else if value = 2 then .ok .advance
  else .error (.invalidMetadata s!"unknown external entry kind {value}")

structure ExternalApplied (C : Type) where
  commit : ExternalCommit C
  kind : ExternalEntryKind
  receiptDigest : Sha256Digest
  deriving DecidableEq

inductive ExternalDurability
  | full
  | normal
  | replayableOff
  deriving DecidableEq

/-- The options that matter to what is stored; paths are left out. -/
structure ExternalSqliteOptions where
  applicationId : String
  initialSequence : CommitSequence
  initialStateSchema : UInt64
  preparedStatementCacheCapacity : UInt64
  readPoolSize : UInt64
  receiptRetention : UInt64
  maxReceiptBytes : UInt64
  durability : ExternalDurability

/-! ## Constants -/

def externalFormatVersion : ℕ := 1
def externalSqliteSnapshotFormat : String := "sqlite3-online-backup/page-image-v1"
def advanceReceiptCodec : String := "hiqlite/advance-v1"
def maxReadPoolSize : UInt64 := 128
def maxReceiptRetention : UInt64 := 1000000
def maxMaxReceiptBytes : UInt64 := 16777216
def maxPreparedStatements : UInt64 := 1000000

/-- `ExternalSqliteOptions::validate`, without the checks of the paths. -/
def ExternalSqliteOptions.validate (options : ExternalSqliteOptions) : Except ExternalError Unit := do
  ensure (options.applicationId ≠ "" ∧ options.applicationId.utf8ByteSize ≤ 256)
    (.invalidOptions "application_id must contain 1..=256 bytes")
  ensure (1 ≤ options.readPoolSize ∧ options.readPoolSize ≤ maxReadPoolSize)
    (.invalidOptions s!"read_pool_size must be in 1..={maxReadPoolSize}")
  ensure (1 ≤ options.receiptRetention ∧ options.receiptRetention ≤ maxReceiptRetention)
    (.invalidOptions s!"receipt_retention must be in 1..={maxReceiptRetention}")
  ensure (1 ≤ options.maxReceiptBytes ∧ options.maxReceiptBytes ≤ maxMaxReceiptBytes)
    (.invalidOptions s!"max_receipt_bytes must be in 1..={maxMaxReceiptBytes}")
  ensure (options.preparedStatementCacheCapacity ≤ maxPreparedStatements)
    (.invalidOptions s!"prepared_statement_cache_capacity must be <= {maxPreparedStatements}")

/-! ## Encodings -/

/-- The encodings that the application brings, and SHA-256. -/
structure Codec (C Out : Type) where
  serialize : C → Except String Bytes
  /-- `decode_from_slice` for a coordinate: the value and how many bytes it took. -/
  deserialize : Bytes → Except String (C × ℕ)
  /-- `Sha256Digest::of` -/
  sha256 : Bytes → Sha256Digest
  receiptCodec : String
  encodeReceipt : Out → Except String Bytes
  decodeReceipt : Bytes → Except String Out

structure Codec.Lawful {C Out : Type} (k : Codec C Out) : Prop where
  coordinate : ∀ {c b}, k.serialize c = .ok b → k.deserialize b = .ok (c, b.length)
  receipt : ∀ {x b}, k.encodeReceipt x = .ok b → k.decodeReceipt b = .ok x

def unitReceipt : Bytes := []

def encodeU64 (value : UInt64) : Bytes := BigEndian.bytes 8 value.toNat

def decodeU64 (bytes : Bytes) (field : String) : Except ExternalError UInt64 :=
  if bytes.length = 8 then .ok (UInt64.ofNat (BigEndian.value bytes))
  else .error (.invalidMetadata s!"{field} must contain exactly 8 bytes")

def decodeDigest (bytes : Bytes) (field : String) : Except ExternalError Sha256Digest :=
  if h : bytes.length = 32 then .ok ⟨bytes, h⟩
  else .error (.invalidMetadata s!"{field} must contain exactly 32 bytes")

variable {A C Out : Type}

def deserializeExact (k : Codec C Out) (bytes : Bytes) (field : String) : Except ExternalError C :=
  match k.deserialize bytes with
  | .error e => .error (.serialization e)
  | .ok (value, consumed) =>
    if consumed = bytes.length then .ok value
    else .error (.invalidMetadata s!"{field} contains trailing bytes")

@[simp] theorem decodeU64_encodeU64 (value : UInt64) (field : String) :
    decodeU64 (encodeU64 value) field = .ok value := by
  have hlt : value.toNat < 256 ^ 8 := value.toNat_lt
  rw [decodeU64, encodeU64, if_pos (BigEndian.bytes_length 8 _), BigEndian.value_bytes hlt,
    UInt64.ofNat_toNat]

theorem encodeU64_injective {a b : UInt64} (h : encodeU64 a = encodeU64 b) : a = b :=
  UInt64.toNat_inj.mp (BigEndian.bytes_injective a.toNat_lt b.toNat_lt h)

theorem encodeU64_lt_iff {a b : UInt64} : encodeU64 a < encodeU64 b ↔ a.toNat < b.toNat := by
  have ha : a.toNat < 256 ^ 8 := a.toNat_lt
  have hb : b.toNat < 256 ^ 8 := b.toNat_lt
  rw [encodeU64, encodeU64, BigEndian.lt_iff_value_lt (by simp), BigEndian.value_bytes ha,
    BigEndian.value_bytes hb]

@[simp] theorem decodeDigest_bytes (digest : Sha256Digest) (field : String) :
    decodeDigest digest.bytes field = .ok digest := by
  rw [decodeDigest, dif_pos digest.size]

@[simp] theorem fromI64_asI64 (kind : ExternalEntryKind) :
    ExternalEntryKind.fromI64 kind.asI64 = .ok kind := by
  cases kind <;> rfl

theorem Codec.Lawful.deserializeExact {k : Codec C Out} (hk : k.Lawful) {c : C} {b : Bytes}
    (h : k.serialize c = .ok b) (field : String) : deserializeExact k b field = .ok c := by
  rw [External.deserializeExact, hk.coordinate h]
  exact if_pos rfl

/-! ## Rows -/

structure MetadataRow where
  formatVersion : Int
  applicationId : String
  initialSequence : Bytes
  initialStateSchema : Bytes
  receiptCodec : String
  receiptRetention : Bytes
  maxReceiptBytes : Bytes
  lastSequence : Option Bytes
  lastCoordinate : Option Bytes
  lastCommandDigest : Option Bytes
  lastKind : Option Int
  lastStateSchema : Option Bytes
  lastReceiptSchema : Option Bytes
  lastReceiptDigest : Option Bytes
  receiptFloor : Option Bytes
  snapshotId : Option String

structure ReceiptRow where
  sequence : Bytes
  coordinate : Bytes
  commandDigest : Bytes
  kind : Int
  stateSchema : Bytes
  receiptSchema : Bytes
  codec : String
  receipt : Bytes
  receiptDigest : Bytes

/-- A database: the tables `A` of the application and those of the engine. -/
structure Db (A : Type) where
  app : A
  /-- The table may be missing, and its row may be missing or of the wrong types. -/
  metadata : Option (Except String MetadataRow)
  receipts : Option (Rows ReceiptRow.sequence)

structure StoredState (C : Type) where
  applicationId : String
  initialSequence : CommitSequence
  initialStateSchema : UInt64
  receiptCodec : String
  receiptRetention : UInt64
  maxReceiptBytes : UInt64
  lastApplied : Option (ExternalApplied C)
  receiptFloor : Option CommitSequence
  snapshotId : Option String
  deriving DecidableEq

structure StoredReceipt (C : Type) where
  commit : ExternalCommit C
  kind : ExternalEntryKind
  codec : String
  receipt : Bytes
  receiptDigest : Sha256Digest

/-! ## The state -/

def selectMetadata (db : Db A) : Except ExternalError MetadataRow :=
  match db.metadata with
  | none => .error .missingMetadata
  | some (.error e) => .error (.sqlite e)
  | some (.ok row) => .ok row

def selectReceipts (db : Db A) : Except ExternalError (Rows ReceiptRow.sequence) :=
  match db.receipts with
  | none => .error (.sqlite "no such table: _hiqlite_external_receipts")
  | some rows => .ok rows

/-- The first part of `load_state`: the options. -/
def loadOptions (row : MetadataRow) : Except ExternalError (StoredState C) := do
  let version := row.formatVersion
  ensure (0 ≤ version ∧ version < 65536) (.invalidMetadata s!"invalid format version {version}")
  ensure (version = externalFormatVersion) (.unsupportedFormat version.toNat)
  let initialSequence ← decodeU64 row.initialSequence "initial_sequence"
  let initialStateSchema ← decodeU64 row.initialStateSchema "initial_state_schema"
  let receiptRetention ← decodeU64 row.receiptRetention "receipt_retention"
  let maxReceiptBytes ← decodeU64 row.maxReceiptBytes "max_receipt_bytes"
  ensure (1 ≤ receiptRetention ∧ receiptRetention ≤ maxReceiptRetention)
    (.invalidMetadata "receipt_retention is outside the supported range")
  ensure (1 ≤ maxReceiptBytes ∧ maxReceiptBytes ≤ maxMaxReceiptBytes)
    (.invalidMetadata "max_receipt_bytes is outside the supported range")
  pure
    { applicationId := row.applicationId
      initialSequence := initialSequence
      initialStateSchema := initialStateSchema
      receiptCodec := row.receiptCodec
      receiptRetention := receiptRetention
      maxReceiptBytes := maxReceiptBytes
      lastApplied := none
      receiptFloor := none
      snapshotId := none }

/-- The second part of `load_state`: the last commit and the receipt floor. -/
def loadLastApplied (k : Codec C Out) (row : MetadataRow) :
    Except ExternalError (Option (ExternalApplied C) × Option CommitSequence) :=
  match row.lastSequence, row.lastCoordinate, row.lastCommandDigest, row.lastKind,
    row.lastStateSchema, row.lastReceiptSchema, row.lastReceiptDigest, row.receiptFloor with
  | some lastSequence, some lastCoordinate, some lastCommandDigest, some lastKind,
    some lastStateSchema, some lastReceiptSchema, some lastReceiptDigest, some receiptFloor => do
    let sequence ← decodeU64 lastSequence "last_sequence"
    let coordinate ← deserializeExact k lastCoordinate "last-applied coordinate"
    let commandDigest ← decodeDigest lastCommandDigest "command_digest"
    let kind ← ExternalEntryKind.fromI64 lastKind
    let stateSchema ← decodeU64 lastStateSchema "state_schema"
    let receiptSchema ← decodeU64 lastReceiptSchema "receipt_schema"
    let receiptDigest ← decodeDigest lastReceiptDigest "receipt_digest"
    let floor ← decodeU64 receiptFloor "receipt_floor"
    pure (some ⟨⟨sequence, coordinate, commandDigest, stateSchema, receiptSchema⟩, kind,
      receiptDigest⟩, some floor)
  | none, none, none, none, none, none, none, none => .ok (none, none)
  | _, _, _, _, _, _, _, _ => .error (.invalidMetadata "partial last-applied metadata")

def loadState (k : Codec C Out) (db : Db A) : Except ExternalError (StoredState C) := do
  let row ← selectMetadata db
  let options : StoredState C ← loadOptions row
  let (lastApplied, receiptFloor) ← loadLastApplied k row
  pure { options with
    lastApplied := lastApplied, receiptFloor := receiptFloor, snapshotId := row.snapshotId }

/-! ## The receipts -/

def loadReceipt (k : Codec C Out) (db : Db A) (sequence : CommitSequence)
    (maxReceiptBytes : UInt64) : Except ExternalError (Option (StoredReceipt C)) := do
  let table ← selectReceipts db
  match table.find (encodeU64 sequence) with
  | none => pure none
  | some row =>
    ensure (row.receipt.length ≤ maxReceiptBytes.toNat)
      (.invalidMetadata s!"receipt at sequence {sequence} exceeds configured maximum")
    let coordinate ← deserializeExact k row.coordinate "receipt coordinate"
    let receiptDigest ← decodeDigest row.receiptDigest "receipt_digest"
    ensure (k.sha256 row.receipt = receiptDigest)
      (.invalidMetadata s!"receipt digest mismatch at sequence {sequence}")
    let commandDigest ← decodeDigest row.commandDigest "command_digest"
    let stateSchema ← decodeU64 row.stateSchema "state_schema"
    let receiptSchema ← decodeU64 row.receiptSchema "receipt_schema"
    let kind ← ExternalEntryKind.fromI64 row.kind
    pure (some ⟨⟨sequence, coordinate, commandDigest, stateSchema, receiptSchema⟩, kind, row.codec,
      row.receipt, receiptDigest⟩)

def saturatingSub (a b : UInt64) : UInt64 := if b ≤ a then a - b else 0

/-- The oldest receipt that is kept when `sequence` is the last one. -/
def floorOf (sequence : CommitSequence) (receiptRetention : UInt64)
    (initialSequence : CommitSequence) : CommitSequence :=
  let floor := saturatingSub sequence (saturatingSub receiptRetention 1)
  if floor ≤ initialSequence then initialSequence else floor

def validateConfiguration (k : Codec C Out) (state : StoredState C)
    (options : ExternalSqliteOptions) : Except ExternalError Unit :=
  let mismatches :=
    (if state.applicationId ≠ options.applicationId then ["application_id"] else []) ++
    (if state.initialSequence ≠ options.initialSequence then ["initial_sequence"] else []) ++
    (if state.initialStateSchema ≠ options.initialStateSchema then ["initial_state_schema"]
      else []) ++
    (if state.receiptCodec ≠ k.receiptCodec then ["receipt_codec"] else []) ++
    (if state.receiptRetention ≠ options.receiptRetention then ["receipt_retention"] else []) ++
    (if state.maxReceiptBytes ≠ options.maxReceiptBytes then ["max_receipt_bytes"] else [])
  ensure (mismatches = []) (.configurationMismatch (", ".intercalate mismatches))

/-- The checks of `validate_receipts` on one receipt. -/
def validateReceipt (k : Codec C Out) (state : StoredState C) (actual : CommitSequence)
    (receipt : StoredReceipt C) : Except ExternalError Unit := do
  let expectedCodec := match receipt.kind with
    | .operation => state.receiptCodec
    | .advance => advanceReceiptCodec
  ensure (receipt.codec = expectedCodec)
    (.invalidMetadata s!"receipt codec mismatch at sequence {actual}")
  ensure (receipt.receipt.length ≤ state.maxReceiptBytes.toNat)
    (.invalidMetadata s!"receipt at sequence {actual} exceeds configured maximum")
  match receipt.kind with
  | .operation =>
    match k.decodeReceipt receipt.receipt with
    | .ok _ => pure ()
    | .error err =>
      throw (.invalidMetadata s!"operation receipt at sequence {actual} is not decodable: {err}")
  | .advance =>
    ensure (receipt.receipt = unitReceipt)
      (.invalidMetadata s!"advance receipt at sequence {actual} is not canonical")

/-- The loop of `validate_receipts` over the keys in their order. -/
def validateEach (k : Codec C Out) (db : Db A) (state : StoredState C) (floor : CommitSequence) :
    ℕ → List Bytes → Except ExternalError Unit
  | _, [] => pure ()
  | offset, sequence :: rest => do
    let actual ← decodeU64 sequence "receipt sequence"
    ensure (actual = floor + UInt64.ofNat offset) (.invalidMetadata "receipt suffix contains a gap")
    match ← loadReceipt k db actual state.maxReceiptBytes with
    | none =>
      throw (.invalidMetadata s!"receipt at sequence {actual} disappeared during validation")
    | some receipt =>
      validateReceipt k state actual receipt
      validateEach k db state floor (offset + 1) rest

def validateReceipts [DecidableEq C] (k : Codec C Out) (db : Db A) (state : StoredState C) :
    Except ExternalError Unit :=
  match state.lastApplied, state.receiptFloor with
  | none, none => do
    let table ← selectReceipts db
    ensure (table.rows.length = 0) (.invalidMetadata "receipts exist without a checkpoint")
  | some last, some floor => do
    ensure (floor ≤ last.commit.sequence) (.invalidMetadata "receipt floor exceeds checkpoint")
    let expectedCount := last.commit.sequence - floor + 1
    ensure (expectedCount ≤ state.receiptRetention)
      (.invalidMetadata "receipt suffix exceeds configured retention")
    ensure (floor = floorOf last.commit.sequence state.receiptRetention state.initialSequence)
      (.invalidMetadata "receipt floor does not match configured retention")
    let table ← selectReceipts db
    ensure (UInt64.ofNat table.rows.length = expectedCount)
      (.invalidMetadata "receipt suffix count mismatch")
    validateEach k db state floor 0 (table.rows.map ReceiptRow.sequence)
    match ← loadReceipt k db last.commit.sequence state.maxReceiptBytes with
    | none => throw (.invalidMetadata "newest receipt is missing")
    | some newest =>
      ensure (newest.commit = last.commit ∧ newest.kind = last.kind ∧
          newest.receiptDigest = last.receiptDigest)
        (.invalidMetadata "newest receipt does not match checkpoint")
  | _, _ => throw (.invalidMetadata "checkpoint and receipt floor presence mismatch")

/-! ## A new database -/

def createMetadataTables (k : Codec C Out) (options : ExternalSqliteOptions) (db : Db A) : Db A :=
  { db with
    metadata := some (.ok
      { formatVersion := externalFormatVersion
        applicationId := options.applicationId
        initialSequence := encodeU64 options.initialSequence
        initialStateSchema := encodeU64 options.initialStateSchema
        receiptCodec := k.receiptCodec
        receiptRetention := encodeU64 options.receiptRetention
        maxReceiptBytes := encodeU64 options.maxReceiptBytes
        lastSequence := none
        lastCoordinate := none
        lastCommandDigest := none
        lastKind := none
        lastStateSchema := none
        lastReceiptSchema := none
        lastReceiptDigest := none
        receiptFloor := none
        snapshotId := none })
    receipts := some .empty }

/-! ## What is read -/

theorem saturatingSub_toNat (a b : UInt64) : (saturatingSub a b).toNat = a.toNat - b.toNat := by
  unfold saturatingSub
  split_ifs with h
  · exact UInt64.toNat_sub_of_le a b h
  · rw [UInt64.le_iff_toNat_le] at h
    rw [Nat.sub_eq_zero_of_le (by omega)]
    rfl

/-- **The floor** leaves as many receipts as are kept, but none before the initial sequence. -/
theorem floorOf_toNat (sequence retention initial : UInt64) :
    (floorOf sequence retention initial).toNat =
      max (sequence.toNat - (retention.toNat - 1)) initial.toNat := by
  have h1 : (saturatingSub sequence (saturatingSub retention 1)).toNat =
      sequence.toNat - (retention.toNat - 1) := by
    rw [saturatingSub_toNat, saturatingSub_toNat]
    rfl
  unfold floorOf
  dsimp only
  split_ifs with h <;> rw [UInt64.le_iff_toNat_le, h1] at h
  · rw [Nat.max_eq_right h]
  · rw [h1, Nat.max_eq_left (by omega)]

theorem loadState_eq_ok {k : Codec C Out} {db : Db A} {state : StoredState C} :
    loadState k db = .ok state ↔ ∃ (row : MetadataRow) (options : StoredState C) (last : _) (floor : _),
      db.metadata = some (.ok row) ∧ loadOptions row = .ok options ∧
      loadLastApplied k row = .ok (last, floor) ∧
      state = { options with
        lastApplied := last, receiptFloor := floor, snapshotId := row.snapshotId } := by
  have hsel : ∀ row, selectMetadata db = .ok row ↔ db.metadata = some (.ok row) := by
    intro row
    unfold selectMetadata
    split <;> simp_all
  unfold loadState
  constructor
  · intro h
    obtain ⟨row, hrow, h⟩ := bind_eq_ok.mp h
    obtain ⟨options, hoptions, h⟩ := bind_eq_ok.mp h
    obtain ⟨⟨last, floor⟩, hlast, h⟩ := bind_eq_ok.mp h
    exact ⟨row, options, last, floor, (hsel row).mp hrow, hoptions, hlast, (Except.ok.inj h).symm⟩
  · rintro ⟨row, options, last, floor, hrow, hoptions, hlast, rfl⟩
    rw [(hsel row).mpr hrow, ok_bind, hoptions, ok_bind, hlast]
    rfl

end Hiqlite.External
