import Hiqlite.External.Tables
import Hiqlite.Lib.Exec
import Hiqlite.Lib.Session

/-!
# G2 — the writer of the external engine

One thread runs the operations of the caller, each in a transaction that also stores the commit and
a receipt of the output.

* **`persist_cases`**, **`loadState_withLastApplied`**: what is stored of a commit and read back.
-/

namespace Hiqlite.External

open Exec


variable {A C Out R E ε : Type}

/-! ## Operations -/

inductive AuthAction
  | createIndex (index table : String)
  | createTable (table : String)
  | createTempIndex (index table : String)
  | createTempTable (table : String)
  | createTempTrigger (trigger table : String)
  | createTempView (view : String)
  | createTrigger (trigger table : String)
  | createView (view : String)
  | delete (table : String)
  | dropIndex (index table : String)
  | dropTable (table : String)
  | dropTempIndex (index table : String)
  | dropTempTable (table : String)
  | dropTempTrigger (trigger table : String)
  | dropTempView (view : String)
  | dropTrigger (trigger table : String)
  | dropView (view : String)
  | insert (table : String)
  | pragma (name : String) (value : Option String)
  | read (table column : String)
  | select
  | transaction
  | update (table column : String)
  | attach (file : String)
  | detach (database : String)
  | alterTable (database table : String)
  | reindex (index : String)
  | analyze (table : String)
  | createVtable (table module : String)
  | dropVtable (table module : String)
  | function (name : String)
  | savepoint (name : String)
  | recursive
  | unknown (code : Int)

def isProtected (name : String) : Bool := "_hiqlite_external_".toList.isPrefixOf name.toList

/-- `external_operation_authorizer`: whether an action is allowed. -/
def externalOperationAuthorizer : AuthAction → Bool
  | .createIndex name table | .dropIndex name table | .createTrigger name table
  | .dropTrigger name table => !(isProtected name || isProtected table)
  | .createTable table | .dropTable table | .createVtable table _ | .dropVtable table _
  | .alterTable _ table | .analyze table => !isProtected table
  | .insert table | .delete table | .update table _ => !isProtected table
  | .read table _ => !isProtected table
  | .reindex index => !isProtected index
  | .createTempIndex _ _ | .createTempTable _ | .createTempTrigger _ _ | .createTempView _
  | .dropTempIndex _ _ | .dropTempTable _ | .dropTempTrigger _ _ | .dropTempView _
  | .pragma _ _ | .attach _ | .detach _ | .transaction | .savepoint _ => false
  | .createView _ | .dropView _ | .select | .function _ | .recursive | .unknown _ => true

/-- What a statement asks permission for, and what it does to the tables. -/
structure Statement (A R : Type) where
  actions : List AuthAction
  effect : A → Session.Reply A R

def Statement.run (st : Statement A R) (db : Db A) : Session.Reply (Db A) R :=
  if st.actions.all externalOperationAuthorizer then
    match st.effect db.app with
    | .done app r => .done { db with app := app } r
    | .failed app e => .failed { db with app := app } e
    | .ended e => .ended e
  else .failed db "not authorized"

/-- What an operation can leave behind: the tables of the engine are as they were. -/
def Confined (d : Db A) (s : Session (Db A)) : Prop :=
  (∃ app, s = ⟨d, some { d with app := app }⟩) ∨ ∃ app, s = ⟨{ d with app := app }, none⟩

/-- `DeterministicSqliteOperation::apply`, by what it does on a connection with a new transaction. -/
structure Operation (A E Out : Type) where
  apply : Session (Db A) → Except E Out × Session (Db A)
  confined : ∀ d, Confined d (apply ⟨d, some d⟩).2

theorem Statement.run_confined (p : Program (Statement A R) R E Out) (d : Db A) :
    Confined d (p.run Statement.run ⟨d, some d⟩).2 := by
  have hdone : ∀ (st : Statement A R) (x x' : Db A) r, { d with app := x.app } = x →
      st.run x = .done x' r → { d with app := x'.app } = x' := by
    intro st x x' r hx hst
    unfold Statement.run at hst
    split_ifs at hst
    split at hst <;> cases hst
    rw [← hx]
  have hfailed : ∀ (st : Statement A R) (x x' : Db A) e, { d with app := x.app } = x →
      st.run x = .failed x' e → { d with app := x'.app } = x' := by
    intro st x x' r hx hst
    unfold Statement.run at hst
    split_ifs at hst
    · split at hst <;> cases hst
      rw [← hx]
    · cases hst
      exact hx
  obtain ⟨hfile, hview⟩ := p.run_preserves (s := ⟨d, some d⟩) hdone hfailed rfl rfl
  rcases hs : (p.run Statement.run ⟨d, some d⟩).2 with ⟨f, t⟩
  rw [hs] at hfile hview
  cases t with
  | none => exact .inr ⟨f.app, by rw [hfile]⟩
  | some x =>
    have hfile' : f = d := by
      rcases p.run_cases Statement.run ⟨d, some d⟩ with hnone | hkept
      · rw [hs] at hnone
        cases hnone
      · rwa [hs] at hkept
    exact .inl ⟨x.app, by rw [hfile', show { d with app := x.app } = x from hview]⟩

def Operation.ofProgram (p : Program (Statement A R) R E Out) : Operation A E Out :=
  ⟨p.run Statement.run, Statement.run_confined p⟩

/-- An operation that changes the tables at once or fails without effect. -/
def Operation.atomic (f : A → Except E (A × Out)) : Operation A E Out where
  apply s :=
    match f s.view.app with
    | .ok (app, out) => (.ok out, s.write { s.view with app := app })
    | .error e => (.error e, s)
  confined d := by
    dsimp only [Session.view_open]
    split
    · exact .inl ⟨_, rfl⟩
    · exact .inl ⟨d.app, rfl⟩

/-! ## Commits in their order -/

inductive CommitClass (C : Type)
  | new
  | retry (receipt : StoredReceipt C)

def classifyCommit [DecidableEq C] (k : Codec C Out) (db : Db A) (state : StoredState C)
    (commit : ExternalCommit C) (kind : ExternalEntryKind) (codec : String) :
    Except ExternalError (CommitClass C) :=
  match state.lastApplied with
  | none =>
    if commit.sequence = state.initialSequence then .ok .new
    else if state.initialSequence < commit.sequence then
      .error (.sequenceGap state.initialSequence commit.sequence)
    else .error (.sequenceBeforeInitial state.initialSequence commit.sequence)
  | some current =>
    if commit.sequence ≤ current.commit.sequence then do
      match ← loadReceipt k db commit.sequence state.maxReceiptBytes with
      | none => throw (.receiptUnavailable commit.sequence)
      | some receipt =>
        ensure (receipt.commit = commit ∧ receipt.kind = kind ∧ receipt.codec = codec)
          (.commitConflict commit.sequence)
        pure (.retry receipt)
    else do
      let expected ← checkedNext current.commit.sequence
      ensure (commit.sequence = expected) (.sequenceGap expected commit.sequence)
      pure .new

def updateStateAfterCommit (state : StoredState C) (commit : ExternalCommit C)
    (kind : ExternalEntryKind) (receiptDigest : Sha256Digest) : StoredState C :=
  { state with
    lastApplied := some ⟨commit, kind, receiptDigest⟩
    receiptFloor := some (floorOf commit.sequence state.receiptRetention state.initialSequence) }

/-! ## Statements of the engine -/

/-- The calls to SQLite that fail on their own. -/
structure Faults where
  begin : Option String := none
  authorizer : Option String := none
  unauthorizer : Option String := none
  insert : Option String := none
  update : Option String := none
  delete : Option String := none
  commit : Option String := none

def permit (fault : Option String) : Except ExternalError Unit :=
  match fault with
  | some e => .error (.sqlite e)
  | none => .ok ()

def execute (fault : Option String) (stmt : Db A → Except String (Db A)) :
    Exec (Session (Db A)) ExternalError Unit := do
  lift (permit fault)
  let s ← Exec.get
  let db ← lift ((stmt s.view).mapError .sqlite)
  modify (·.write db)

def insertReceipt (row : ReceiptRow) (db : Db A) : Except String (Db A) :=
  match db.receipts with
  | none => .error "no such table: _hiqlite_external_receipts"
  | some table =>
    match table.insert row with
    | none => .error "UNIQUE constraint failed: _hiqlite_external_receipts.sequence"
    | some table => .ok { db with receipts := some table }

def updateMetadata (f : MetadataRow → MetadataRow) (db : Db A) : Except String (Db A) :=
  match db.metadata with
  | none => .error "no such table: _hiqlite_external_state"
  | some row => .ok { db with metadata := some (row.map f) }

def deleteReceipts (floor : Bytes) (db : Db A) : Except String (Db A) :=
  match db.receipts with
  | none => .error "no such table: _hiqlite_external_receipts"
  | some table => .ok { db with receipts := some (table.deleteBelow floor) }

def receiptRow (commit : ExternalCommit C) (coordinate : Bytes) (kind : ExternalEntryKind)
    (codec : String) (receipt : Bytes) (receiptDigest : Sha256Digest) : ReceiptRow where
  sequence := encodeU64 commit.sequence
  coordinate := coordinate
  commandDigest := commit.commandDigest.bytes
  kind := kind.asI64
  stateSchema := encodeU64 commit.stateSchema
  receiptSchema := encodeU64 commit.receiptSchema
  codec := codec
  receipt := receipt
  receiptDigest := receiptDigest.bytes

def withLastApplied (commit : ExternalCommit C) (coordinate : Bytes) (kind : ExternalEntryKind)
    (receiptDigest : Sha256Digest) (floor : CommitSequence) (row : MetadataRow) : MetadataRow :=
  { row with
    lastSequence := some (encodeU64 commit.sequence)
    lastCoordinate := some coordinate
    lastCommandDigest := some commit.commandDigest.bytes
    lastKind := some kind.asI64
    lastStateSchema := some (encodeU64 commit.stateSchema)
    lastReceiptSchema := some (encodeU64 commit.receiptSchema)
    lastReceiptDigest := some receiptDigest.bytes
    receiptFloor := some (encodeU64 floor) }

def persistNewCommit (k : Codec C Out) (faults : Faults) (state : StoredState C)
    (commit : ExternalCommit C) (kind : ExternalEntryKind) (codec : String) (receipt : Bytes)
    (receiptDigest : Sha256Digest) : Exec (Session (Db A)) ExternalError Unit := do
  let coordinate ← lift ((k.serialize commit.coordinate).mapError .serialization)
  let floor := floorOf commit.sequence state.receiptRetention state.initialSequence
  execute faults.insert
    (insertReceipt (receiptRow commit coordinate kind codec receipt receiptDigest))
  let lastCoordinate ← lift ((k.serialize commit.coordinate).mapError .serialization)
  execute faults.update
    (updateMetadata (withLastApplied commit lastCoordinate kind receiptDigest floor))
  execute faults.delete (deleteReceipts (encodeU64 floor))

/-! ## What is stored -/

section Persist

variable {k : Codec C Out} {faults : Faults} {state : StoredState C} {commit : ExternalCommit C}
  {kind : ExternalEntryKind} {codec : String} {receipt coordinate : Bytes} {digest : Sha256Digest}
  {s : Session (Db A)} {db : Db A} {table table' : Rows ReceiptRow.sequence}

/-- The tables with the new commit, where `table` has the new receipt. -/
def persisted (state : StoredState C) (commit : ExternalCommit C) (coordinate : Bytes)
    (kind : ExternalEntryKind) (receiptDigest : Sha256Digest) (table : Rows ReceiptRow.sequence)
    (db : Db A) : Db A :=
  let floor := floorOf commit.sequence state.receiptRetention state.initialSequence
  { db with
    metadata := db.metadata.map
      (·.map (withLastApplied commit coordinate kind receiptDigest floor))
    receipts := some (table.deleteBelow (encodeU64 floor)) }

theorem loadState_withLastApplied (hk : k.Lawful) (hload : loadState k db = .ok state)
    (hser : k.serialize commit.coordinate = .ok coordinate) (db' : Db A) (floor : CommitSequence)
    (hdb : db'.metadata =
      db.metadata.map (·.map (withLastApplied commit coordinate kind digest floor))) :
    loadState k db' = .ok { state with
      lastApplied := some ⟨commit, kind, digest⟩, receiptFloor := some floor } := by
  obtain ⟨row, options, last, fl, hrow, hoptions, -, rfl⟩ := loadState_eq_ok.mp hload
  refine loadState_eq_ok.mpr ⟨withLastApplied commit coordinate kind digest floor row, options,
    some ⟨commit, kind, digest⟩, some floor, ?_, hoptions, ?_, rfl⟩
  · rw [hdb, hrow]
    rfl
  · simp [loadLastApplied, withLastApplied, hk.deserializeExact hser]

theorem execute_fault (e : String) (stmt : Db A → Except String (Db A)) (s : Session (Db A)) :
    execute (some e) stmt s = (.error (.sqlite e), s) := rfl

theorem execute_ok (stmt : Db A → Except String (Db A)) {d : Db A} (h : stmt s.view = .ok d) :
    execute none stmt s = (.ok (), s.write d) := by
  simp [execute, permit, h, Except.mapError]

theorem persist_serialize_error {e : String} (hser : k.serialize commit.coordinate = .error e) :
    persistNewCommit k faults state commit kind codec receipt digest s =
      (.error (.serialization e), s) := by
  rw [persistNewCommit, hser]
  rfl

/-- **What is stored of a commit**: nothing, the receipt and maybe the state, or everything. -/
theorem persist_cases (faults : Faults) (state : StoredState C)
    (hser : k.serialize commit.coordinate = .ok coordinate) (htable : s.view.receipts = some table)
    (hinsert : table.insert (receiptRow commit coordinate kind codec receipt digest) = some table')
    (hmeta : s.view.metadata.isSome) : (∃ e, faults.insert = some e ∧
      persistNewCommit k faults state commit kind codec receipt digest s =
        (.error (.sqlite e), s)) ∨
    (∃ e d, faults.insert = none ∧ (faults.update = some e ∨ faults.delete = some e) ∧
      d.app = s.view.app ∧ d.receipts = some table' ∧
      persistNewCommit k faults state commit kind codec receipt digest s =
        (.error (.sqlite e), s.write d)) ∨
    faults.insert = none ∧ faults.update = none ∧ faults.delete = none ∧
      persistNewCommit k faults state commit kind codec receipt digest s =
        (.ok (), s.write (persisted state commit coordinate kind digest table' s.view)) := by
  obtain ⟨m, hmeta⟩ := Option.isSome_iff_exists.mp hmeta
  unfold persistNewCommit
  rw [hser]
  simp only [Except.mapError, lift_ok, pure_bind]
  cases hi : faults.insert with
  | some e => exact .inl ⟨e, rfl, bind_error (execute_fault e _ s)⟩
  | none =>
    right
    have h1 := execute_ok (s := s) (d := { s.view with receipts := some table' })
      (insertReceipt (receiptRow commit coordinate kind codec receipt digest))
      (by rw [insertReceipt, htable]; simp [hinsert])
    rw [bind_ok h1]
    cases hu : faults.update with
    | some e =>
      exact .inl ⟨e, { s.view with receipts := some table' }, rfl, .inl rfl, rfl, rfl,
        bind_error (execute_fault e _ _)⟩
    | none =>
      have h2 := execute_ok (s := s.write { s.view with receipts := some table' })
        (updateMetadata (withLastApplied commit coordinate kind digest
          (floorOf commit.sequence state.receiptRetention state.initialSequence)))
        (by rw [updateMetadata, Session.view_write]; simp only [hmeta]; rfl)
      rw [bind_ok h2, Session.write_write]
      cases hd : faults.delete with
      | some e =>
        exact .inl ⟨e, { s.view with metadata := some (m.map _), receipts := some table' }, rfl,
          .inr rfl, rfl, rfl, execute_fault e _ _⟩
      | none =>
        refine .inr ⟨rfl, rfl, rfl, ?_⟩
        rw [execute_ok _ (by rw [deleteReceipts, Session.view_write]), Session.write_write, persisted,
          hmeta]
        rfl

end Persist

def commitTransaction (fault : Option String) : Exec (Session (Db A)) ExternalError Unit := do
  lift (permit fault)
  let s ← Exec.get
  let s ← unwrap (.sqlite "cannot commit - no transaction is active") s.commit
  modify fun _ => s

/-! ## Applying -/

/-- The failure of an operation, or of the engine. -/
inductive ExternalApplyError (E : Type)
  | operation (e : E)
  | engine (e : ExternalError)

inductive ApplyOutcome (T : Type)
  | applied (output : T)
  | recovered (output : T)

structure Writer (A C : Type) where
  conn : Session (Db A)
  state : StoredState C

/-- The writer outside a transaction. -/
abbrev Writer.idle {A C : Type} (db : Db A) (state : StoredState C) : Writer A C :=
  ⟨⟨db, none⟩, state⟩

def engine {σ α : Type} (x : Exec σ ExternalError α) : Exec σ (ExternalApplyError E) α :=
  fun s => ((x s).1.mapError .engine, (x s).2)

variable {σ α : Type}

@[simp] theorem engine_pure (a : α) :
    (engine (pure a) : Exec σ (ExternalApplyError E) α) = pure a := rfl

theorem engine_eq {x : Exec σ ExternalError α} {s s' : σ} {r : Except ExternalError α}
    (hx : x s = (r, s')) :
    (engine x : Exec σ (ExternalApplyError E) α) s = (r.mapError .engine, s') := by
  rw [engine, hx]

theorem engine_bind {β : Type} (x : Exec σ ExternalError α) (f : α → Exec σ ExternalError β) :
    (engine (x >>= f) : Exec σ (ExternalApplyError E) β) = engine x >>= fun a => engine (f a) := by
  funext s
  rcases hx : x s with ⟨r, s'⟩
  cases r with
  | error e =>
    rw [engine, bind_error hx, bind_error (engine_eq hx)]
    rfl
  | ok a =>
    rw [engine, bind_ok hx, bind_ok (engine_eq hx)]
    rfl

/-- `body` in a transaction, which is rolled back when it is dropped open. -/
def withTransaction {α : Type} (fault : Option String) (body : Exec (Session (Db A)) ε α)
    (wrap : ExternalError → ε) : Exec (Session (Db A)) ε α := fun s =>
  match permit fault, s.begin with
  | .error e, _ => (.error (wrap e), s)
  | .ok _, none => (.error (wrap (.sqlite "cannot start a transaction within a transaction")), s)
  | .ok _, some s => ((body s).1, (body s).2.rollback)

def Operation.exec (op : Operation A E Out) : Exec (Session (Db A)) ε (Except E Out) :=
  fun s => (.ok (op.apply s).1, (op.apply s).2)

/-- What `apply_operation` does with the result of an operation. -/
def storeResult (k : Codec C Out) (faults : Faults) (state : StoredState C)
    (commit : ExternalCommit C) (operationResult : Except E Out) :
    Exec (Session (Db A)) (ExternalApplyError E) (Out × Sha256Digest) := do
  let output ← lift (operationResult.mapError .operation)
  let receipt ← engine (lift ((k.encodeReceipt output).mapError .serialization))
  engine (lift (ensure (receipt.length ≤ state.maxReceiptBytes.toNat)
    (.receiptTooLarge receipt.length state.maxReceiptBytes.toNat)))
  let receiptDigest := k.sha256 receipt
  engine (persistNewCommit k faults state commit .operation k.receiptCodec receipt receiptDigest)
  engine (commitTransaction faults.commit)
  pure (output, receiptDigest)

def applyInside (k : Codec C Out) (faults : Faults) (state : StoredState C)
    (commit : ExternalCommit C) (op : Operation A E Out) :
    Exec (Session (Db A)) (ExternalApplyError E) (Out × Sha256Digest) := do
  engine (lift (permit faults.authorizer))
  let operationResult ← op.exec
  engine (lift (permit faults.unauthorizer))
  storeResult k faults state commit operationResult

def advanceInside (k : Codec C Out) (faults : Faults) (state : StoredState C)
    (commit : ExternalCommit C) : Exec (Session (Db A)) ExternalError Unit := do
  persistNewCommit k faults state commit .advance advanceReceiptCodec unitReceipt
    (k.sha256 unitReceipt)
  commitTransaction faults.commit

def onConn {ε α : Type} (x : Exec (Session (Db A)) ε α) : Exec (Writer A C) ε α :=
  zoom Writer.conn (fun s w => { w with conn := s }) x

variable [DecidableEq C]

def applyOperation (k : Codec C Out) (faults : Faults) (commit : ExternalCommit C)
    (op : Operation A E Out) : Exec (Writer A C) (ExternalApplyError E) (ApplyOutcome Out) := do
  let w ← Exec.get
  match ← engine (lift
    (classifyCommit k w.conn.view w.state commit .operation k.receiptCodec)) with
  | .retry receipt =>
    let output ← engine (lift ((k.decodeReceipt receipt.receipt).mapError .serialization))
    pure (.recovered output)
  | .new =>
    let (output, receiptDigest) ← onConn
      (withTransaction faults.begin (applyInside k faults w.state commit op) .engine)
    modify fun w =>
      { w with state := updateStateAfterCommit w.state commit .operation receiptDigest }
    pure (.applied output)

def applyAdvance (k : Codec C Out) (faults : Faults) (commit : ExternalCommit C) :
    Exec (Writer A C) ExternalError (ApplyOutcome Unit) := do
  let w ← Exec.get
  match ← lift (classifyCommit k w.conn.view w.state commit .advance advanceReceiptCodec) with
  | .retry _ => pure (.recovered ())
  | .new =>
    onConn (withTransaction faults.begin (advanceInside k faults w.state commit) id)
    modify fun w =>
      { w with state := updateStateAfterCommit w.state commit .advance (k.sha256 unitReceipt) }
    pure (.applied ())

def reconcileAfterApply (k : Codec C Out) (applyFailed : Bool) :
    Exec (Writer A C) ExternalError Unit := do
  modify fun w => { w with conn := w.conn.rollback }
  if applyFailed then do
    let w ← Exec.get
    let stored ← lift (loadState k w.conn.view)
    lift (validateReceipts k w.conn.view stored)
    modify fun w => { w with state := stored }

/-- The reply to the caller, the error that poisons the writer, and the writer. -/
structure Applied (ε T A C : Type) where
  result : Except ε (ApplyOutcome T)
  poison : Option ExternalError
  writer : Writer A C

/-- `apply_committed` and `advance_committed` on the side of the writer. -/
def thunk {ε T : Type} (k : Codec C Out) (apply : Exec (Writer A C) ε (ApplyOutcome T))
    (wrap : ExternalError → ε) (w : Writer A C) : Applied ε T A C :=
  let (result, w) := apply w
  match reconcileAfterApply k (result.toOption.isNone) w with
  | (.ok _, w) => ⟨result, none, w⟩
  | (.error e, w) =>
    ⟨.error (wrap (.writerPoisoned e.message)), some (.writerPoisoned e.message), w⟩

def applyCommitted (k : Codec C Out) (faults : Faults) (commit : ExternalCommit C)
    (op : Operation A E Out) (w : Writer A C) : Applied (ExternalApplyError E) Out A C :=
  thunk k (applyOperation k faults commit op) .engine w

def advanceCommitted (k : Codec C Out) (faults : Faults) (commit : ExternalCommit C)
    (w : Writer A C) : Applied ExternalError Unit A C :=
  thunk k (applyAdvance k faults commit) id w

/-- The checks of `open_inner` on a database, and the writer it starts. -/
def openWriter (k : Codec C Out) (options : ExternalSqliteOptions) (db : Db A) :
    Except ExternalError (Writer A C) := do
  let state ← loadState k db
  validateConfiguration k state options
  validateReceipts k db state
  pure ⟨⟨db, none⟩, state⟩

end Hiqlite.External
