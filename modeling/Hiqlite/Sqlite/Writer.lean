import Hiqlite.Sqlite.Conn

/-!
# Q3 — the requests of the SQLite writer

One thread owns the write connection. Whether a transaction is open on it is carried from request to
request: **`autocommit_iff_closes`**; `batch_leaves_transaction_open`.
-/

namespace Hiqlite.Sqlite

open List Option

/-! ## Requests and replies -/

/-- `Param`. The constructors for plain values are one. -/
inductive Param
  | value (v : Value)
  | stmtOutputIndexed (stmt column : ℕ)
  | stmtOutputNamed (stmt : ℕ) (column : String)
  deriving DecidableEq

structure Query where
  sql : String
  params : List Param
  deriving DecidableEq

inductive QueryWrite
  | execute (q : Query)
  | executeReturning (q : Query)
  | transaction (queries : List Query)
  | batch (sql : String)
  deriving DecidableEq

structure Migration where
  id : UInt32
  name : String
  hash : String
  content : String
  deriving DecidableEq

inductive Request
  | query (q : QueryWrite) (lastAppliedLogId : Option LogId)
  | migrate (migrations : List Migration) (lastAppliedLogId : Option LogId)
  | snapshot (id : ℕ) (placed : Bool)
  | backup (now : ℕ) (placed : Bool) (lastAppliedLogId : Option LogId)
  deriving DecidableEq

inductive Message
  | of (e : SqlError)
  | converted (e : SqlError)
  /-- Preparing cached query … -/
  | preparing (sql : String) (e : SqlError)
  /-- Error binding param on position … to query … -/
  | binding (idx : ℕ) (sql : String) (e : SqlError)
  /-- StmtIndex(…) does not have observable row output, or index out of bounds -/
  | noOutput (stmt : ℕ)
  | columnOutOfBounds
  | rePreparation
  | invalidColumnName (name : String)
  /-- Cannot read output column … -/
  | readColumn (idx : ℕ)
  /-- Received empty migrations -/
  | emptyMigrations
  /-- rename … into place -/
  | rename
  deriving DecidableEq

inductive Error
  | prepareStatement (m : Message)
  | queryParams (m : Message)
  | transaction (m : Message)
  | sqlite (m : Message)
  | constraintViolation (m : Message)
  | queryReturnedNoRows
  | error (m : Message)
  deriving DecidableEq

abbrev Result (A : Type) := Except Error A

def Error.ofSql : SqlError → Error
  | .queryReturnedNoRows => .queryReturnedNoRows
  | .fault (.constraint text) => .constraintViolation (.of (.fault (.constraint text)))
  | e => .sqlite (.of e)

abbrev Row := List (String × Value)

inductive Reply (M : Type)
  | execute (r : Result ℕ)
  | executeReturning (r : Result (List (Result Row)))
  | transaction (r : Result (List ℕ))
  | batch (r : Result (List (Result ℕ)))
  | migrate (r : Result Unit)
  | snapshot (r : Result (StateMachineData M))
  | backup (r : Result Unit)

def Reply.isOk {M : Type} : Reply M → Bool
  | .execute r => r.isOk
  | .executeReturning r => r.isOk
  | .transaction r => r.isOk
  | .batch r => r.isOk
  | .migrate r => r.isOk
  | .snapshot r => r.isOk
  | .backup r => r.isOk

/-- The request is rejected because a transaction is open already. -/
def Reply.rejected {M : Type} : Reply M → Bool
  | .transaction (.error e) => e = .transaction (.of .withinTransaction)
  | .snapshot (.error e) => e = .sqlite (.of .vacuumInTransaction)
  | .backup (.error e) => e = .sqlite (.of .vacuumInTransaction)
  | _ => false

/-! ## Queries -/

variable {A M L E S : Type} (X : Engine A L E S)
  -- `RowOwned::from_row_column`, which panics on a value that does not fit its column
  (rowOwned : Columns → List Value → Option Row)

/-- Bind the parameters outside of transactions, where a reference panics. -/
def bindParams (st : Stmt S) : ℕ → List Param → Option (Except SqlError (List Value))
  | _, [] => some (.ok [])
  | idx, .value v :: ps =>
    match Conn.bindAt X st idx v with
    | some e => some (.error e)
    | none => (bindParams st (idx + 1) ps).map fun r => r.map (v :: ·)
  | _, _ => none

def execute (c : Conn A M L E) (q : Query) : Option (Conn A M L E × Result ℕ) :=
  match c.prepareCached X q.sql with
  | .error e => some (c, .error (.prepareStatement (.of e)))
  | .ok h =>
    match bindParams X h.stmt 1 q.params with
    | none => none
    | some (.error e) => some (c.putBack h, .error (.queryParams (.of e)))
    | some (.ok ps) =>
      let (c, r) := c.rawExecuteCached X h ps
      some (c, r.mapError Error.ofSql)

def executeReturning (c : Conn A M L E) (q : Query) :
    Option (Conn A M L E × Result (List (Result Row))) :=
  match c.prepareCached X q.sql with
  | .error e => some (c, .error (.prepareStatement (.of e)))
  | .ok h =>
    match bindParams X h.stmt 1 q.params with
    | none => none
    | some (.error e) => some (c.putBack h, .error (.queryParams (.of e)))
    | some (.ok ps) => do
      let (c, out) := c.stepCached X h ps
      let rows ← out.rows.mapM (rowOwned h.columns)
      some (c, .ok (rows.map .ok ++ out.err.toList.map fun e => .error (.sqlite (.of e))))

structure TransactionEnv where
  observableStmts : List (ℕ × String × List Value)
  columnIndexCache : List ((ℕ × String) × ℕ)

structure TransactionParamContext (A M L E : Type) where
  conn : Conn A M L E
  env : TransactionEnv

def firstRowValue (row : List Value) (column : ℕ) : Except Message Value :=
  match row[column]? with
  | none => .error .columnOutOfBounds
  | some v => .ok v

def lookupStatementOutputNamed (ctx : TransactionParamContext A M L E) (stmt : ℕ) (name : String) :
    Except Message Value × TransactionParamContext A M L E :=
  match ctx.env.observableStmts.find? (·.1 = stmt) with
  | none => (.error (.noOutput stmt), ctx)
  | some (_, sql, row) =>
    match ctx.env.columnIndexCache.lookup (stmt, name) with
    | some column => (firstRowValue row column, ctx)
    | none =>
      match ctx.conn.prepareCached X sql with
      | .error _ => (.error .rePreparation, ctx)
      | .ok h =>
        match h.columns.findIdx? (fun col => col.1.toLower = name.toLower) with
        | none => (.error (.invalidColumnName name), { ctx with conn := ctx.conn.putBack h })
        | some column =>
          (firstRowValue row column, ⟨ctx.conn.putBack h,
            { ctx.env with columnIndexCache := ((stmt, name), column) :: ctx.env.columnIndexCache }⟩)

def intoSqlTxnCtx (ctx : TransactionParamContext A M L E) :
    Param → Except Message Value × TransactionParamContext A M L E
  | .value v => (.ok v, ctx)
  | .stmtOutputIndexed stmt column =>
    match ctx.env.observableStmts.find? (·.1 = stmt) with
    | none => (.error (.noOutput stmt), ctx)
    | some (_, _, row) => (firstRowValue row column, ctx)
  | .stmtOutputNamed stmt name => lookupStatementOutputNamed X ctx stmt name

/-- Bind the parameters of a query in a transaction. -/
def bindTxn (st : Stmt S) (sql : String) : ℕ → List Param → TransactionParamContext A M L E →
    Result (List Value) × TransactionParamContext A M L E
  | _, [], ctx => (.ok [], ctx)
  | idx, p :: ps, ctx =>
    match intoSqlTxnCtx X ctx p with
    | (.error m, ctx) => (.error (.queryParams m), ctx)
    | (.ok v, ctx) =>
      match Conn.bindAt X st idx v with
      | some e => (.error (.queryParams (.binding idx sql e)), ctx)
      | none =>
        let (r, ctx) := bindTxn st sql (idx + 1) ps ctx
        (r.map (v :: ·), ctx)

/-- The rows of a query with `count` columns, by its text and index. Others may refer to the first
row. -/
def observe (i : ℕ) (sql : String) (count : ℕ) (env : TransactionEnv) :
    Out → TransactionEnv × Result ℕ
  | ⟨[], none⟩ => (env, .ok 0)
  | ⟨[], some e⟩ => (env, .error (.transaction (.converted e)))
  | ⟨row :: rows, err⟩ =>
    if row.length < count then (env, .error (.queryParams (.readColumn row.length)))
    else
      match err with
      | some e => (env, .error (.transaction (.converted e)))
      | none =>
        ({ env with observableStmts := env.observableStmts ++ [(i, sql, row.take count)] },
          .ok (rows.length + 1))

/-- One query of a transaction, with its index. -/
def transactionQuery (ctx : TransactionParamContext A M L E) (i : ℕ) (q : Query) :
    TransactionParamContext A M L E × Result ℕ :=
  match ctx.conn.prepareCached X q.sql with
  | .error e => (ctx, .error (.prepareStatement (.preparing q.sql e)))
  | .ok h =>
    match bindTxn X h.stmt q.sql 1 q.params { ctx with conn := ctx.conn.takeOut h } with
    | (.error e, ctx) => ({ ctx with conn := ctx.conn.putBack h }, .error e)
    | (.ok ps, ctx) =>
      if h.columns.isEmpty then
        let (c, r) := ctx.conn.rawExecuteCached X h ps
        ({ ctx with conn := c }, r.mapError fun e => .transaction (.converted e))
      else
        let (c, out) := ctx.conn.stepCached X h ps
        let (env, r) := observe i q.sql h.columns.length ctx.env out
        (⟨c, env⟩, r)

def transactionLoop (ctx : TransactionParamContext A M L E) (i : ℕ) :
    List Query → TransactionParamContext A M L E × Result (List ℕ)
  | [] => (ctx, .ok [])
  | q :: qs =>
    match transactionQuery X ctx i q with
    | (ctx, .error e) => (ctx, .error e)
    | (ctx, .ok n) =>
      let (ctx, r) := transactionLoop ctx (i + 1) qs
      (ctx, r.map (n :: ·))

def transaction (c : Conn A M L E) (queries : List Query) : Conn A M L E × Result (List ℕ) :=
  match c.exec X .begin [] with
  | (c, ⟨_, some e⟩) => (c, .error (.transaction (.of e)))
  | (c, ⟨_, none⟩) =>
    match transactionLoop X ⟨c, ⟨[], []⟩⟩ 0 queries with
    | (ctx, .error e) => ((ctx.conn.exec X .rollback []).1.finish X, .error e)
    | (ctx, .ok results) =>
      match ctx.conn.exec X .commit [] with
      | (c, ⟨_, some e⟩) => (c.finish X, .error (.transaction (.of e)))
      | (c, ⟨_, none⟩) => (c.finish X, .ok results)

/-- The loop of `Query::Batch`. Errors of statements are collected. -/
def batchLoop (c : Conn A M L E) : List String → Conn A M L E × Result (List (Result ℕ))
  | [] => (c, .ok [])
  | text :: texts =>
    match c.prepare X text with
    | .error e => (c, .error (.sqlite (.of e)))
    | .ok st =>
      let (c, r) := c.executeStmt X st []
      let (c, rs) := batchLoop c texts
      (c, rs.map (r.mapError Error.ofSql :: ·))

def batch (c : Conn A M L E) (sql : String) : Conn A M L E × Result (List (Result ℕ)) :=
  batchLoop X c (X.split sql)

/-- `WriterRequest::Query`. There is no answer if the writer panics. -/
def handleQuery (c : Conn A M L E) : QueryWrite → Option (Conn A M L E × Reply M)
  | .execute q => (execute X c q).map fun (c, r) => (c, .execute r)
  | .executeReturning q => (executeReturning X rowOwned c q).map fun (c, r) => (c, .executeReturning r)
  | .transaction queries =>
    let (c, r) := transaction X c queries
    some (c, .transaction r)
  | .batch sql =>
    let (c, r) := batch X c sql
    some (c, .batch r)

/-! ## Migrations -/

/-- `AppliedMigration`, without the time. -/
structure AppliedMigration where
  id : UInt32
  name : String
  hash : String

def asU32 : Value → Option UInt32
  | .integer i => if 0 ≤ i ∧ i < 2 ^ 32 then some (UInt32.ofNat i.toNat) else none
  | _ => none

def AppliedMigration.ofRow : List Value → Option AppliedMigration
  | [id, .text name, .integer _, .text hash] => (asU32 id).map fun id => ⟨id, name, hash⟩
  | _ => none

/-- The loop of `last_applied_migration` panics unless the applied migrations are those that are
given. -/
def checkApplied (migrations : List Migration) (offset : UInt64) :
    UInt32 → List AppliedMigration → Option UInt32
  | last, [] => some last
  | last, applied :: rest =>
    if last + 1 ≠ applied.id then none
    else
      match migrations[(applied.id.toUInt64 - 1 - offset).toNat]? with
      | none => none
      | some m =>
        if applied.id ≠ m.id ∨ applied.name ≠ m.name ∨ applied.hash ≠ m.hash then none
        else checkApplied migrations offset applied.id rest

/-- How many migrations below `id` are applied. It is not asked for the first one. -/
def countApplied (c : Conn A M L E) (id : UInt32) : Conn A M L E × Except SqlError UInt32 :=
  if id > 1 then
    match c.query X .countMigrations [.integer id.toNat] with
    | (c, .error e) => (c, .error e)
    | (c, .ok ⟨row :: _, _⟩) =>
      match row.head?.bind asU32 with
      | some n => (c, .ok n)
      | none => (c, .error (.fault (.other "count")))
    | (c, .ok ⟨[], some e⟩) => (c, .error e)
    | (c, .ok ⟨[], none⟩) => (c, .error .queryReturnedNoRows)
  else (c, .ok (id - 1))

/-- `last_applied_migration`. A row that cannot be read panics. -/
def lastAppliedMigration (c : Conn A M L E) (migrations : List Migration) :
    Option (Conn A M L E × Result UInt32) :=
  match migrations with
  | [] => some (c, .error (.error .emptyMigrations))
  | first :: _ =>
    match countApplied X c first.id with
    | (c, .error e) => some (c, .error (.ofSql e))
    | (c, .ok count) =>
      if count < first.id - 1 then none
      else
        match c.query X .listMigrations [.integer first.id.toNat] with
        | (c, .error e) => some (c, .error (.ofSql e))
        | (_, .ok ⟨_, some _⟩) => none
        | (c, .ok ⟨rows, none⟩) => do
          let applied ← rows.mapM AppliedMigration.ofRow
          let last ← checkApplied migrations (first.id - 1).toUInt64 (first.id - 1) applied
          some (c, .ok last)

def migrationStatements (c : Conn A M L E) : List String → Conn A M L E × Except SqlError Unit
  | [] => (c, .ok ())
  | text :: texts =>
    match c.prepare X text with
    | .error e => (c, .error e)
    | .ok st =>
      match c.executeStmt X st [] with
      | (c, .error e) => (c, .error e)
      | (c, .ok _) => migrationStatements c texts

/-- `apply_migration` in a transaction that is open. -/
def applyMigration (c : Conn A M L E) (m : Migration) (ts : ℕ) :
    Conn A M L E × Except SqlError Unit :=
  match migrationStatements X c (X.split m.content) with
  | (c, .error e) => (c.finish X, .error e)
  | (c, .ok _) =>
    match c.execute X .insertMigration
      [.integer m.id.toNat, .text m.name, .integer ts, .text m.hash] with
    | (c, .error e) => (c.finish X, .error e)
    | (c, .ok _) =>
      match c.exec X .commit [] with
      | (c, ⟨_, some e⟩) => (c.finish X, .error e)
      | (c, ⟨_, none⟩) => (c.finish X, .ok ())

/-- The loop of `migrate`. A gap panics. -/
def migrateLoop (ts : ℕ) (c : Conn A M L E) (last : UInt32) :
    List Migration → Option (Conn A M L E × Result Unit)
  | [] => some (c, .ok ())
  | m :: ms =>
    if m.id ≠ last + 1 then none
    else
      match c.exec X .begin [] with
      | (c, ⟨_, some e⟩) => some (c, .error (.ofSql e))
      | (c, ⟨_, none⟩) =>
        match applyMigration X c m ts with
        | (c, .error e) => some (c, .error (.ofSql e))
        | (c, .ok _) => migrateLoop ts c m.id ms

def migrate (c : Conn A M L E) (migrations : List Migration) (lastAppliedLogId : Option LogId) :
    Option (Conn A M L E × Result Unit) :=
  match c.execute X .createMigrations [] with
  | (c, .error e) => some (c, .error (.ofSql e))
  | (c, .ok _) =>
    match lastAppliedMigration X c migrations with
    | none => none
    | some (c, .error e) => some (c, .error e)
    | some (c, .ok last) =>
      migrateLoop X ((lastAppliedLogId.map LogId.index).getD 0) c last
        (migrations.filter fun m => m.id > last)

/-! ## Snapshots and backups -/

def Conn.persistMetadata (c : Conn A M L E) (m : StateMachineData M) : Conn A M L E :=
  c.setDb { c.db with metadata := some m }

/-- `PRAGMA optimize`, whose errors are only logged. -/
def Conn.optimize (c : Conn A M L E) : Conn A M L E := (c.execute X .optimize []).1

/-- `VACUUM INTO` a file that is then moved into place. -/
def vacuumInto (c : Conn A M L E) (placed : Bool) : Conn A M L E × Result (Db A M) :=
  match c.exec X .vacuum [] with
  | (c, ⟨_, some e⟩) => (c, .error (.sqlite (.of e)))
  | (c, ⟨_, none⟩) => (c, if placed then .ok c.file else .error (.error .rename))

structure Writer (A M L E : Type) where
  conn : Conn A M L E
  smData : StateMachineData M
  tsLastBackup : Option ℕ

def snapshot (w : Writer A M L E) (id : ℕ) (placed : Bool) :
    Writer A M L E × Result (StateMachineData M) :=
  let smData := { w.smData with lastSnapshotId := some id }
  match vacuumInto X (w.conn.persistMetadata smData) placed with
  | (c, .error e) => ({ w with conn := c, smData }, .error e)
  | (c, .ok _) => ({ w with conn := c.optimize X, smData }, .ok smData)

/-- `WriterRequest::Backup`, in seconds. -/
def backup (w : Writer A M L E) (now : ℕ) (placed : Bool) (lastAppliedLogId : Option LogId) :
    Writer A M L E × Result Unit :=
  let w := { w with smData := { w.smData with lastAppliedLogId } }
  if w.tsLastBackup.any (fun ts => now < ts + 60) then (w, .ok ())
  else
    let c := (w.conn.exec X .vacuum []).1
    match vacuumInto X c placed with
    | (c, .error e) => ({ w with conn := c }, .error e)
    | (c, .ok _) => ({ w with conn := c.optimize X, tsLastBackup := some now }, .ok ())

/-- Answer a request. There is no answer if the writer panics. -/
def handle (w : Writer A M L E) : Request → Option (Writer A M L E × Reply M)
  | .query q lastAppliedLogId =>
    (handleQuery X rowOwned w.conn q).map fun (c, reply) =>
      ({ w with conn := c, smData := { w.smData with lastAppliedLogId } }, reply)
  | .migrate migrations lastAppliedLogId =>
    (migrate X w.conn migrations lastAppliedLogId).map fun (c, r) =>
      ({ w with conn := c.optimize X, smData := { w.smData with lastAppliedLogId } }, .migrate r)
  | .snapshot id placed =>
    let (w, r) := snapshot X w id placed
    some (w, .snapshot r)
  | .backup now placed lastAppliedLogId =>
    let (w, r) := backup X w now placed lastAppliedLogId
    some (w, .backup r)

structure Turn (A M L E : Type) where
  before : Writer A M L E
  request : Request
  reply : Reply M
  after : Writer A M L E

/-- The requests in turn, until the writer panics. -/
def history (w : Writer A M L E) : List Request → List (Turn A M L E)
  | [] => []
  | r :: rs =>
    match handle X rowOwned w r with
    | none => []
    | some (w', reply) => ⟨w, r, reply, w'⟩ :: history w' rs

/-! ## Requests that end what they begin -/

/-- `Statement::execute` without parameters gets to the statement. -/
def Conn.runs (c : Conn A M L E) (st : Stmt S) : Bool :=
  st.paramCount X = 0 && !(!(c.columns X st).isEmpty && st.readonly X)

/-- The statements that a batch runs, and the connection before each of them. -/
def batchTrace (c : Conn A M L E) : List String → List (Conn A M L E × Stmt S)
  | [] => []
  | text :: texts =>
    match c.prepare X text with
    | .error _ => []
    | .ok st =>
      if c.runs X st then (c, st) :: batchTrace (c.executeStmt X st []).1 texts
      else batchTrace (c.executeStmt X st []).1 texts

/-- What opens a transaction is followed by what ends one. -/
def Balanced (trace : List (Conn A M L E × Stmt S)) : Prop :=
  ∀ l1 c st l2, trace = l1 ++ (c, st) :: l2 → c.Opens X st → ∃ x ∈ l2, x.1.Ends X x.2 []

/-- What `Execute` and `ExecuteReturning` have to run. -/
def Runs (c : Conn A M L E) (q : Query) (st : Stmt S) (ps : List Value) : Prop :=
  ∃ h, c.prepareCached X q.sql = .ok h ∧ h.stmt = st ∧ bindParams X st 1 q.params = some (.ok ps)

/-- A request ends the transactions that it opens. -/
def Request.Closes (c : Conn A M L E) : Request → Prop
  | .query (.execute q) _ | .query (.executeReturning q) _ =>
    ∀ st ps, Runs X c q st ps → ¬ c.Opens X st
  | .query (.batch sql) _ => Balanced X (batchTrace X c (X.split sql))
  | _ => True

variable {X} {rowOwned} {c c' : Conn A M L E} {w w' : Writer A M L E}

variable {st : Stmt S} {q : Query} {ps : List Value} {r : Result Unit}
  {ctx : TransactionParamContext A M L E} {h : CachedStatement S}

theorem executeStmt_open_iff : (c.executeStmt X st []).1.txn.isSome ↔
    (c.runs X st = true ∧ c.Opens X st) ∨
      (c.txn.isSome ∧ ¬ (c.runs X st = true ∧ c.Ends X st [])) := by
  unfold Conn.executeStmt Conn.runs
  by_cases hc : st.paramCount X = 0
  · simp only [hc, length_nil, ne_eq, not_true_eq_false, if_false, Conn.bindAll, decide_true,
      Bool.true_and]
    rw [Conn.rawExecute_fst]
    split_ifs with hr
    · simp [hr]
    · simp only [hr, Bool.not_false, true_and]
      exact Conn.exec_open_iff
  · simp [hc]

/-- **A batch leaves a transaction open** iff one is open or gets opened and nothing after that ends
it. -/
theorem batchLoop_open_iff (texts : List String) : (batchLoop X c texts).1.txn.isSome ↔
    (c.txn.isSome ∧ ∀ x ∈ batchTrace X c texts, ¬ x.1.Ends X x.2 []) ∨
    ∃ l1 c' st l2, batchTrace X c texts = l1 ++ (c', st) :: l2 ∧ c'.Opens X st ∧
      ∀ x ∈ l2, ¬ x.1.Ends X x.2 [] := by
  induction texts generalizing c with
  | nil => simp [batchLoop, batchTrace]
  | cons text texts ih =>
    simp only [batchLoop, batchTrace]
    cases hp : c.prepare X text with
    | error e => simp
    | ok st =>
      simp only
      rw [ih, executeStmt_open_iff]
      by_cases hr : c.runs X st = true
      · simp only [hr, if_true, true_and, mem_cons, forall_eq_or_imp, cons_eq_append_iff]
        constructor
        · rintro (⟨ho | ⟨hc, he⟩, hno⟩ | ⟨l1, c', st', l2, ht, ho, hno⟩)
          · exact .inr ⟨[], c, st, _, by simp, ho, hno⟩
          · exact .inl ⟨hc, he, hno⟩
          · exact .inr ⟨(c, st) :: l1, c', st', l2, by simp [ht], ho, hno⟩
        · rintro (⟨hc, he, hno⟩ | ⟨l1, c', st', l2, ⟨rfl, ht⟩ | ⟨l, rfl, ht⟩, ho, hno⟩)
          · exact .inl ⟨.inr ⟨hc, he⟩, hno⟩
          · cases ht
            exact .inl ⟨.inl ho, hno⟩
          · exact .inr ⟨l, c', st', l2, ht, ho, hno⟩
      · simp [hr]

theorem not_runs_of_bindParams {e : SqlError} (hp : c.prepareCached X q.sql = .ok h)
    (hb : bindParams X h.stmt 1 q.params = some (.error e)) : ¬ Runs X c q st ps := by
  rintro ⟨h', hp', rfl, hb'⟩
  cases hp.symm.trans hp'
  cases hb.symm.trans hb'

theorem execute_fst {r : Result ℕ} (hx : execute X c q = some (c', r)) :
    (c'.txn = c.txn ∧ ∀ st ps, ¬ Runs X c q st ps) ∨
      ∃ h ps, c.prepareCached X q.sql = .ok h ∧ Runs X c q h.stmt ps ∧
        c' = (c.rawExecuteCached X h ps).1 := by
  unfold execute at hx
  split at hx
  · rename_i hp
    cases hx
    exact .inl ⟨rfl, fun st ps ⟨h, hp', _⟩ => by simp [hp] at hp'⟩
  · rename_i h hp
    split at hx
    · cases hx
    · rename_i hb
      cases hx
      exact .inl ⟨rfl, fun _ _ => not_runs_of_bindParams hp hb⟩
    · rename_i ps hb
      cases hx
      exact .inr ⟨h, ps, hp, ⟨h, hp, rfl, hb⟩, rfl⟩

theorem executeReturning_fst {r : Result (List (Result Row))}
    (hx : executeReturning X rowOwned c q = some (c', r)) :
    (c'.txn = c.txn ∧ ∀ st ps, ¬ Runs X c q st ps) ∨
      ∃ h ps, c.prepareCached X q.sql = .ok h ∧ Runs X c q h.stmt ps ∧
        c' = (c.stepCached X h ps).1 := by
  unfold executeReturning at hx
  split at hx
  · rename_i hp
    cases hx
    exact .inl ⟨rfl, fun st ps ⟨h, hp', _⟩ => by simp [hp] at hp'⟩
  · rename_i h hp
    split at hx
    · cases hx
    · rename_i hb
      cases hx
      exact .inl ⟨rfl, fun _ _ => not_runs_of_bindParams hp hb⟩
    · rename_i ps hb
      obtain ⟨rows, -, hx⟩ := bind_eq_some_iff.mp hx
      cases hx
      exact .inr ⟨h, ps, hp, ⟨h, hp, rfl, hb⟩, rfl⟩

theorem exec_open_iff_opens (hc : c.txn = none) : (c.exec X st ps).1.txn.isSome ↔ c.Opens X st := by
  rw [Conn.exec_open_iff, hc]
  simp

theorem stepCached_open_iff (hc : c.txn = none) :
    (c.stepCached X h ps).1.txn.isSome ↔ c.Opens X h.stmt := by
  unfold Conn.stepCached
  split
  · rename_i f hf
    refine iff_of_false (by simp [Conn.failed, hc]) fun ho => ?_
    have hb := ho.2.1
    cases hst : h.stmt <;> rw [hst] at hf hb <;> first | cases hf | cases hb
  · exact exec_open_iff_opens hc

theorem rawExecuteCached_open_iff (hc : c.txn = none) (hp : c.prepareCached X q.sql = .ok h) :
    (c.rawExecuteCached X h ps).1.txn.isSome ↔ c.Opens X h.stmt := by
  unfold Conn.rawExecuteCached
  split_ifs with hr
  · refine iff_of_false (by simp [hc]) fun ho => ?_
    simp [Conn.prepareCached_columns hp ho.2.1] at hr
  · rw [Conn.affected_fst]
    exact stepCached_open_iff hc

theorem closes_of_runs (hc : c.txn = none) (h : (c'.txn = c.txn ∧ ∀ st ps, ¬ Runs X c q st ps) ∨
      ∃ st ps, Runs X c q st ps ∧ (c'.txn.isSome ↔ c.Opens X st)) :
    c'.txn = none ↔ ∀ st ps, Runs X c q st ps → ¬ c.Opens X st := by
  rcases h with ⟨heq, hno⟩ | ⟨st, ps, hr, ho⟩
  · exact iff_of_true (heq.trans hc) fun st ps hr => absurd hr (hno st ps)
  · rw [← not_isSome_iff_eq_none, ho]
    refine ⟨fun h st' ps' hr' => ?_, fun h => h st ps hr⟩
    obtain ⟨h1, hp, rfl, -⟩ := hr
    obtain ⟨h2, hp', rfl, -⟩ := hr'
    cases hp.symm.trans hp'
    exact h

theorem batch_closes (hc : c.txn = none) (texts : List String) :
    (batchLoop X c texts).1.txn = none ↔ Balanced X (batchTrace X c texts) := by
  rw [← not_isSome_iff_eq_none, batchLoop_open_iff, hc]
  simp only [isSome_none, Bool.false_eq_true, false_and, false_or, not_exists, not_and,
    not_forall, not_not]
  refine forall₄_congr fun l1 c' st l2 => forall₂_congr fun ht ho => ?_
  exact ⟨fun ⟨x, hx, he⟩ => ⟨x, hx, he⟩, fun ⟨x, hx, he⟩ => ⟨x, hx, he⟩⟩

theorem map_eq_error_iff {α β ε : Type} {f : α → β} {x : Except ε α} {e : ε} :
    x.map f = .error e ↔ x = .error e := by
  cases x <;> simp [Except.map]

theorem bindTxn_error {sql : String} {ps : List Param} {idx : ℕ} {e : Error}
    (h : (bindTxn X st sql idx ps ctx).1 = .error e) : ∃ m, e = .queryParams m := by
  induction ps generalizing idx ctx e with
  | nil => simp [bindTxn] at h
  | cons p ps ih =>
    unfold bindTxn at h
    split at h
    · cases h
      exact ⟨_, rfl⟩
    · split at h
      · cases h
        exact ⟨_, rfl⟩
      · exact ih (map_eq_error_iff.mp h)

theorem transactionQuery_ne {i : ℕ} (e : SqlError) :
    (transactionQuery X ctx i q).2 ≠ .error (.transaction (.of e)) := by
  unfold transactionQuery
  split
  · simp
  · rename_i h _
    split
    · rename_i e' ctx' hb
      obtain ⟨m, rfl⟩ := bindTxn_error (congrArg Prod.fst hb)
      simp
    · rename_i ps ctx' _
      split_ifs
      · rcases ctx'.conn.rawExecuteCached X h ps with ⟨c', _ | n⟩ <;> simp [Except.mapError]
      · dsimp only
        unfold observe
        split
        · simp
        · simp
        · split_ifs
          · simp
          · split <;> simp

theorem transactionLoop_ne {i : ℕ} {queries : List Query} (e : SqlError) :
    (transactionLoop X ctx i queries).2 ≠ .error (.transaction (.of e)) := by
  induction queries generalizing ctx i with
  | nil => simp [transactionLoop]
  | cons q qs ih =>
    unfold transactionLoop
    split
    · rename_i hq
      have hne : (transactionQuery X ctx i q).2 ≠ .error (.transaction (.of e)) :=
        transactionQuery_ne e
      rw [hq] at hne
      simpa using hne
    · exact mt map_eq_error_iff.mp ih

theorem exec_commit_ne : (c.exec X .commit ps).2.err ≠ some .withinTransaction := by
  unfold Conn.exec
  split
  · simp [Conn.execIdle, Conn.failed]
  · simp only [Conn.execIn, Conn.guarded]
    split <;> simp

theorem transaction_closes (hc : c.txn = none) (queries : List Query) :
    (transaction X c queries).1.txn = none ∧
      (transaction X c queries).2 ≠ .error (.transaction (.of .withinTransaction)) := by
  unfold transaction
  rcases Conn.exec_begin (X := X) (c := c) hc with ⟨f, hb⟩ | hb <;> rw [hb]
  · exact ⟨hc, by simp⟩
  · simp only
    split
    · rename_i c1 e hl
      refine ⟨Conn.finish_txn, ?_⟩
      rw [← congrArg Prod.snd hl]
      exact transactionLoop_ne _
    · rename_i c1 results hl
      split
      · rename_i e hx
        refine ⟨Conn.finish_txn, ?_⟩
        have hne : (c1.conn.exec X .commit []).2.err ≠ some .withinTransaction := exec_commit_ne
        rw [hx] at hne
        simpa using hne
      · exact ⟨Conn.finish_txn, by simp⟩

/-! ## The other requests -/

theorem countApplied_txn_eq_none (hc : c.txn = none) (id : UInt32) :
    (countApplied X c id).1.txn = none := by
  have h : (c.query X .countMigrations [.integer id.toNat]).1.txn = none :=
    Conn.query_txn_eq_none hc _ _
  unfold countApplied
  split
  · split <;> rename_i hq <;> rw [hq] at h
    · exact h
    · split <;> exact h
    · exact h
    · exact h
  · exact hc

theorem lastAppliedMigration_txn_eq_none {migrations : List Migration}
    {r : Result UInt32} (hc : c.txn = none)
    (h : lastAppliedMigration X c migrations = some (c', r)) : c'.txn = none := by
  unfold lastAppliedMigration at h
  split at h
  · cases h
    exact hc
  · rename_i first rest
    have hcount : (countApplied X c first.id).1.txn = none := countApplied_txn_eq_none hc _
    split at h <;> rename_i hx <;> rw [hx] at hcount
    · cases h
      exact hcount
    · split at h
      · cases h
      · have hlist := Conn.query_txn_eq_none (X := X) hcount .listMigrations
          [.integer first.id.toNat]
        split at h <;> rename_i hq <;> rw [hq] at hlist
        · cases h
          exact hlist
        · cases h
        · obtain ⟨_, -, h⟩ := bind_eq_some_iff.mp h
          obtain ⟨_, -, h⟩ := bind_eq_some_iff.mp h
          cases h
          exact hlist

theorem applyMigration_txn {m : Migration} {ts : ℕ} {r : Except SqlError Unit}
    (h : applyMigration X c m ts = (c', r)) : c'.txn = none := by
  unfold applyMigration at h
  split at h
  · cases h
    exact Conn.finish_txn
  · split at h
    · cases h
      exact Conn.finish_txn
    · split at h <;> cases h <;> exact Conn.finish_txn

section

variable (hc : c.txn = none)
include hc

theorem migrateLoop_txn_eq_none {ts : ℕ} {last : UInt32} {ms : List Migration}
    (h : migrateLoop X ts c last ms = some (c', r)) : c'.txn = none := by
  induction ms generalizing c last with
  | nil =>
    cases h
    exact hc
  | cons m ms ih =>
    unfold migrateLoop at h
    split at h
    · cases h
    · rcases Conn.exec_begin (X := X) (c := c) hc with ⟨f, hb⟩ | hb <;> rw [hb] at h
      · cases h
        exact hc
      · simp only at h
        split at h <;> rename_i ha
        · cases h
          exact applyMigration_txn ha
        · exact ih (applyMigration_txn ha) h

theorem migrate_txn_eq_none {migrations : List Migration} {id : Option LogId}
    (h : migrate X c migrations id = some (c', r)) : c'.txn = none := by
  have hcreate : (c.execute X .createMigrations []).1.txn = none := Conn.execute_txn_eq_none hc _
  unfold migrate at h
  split at h <;> rename_i hx <;> rw [hx] at hcreate
  · cases h
    exact hcreate
  · split at h
    · cases h
    · rename_i hl
      cases h
      exact lastAppliedMigration_txn_eq_none hcreate hl
    · rename_i hl
      exact migrateLoop_txn_eq_none (lastAppliedMigration_txn_eq_none hcreate hl) h

theorem optimize_txn_eq_none : (c.optimize X).txn = none :=
  Conn.execute_txn_eq_none hc _

theorem persistMetadata_txn_eq_none (m : StateMachineData M) :
    (c.persistMetadata m).txn = none := by
  rw [← not_isSome_iff_eq_none, Conn.persistMetadata, Conn.setDb_txn_isSome, hc]
  simp

theorem vacuumInto_closes (placed : Bool) : (vacuumInto X c placed).1.txn = none ∧
      (vacuumInto X c placed).2 ≠ .error (.sqlite (.of .vacuumInTransaction)) := by
  obtain ⟨h1, h2⟩ := Conn.exec_vacuum (X := X) hc []
  unfold vacuumInto
  split <;> rename_i hx <;> rw [hx] at h1 h2
  · exact ⟨h1 ▸ hc, by simpa using h2⟩
  · refine ⟨h1 ▸ hc, ?_⟩
    cases placed <;> simp

end

theorem snapshot_closes (hc : w.conn.txn = none) (id : ℕ) (placed : Bool) :
    (snapshot X w id placed).1.conn.txn = none ∧
      (snapshot X w id placed).2 ≠ .error (.sqlite (.of .vacuumInTransaction)) := by
  have hp := persistMetadata_txn_eq_none hc { w.smData with lastSnapshotId := some id }
  obtain ⟨h1, h2⟩ := vacuumInto_closes (X := X) hp placed
  unfold snapshot
  simp only
  split <;> rename_i hx <;> rw [hx] at h1 h2
  · exact ⟨h1, by simpa using h2⟩
  · exact ⟨optimize_txn_eq_none h1, by simp⟩

theorem backup_closes (hc : w.conn.txn = none) (now : ℕ) (placed : Bool) (id : Option LogId) :
    (backup X w now placed id).1.conn.txn = none ∧
      (backup X w now placed id).2 ≠ .error (.sqlite (.of .vacuumInTransaction)) := by
  unfold backup
  simp only
  split_ifs
  · exact ⟨hc, by simp⟩
  · have hv : (w.conn.exec X .vacuum []).1.txn = none := Conn.exec_txn_eq_none hc rfl
    obtain ⟨h1, h2⟩ := vacuumInto_closes (X := X) hv placed
    split <;> rename_i hx <;> rw [hx] at h1 h2
    · exact ⟨h1, by simpa using h2⟩
    · exact ⟨optimize_txn_eq_none h1, by simp⟩

/-! ## The mode of the connection -/

theorem rejected_transaction {r : Result (List ℕ)}
    (h : r ≠ .error (.transaction (.of .withinTransaction))) :
    (Reply.transaction r : Reply M).rejected = false := by
  cases r with
  | ok _ => rfl
  | error e => simpa [Reply.rejected] using h

theorem rejected_snapshot {r : Result (StateMachineData M)}
    (h : r ≠ .error (.sqlite (.of .vacuumInTransaction))) :
    (Reply.snapshot r).rejected = false := by
  cases r with
  | ok _ => rfl
  | error e => simpa [Reply.rejected] using h

theorem rejected_backup (h : r ≠ .error (.sqlite (.of .vacuumInTransaction))) :
    (Reply.backup r : Reply M).rejected = false := by
  cases r with
  | ok _ => rfl
  | error e => simpa [Reply.rejected] using h

/-- **One request.** In autocommit mode nothing is rejected, and the mode stays iff the request ends
what it opens. -/
theorem handle_closes {r : Request} {reply : Reply M} (hc : w.conn.txn = none)
    (h : handle X rowOwned w r = some (w', reply)) :
    reply.rejected = false ∧ (w'.conn.txn = none ↔ r.Closes X w.conn) := by
  cases r with
  | query q id =>
    obtain ⟨⟨c, reply⟩, hq, h⟩ := map_eq_some_iff.mp h
    cases h
    cases q with
    | execute q =>
      obtain ⟨⟨c', r⟩, he, hq⟩ := map_eq_some_iff.mp hq
      cases hq
      refine ⟨rfl, closes_of_runs hc ((execute_fst he).imp_right ?_)⟩
      rintro ⟨x, ps, hp, hr, rfl⟩
      exact ⟨x.stmt, ps, hr, rawExecuteCached_open_iff hc hp⟩
    | executeReturning q =>
      obtain ⟨⟨c', r⟩, he, hq⟩ := map_eq_some_iff.mp hq
      cases hq
      refine ⟨rfl, closes_of_runs hc ((executeReturning_fst he).imp_right ?_)⟩
      rintro ⟨x, ps, -, hr, rfl⟩
      exact ⟨x.stmt, ps, hr, stepCached_open_iff hc⟩
    | transaction queries =>
      simp only [handleQuery, some.injEq, Prod.mk.injEq] at hq
      obtain ⟨rfl, rfl⟩ := hq
      obtain ⟨h1, h2⟩ := transaction_closes (X := X) hc queries
      exact ⟨rejected_transaction h2, iff_of_true h1 trivial⟩
    | batch sql =>
      cases hq
      exact ⟨rfl, batch_closes hc _⟩
  | migrate migrations id =>
    obtain ⟨⟨c', r⟩, hm, h⟩ := map_eq_some_iff.mp h
    cases h
    exact ⟨rfl, iff_of_true (optimize_txn_eq_none (migrate_txn_eq_none hc hm)) trivial⟩
  | snapshot id placed =>
    simp only [handle, some.injEq, Prod.mk.injEq] at h
    obtain ⟨rfl, rfl⟩ := h
    obtain ⟨h1, h2⟩ := snapshot_closes (X := X) hc id placed
    exact ⟨rejected_snapshot h2, iff_of_true h1 trivial⟩
  | backup now placed id =>
    simp only [handle, some.injEq, Prod.mk.injEq] at h
    obtain ⟨rfl, rfl⟩ := h
    obtain ⟨h1, h2⟩ := backup_closes (X := X) hc now placed id
    exact ⟨rejected_backup h2, iff_of_true h1 trivial⟩

theorem txn_before {rs : List Request} (hw : w.conn.txn = none)
    (h : ∀ t ∈ history X rowOwned w rs, t.after.conn.txn = none) :
    ∀ t ∈ history X rowOwned w rs, t.before.conn.txn = none ∧
      handle X rowOwned t.before t.request = some (t.after, t.reply) := by
  induction rs generalizing w with
  | nil => simp [history]
  | cons r rs ih =>
    unfold history at h ⊢
    cases hr : handle X rowOwned w r with
    | none => simp
    | some p =>
      obtain ⟨w', reply⟩ := p
      simp only [hr, mem_cons, forall_eq_or_imp] at h ⊢
      exact ⟨⟨hw, trivial⟩, ih h.1 h.2⟩

theorem txn_after {rs : List Request} (hw : w.conn.txn = none)
    (h : ∀ t ∈ history X rowOwned w rs, t.request.Closes X t.before.conn) :
    ∀ t ∈ history X rowOwned w rs, t.after.conn.txn = none := by
  induction rs generalizing w with
  | nil => simp [history]
  | cons r rs ih =>
    unfold history at h ⊢
    cases hr : handle X rowOwned w r with
    | none => simp
    | some p =>
      obtain ⟨w', reply⟩ := p
      simp only [hr, mem_cons, forall_eq_or_imp] at h ⊢
      have hw' := (handle_closes hw hr).2.mpr h.1
      exact ⟨hw', ih hw' h.2⟩

/-- **No transaction stays open**, all that was acknowledged is visible and nothing is rejected iff
every request ends the transactions that it opens. -/
theorem autocommit_iff_closes (X : Engine A L E S)
    (rowOwned : Columns → List Value → Option Row) (w : Writer A M L E)
    (hw : w.conn.autocommit = true) (rs : List Request) :
    (∀ t ∈ history X rowOwned w rs, t.after.conn.autocommit = true ∧
      (t.reply.isOk = true → t.after.conn.file = t.after.conn.db) ∧ t.reply.rejected = false) ↔
    ∀ t ∈ history X rowOwned w rs, t.request.Closes X t.before.conn := by
  rw [Conn.autocommit_iff] at hw
  constructor
  · intro h t ht
    have hafter : ∀ t ∈ history X rowOwned w rs, t.after.conn.txn = none :=
      fun t ht => Conn.autocommit_iff.mp (h t ht).1
    obtain ⟨hbefore, hh⟩ := txn_before hw hafter t ht
    exact (handle_closes hbefore hh).2.mp (hafter t ht)
  · intro h t ht
    have hafter := txn_after hw h
    obtain ⟨hbefore, hh⟩ := txn_before hw hafter t ht
    refine ⟨Conn.autocommit_iff.mpr (hafter t ht), fun _ => ?_, (handle_closes hbefore hh).1⟩
    exact (Conn.db_of_autocommit (hafter t ht)).symm

/-! ## A small database -/

inductive TinyStmt
  | insert (n : ℕ)
  /-- `INSERT INTO t VALUES (CURRENT_TIMESTAMP)` -/
  | insertNow
  | noop
  deriving DecidableEq

def pieces : List Char → List (List Char)
  | [] => [[]]
  | ch :: cs =>
    if ch = ';' then [] :: pieces cs
    else
      match pieces cs with
      | [] => [[ch]]
      | p :: ps => (ch :: p) :: ps

/-- A database with one table of numbers. -/
def tiny : Engine (List ℕ) ℕ ℕ TinyStmt where
  empty := []
  fresh := 0
  trim := id
  split sql := (pieces sql.toList).map String.ofList
  parse text :=
    if text = "BEGIN" then .ok .begin
    else if text = "COMMIT" then .ok .commit
    else if text = "INSERT INTO t VALUES (7)" then .ok (.plain (.insert 7))
    else if text = "INSERT INTO t VALUES (CURRENT_TIMESTAMP)" then .ok (.plain .insertNow)
    else .error (.other "syntax error")
  check _ _ _ := none
  own _ _ _ := .ok .noop
  paramCount _ := 0
  bind _ _ _ := some (.other "bind or column index out of range")
  columns _ _ _ := []
  readonly _ := false
  calls _ _
    | .insertNow => ["current_timestamp"]
    | _ => []
  run now _ app loc
    | .insert n, _ => ⟨app ++ [n], 1, [], none, false⟩
    | .insertNow, _ => ⟨app ++ [now], 1, [], none, false⟩
    | .noop, _ => ⟨app, loc, [], none, false⟩
  refuse _ _ := none
  changes := id
  undo _ loc := loc

def newWriter : Writer (List ℕ) ℕ ℕ ℕ := ⟨⟨⟨[], none⟩, 0, none, fun _ => 0, ⟨1024, []⟩⟩, default, none⟩

def closingRequests : List Request :=
  [.query (.batch "BEGIN;INSERT INTO t VALUES (7);COMMIT") none,
    .query (.transaction [⟨"INSERT INTO t VALUES (7)", []⟩, ⟨"SELEC", []⟩]) none,
    .query (.execute ⟨"INSERT INTO t VALUES (7)", []⟩) none, .snapshot 1 true]

theorem autocommit_iff_closes_tiny : newWriter.conn.autocommit = true ∧
      ∀ t ∈ history tiny (fun _ _ => none) newWriter closingRequests,
        t.request.Closes tiny t.before.conn :=
  ⟨rfl, (autocommit_iff_closes tiny (fun _ _ => none) newWriter rfl closingRequests).mp
    (by decide +kernel)⟩

/-- A batch that begins a transaction and fails, and what comes after it. -/
def leftOpenRequests : List Request :=
  [.query (.batch "BEGIN;SELEC") none, .query (.execute ⟨"INSERT INTO t VALUES (7)", []⟩) none,
    .query (.transaction [⟨"INSERT INTO t VALUES (7)", []⟩]) none, .snapshot 1 true]

/-- After the batch every request finds the transaction open: an insert is acknowledged but not
committed, and a transaction and a snapshot are rejected. -/
theorem batch_leaves_transaction_open :
    (history tiny (fun _ _ => none) newWriter leftOpenRequests).map (fun t =>
      (t.after.conn.autocommit, t.reply.isOk, t.reply.rejected, t.after.conn.file.app,
        t.after.conn.db.app)) =
    [(false, false, false, [], []), (false, true, false, [], [7]), (false, false, true, [], [7]),
      (false, false, true, [], [7])] := by
  decide +kernel

end Hiqlite.Sqlite
