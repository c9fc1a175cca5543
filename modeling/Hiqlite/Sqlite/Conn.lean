import Hiqlite.Sqlite.Lifetime

/-!
# Q2 — a SQLite connection

SQLite is a parameter: what its statements do is left open, up to the documented rules for
transactions. The driver keeps statements, and a cached one shows the columns that it was last
compiled with.

* **`exec_open_iff`**: which statements open and end a transaction.
-/

namespace Hiqlite.Sqlite

open Option

/-- A value of SQLite. A real number is given by its bits. -/
inductive Value
  | null
  | integer (i : Int)
  | real (bits : UInt64)
  | text (s : String)
  | blob (b : List UInt8)
  deriving DecidableEq

inductive Fault
  | constraint (text : String)
  | other (text : String)
  deriving DecidableEq

inductive SqlError
  /-- cannot start a transaction within a transaction -/
  | withinTransaction
  /-- cannot commit, cannot rollback - no transaction is active -/
  | noTransaction
  | noSavepoint (name : String)
  /-- cannot VACUUM from within a transaction -/
  | vacuumInTransaction
  | forbidden (name : String)
  | executeReturnedResults
  | invalidParameterCount
  | queryReturnedNoRows
  | fault (f : Fault)
  deriving DecidableEq

/-- Statements by what they do to the transaction. -/
inductive Stmt (S : Type)
  | begin
  | commit
  | rollback
  | savepoint (name : String)
  | release (name : String)
  | rollbackTo (name : String)
  | vacuum
  | plain (s : S)
  deriving DecidableEq

inductive Own
  /-- `CREATE TABLE IF NOT EXISTS _migrations` -/
  | createMigrations
  /-- `SELECT COUNT(*) AS count FROM _migrations WHERE id < $1` -/
  | countMigrations
  /-- `SELECT * FROM _migrations WHERE id >= $1 ORDER BY id ASC` -/
  | listMigrations
  /-- `INSERT INTO _migrations (id, name, ts, hash) VALUES ($1, $2, $3, $4)` -/
  | insertMigration
  | optimize
  deriving DecidableEq

structure Ran (A L : Type) where
  app : A
  loc : L
  rows : List (List Value)
  err : Option Fault
  undo : Bool

/-- The names of the columns and their declared types. -/
abbrev Columns := List (String × Option String)

/-- SQLite on tables `A` with the connection-local state `L` and an outside `E`, such as the clock. A
statement `S` is a text that was parsed. -/
structure Engine (A L E S : Type) where
  empty : A
  fresh : L
  trim : String → String
  split : String → List String
  parse : String → Except Fault (Stmt S)
  /-- Why a statement cannot be compiled for the tables as they are. -/
  check : A → L → S → Option Fault
  own : A → L → Own → Except Fault S
  paramCount : S → ℕ
  bind : S → ℕ → Value → Option Fault
  columns : A → L → S → Columns
  readonly : S → Bool
  /-- The functions that a statement calls, also through defaults, views and triggers. -/
  calls : A → L → S → List String
  run : E → Bool → A → L → S → List Value → Ran A L
  refuse : A → Stmt S → Option Fault
  /-- `sqlite3_changes` -/
  changes : L → ℕ
  /-- The local state when a transaction that has begun with the first one is undone. -/
  undo : L → L → L

def forbiddenNonDetFns : List String :=
  ["date", "datetime", "julianday", "now", "random", "randomblob", "strftime", "time", "timediff",
    "unixepoch"]

structure Txn (A M L : Type) where
  db : Db A M
  begun : L
  savepoints : List (String × Db A M × L)
  /-- It was opened by `SAVEPOINT` and ends with it. -/
  bySavepoint : Bool

/-- The cached statements by their texts, the last one first, with the columns that they were last
compiled with. -/
structure StatementCache where
  capacity : ℕ
  stmts : List (String × Columns)

def StatementCache.remove (k : StatementCache) (sql : String) : StatementCache :=
  { k with stmts := k.stmts.filter (·.1 ≠ sql) }

def StatementCache.insert (k : StatementCache) (sql : String) (columns : Columns) : StatementCache :=
  { k with stmts := ((sql, columns) :: (k.remove sql).stmts).take k.capacity }

structure Conn (A M L E : Type) where
  file : Db A M
  loc : L
  txn : Option (Txn A M L)
  outside : ℕ → E
  cache : StatementCache

structure CachedStatement (S : Type) where
  sql : String
  stmt : Stmt S
  columns : Columns

structure Out where
  rows : List (List Value)
  err : Option SqlError

variable {A M L E S : Type}

def Engine.compiles (X : Engine A L E S) (a : A) (l : L) : Stmt S → Option Fault
  | .plain s => X.check a l s
  | _ => none

def Engine.prepare (X : Engine A L E S) (a : A) (l : L) (text : String) : Except Fault (Stmt S) :=
  match X.parse text with
  | .error f => .error f
  | .ok st =>
    match X.compiles a l st with
    | some f => .error f
    | none => .ok st

def Stmt.readonly (X : Engine A L E S) : Stmt S → Bool
  | .plain s => X.readonly s
  | _ => true

def Stmt.paramCount (X : Engine A L E S) : Stmt S → ℕ
  | .plain s => X.paramCount s
  | _ => 0

def Txn.release (t : Txn A M L) (name : String) : Option (List (String × Db A M × L)) :=
  match t.savepoints.dropWhile (·.1 ≠ name) with
  | [] => none
  | _ :: rest => some rest

/-- Back to the savepoint `name`, which stays. -/
def Txn.rollbackTo (t : Txn A M L) (name : String) : Option (Txn A M L × L) :=
  match t.savepoints.dropWhile (·.1 ≠ name) with
  | [] => none
  | (n, db, loc) :: rest => some ({ t with db := db, savepoints := (n, db, loc) :: rest }, loc)

namespace Conn

variable (X : Engine A L E S) (c : Conn A M L E)

def autocommit : Bool := c.txn.isNone

def db : Db A M :=
  match c.txn with
  | none => c.file
  | some t => t.db

def setDb (db : Db A M) : Conn A M L E :=
  match c.txn with
  | none => { c with file := db }
  | some t => { c with txn := some { t with db := db } }

def undone : Conn A M L E :=
  match c.txn with
  | none => c
  | some t => { c with txn := none, loc := X.undo t.begun c.loc }

def guarded (st : Stmt S) (c' : Conn A M L E) : Conn A M L E × Out :=
  match X.refuse c.db.app st with
  | some f => (c, ⟨[], some (.fault f)⟩)
  | none => (c', ⟨[], none⟩)

/-- A statement that has nothing to do with transactions. -/
def runPlain (e : E) (s : S) (ps : List Value) : Conn A M L E × Out :=
  match (X.calls c.db.app c.loc s).find? (forbiddenNonDetFns.contains ·) with
  | some f => (c, ⟨[], some (.forbidden f)⟩)
  | none =>
    let r := X.run e c.txn.isNone c.db.app c.loc s ps
    let c := { c with loc := r.loc }
    (if r.undo then c.undone X else c.setDb { c.db with app := r.app }, ⟨r.rows, r.err.map .fault⟩)

def failed (e : SqlError) : Conn A M L E × Out := (c, ⟨[], some e⟩)

def execIdle (e : E) (st : Stmt S) (ps : List Value) : Conn A M L E × Out :=
  match st with
  | .begin => c.guarded X st { c with txn := some ⟨c.file, c.loc, [], false⟩ }
  | .savepoint name =>
    c.guarded X st { c with txn := some ⟨c.file, c.loc, [(name, c.file, c.loc)], true⟩ }
  | .commit | .rollback => c.failed .noTransaction
  | .release name | .rollbackTo name => c.failed (.noSavepoint name)
  | .vacuum => c.guarded X st c
  | .plain s => c.runPlain X e s ps

/-- Run a statement in the transaction `t`. -/
def execIn (t : Txn A M L) (e : E) (st : Stmt S) (ps : List Value) : Conn A M L E × Out :=
  match st with
  | .begin => c.failed .withinTransaction
  | .savepoint name =>
    ({ c with txn := some { t with savepoints := (name, t.db, c.loc) :: t.savepoints } }, ⟨[], none⟩)
  | .commit => c.guarded X st { c with file := t.db, txn := none }
  | .rollback => (c.undone X, ⟨[], none⟩)
  | .release name =>
    match t.release name with
    | none => c.failed (.noSavepoint name)
    | some [] =>
      if t.bySavepoint then c.guarded X st { c with file := t.db, txn := none }
      else ({ c with txn := some { t with savepoints := [] } }, ⟨[], none⟩)
    | some rest => ({ c with txn := some { t with savepoints := rest } }, ⟨[], none⟩)
  | .rollbackTo name =>
    match t.rollbackTo name with
    | none => c.failed (.noSavepoint name)
    | some (t, loc) => ({ c with txn := some t, loc := X.undo loc c.loc }, ⟨[], none⟩)
  | .vacuum => c.failed .vacuumInTransaction
  | .plain s => c.runPlain X e s ps

def tick : Conn A M L E := { c with outside := fun n => c.outside (n + 1) }

def exec (st : Stmt S) (ps : List Value) : Conn A M L E × Out :=
  match c.txn with
  | none => c.tick.execIdle X (c.outside 0) st ps
  | some t => c.tick.execIn X t (c.outside 0) st ps

/-! ## The driver -/

def columns : Stmt S → Columns
  | .plain s => X.columns c.db.app c.loc s
  | _ => []

/-- What `raw_execute` makes of a step. -/
def affected : Conn A M L E × Out → Conn A M L E × Except SqlError ℕ
  | (c, ⟨_ :: _, _⟩) => (c, .error .executeReturnedResults)
  | (c, ⟨[], some e⟩) => (c, .error e)
  | (c, ⟨[], none⟩) => (c, .ok (X.changes c.loc))

def rawExecute (st : Stmt S) (ps : List Value) : Conn A M L E × Except SqlError ℕ :=
  if !(c.columns X st).isEmpty && st.readonly X then (c, .error .executeReturnedResults)
  else affected X (c.exec X st ps)

def bindAt : Stmt S → ℕ → Value → Option SqlError
  | .plain s, idx, v => (X.bind s idx v).map .fault
  | _, _, _ => some .invalidParameterCount

def bindAll (st : Stmt S) : ℕ → List Value → Option SqlError
  | _, [] => none
  | idx, v :: vs => (bindAt X st idx v).or (bindAll st (idx + 1) vs)

def executeStmt (st : Stmt S) (ps : List Value) : Conn A M L E × Except SqlError ℕ :=
  if st.paramCount X ≠ ps.length then (c, .error .invalidParameterCount)
  else
    match bindAll X st 1 ps with
    | some e => (c, .error e)
    | none => c.rawExecute X st ps

def prepare (text : String) : Except SqlError (Stmt S) :=
  (X.prepare c.db.app c.loc text).mapError .fault

/-- `prepare_cached`: the first statement of a text. It is compiled unless it is in the cache. -/
def prepareCached (sql : String) : Except SqlError (CachedStatement S) :=
  match X.parse ((X.split (X.trim sql)).headD "") with
  | .error f => .error (.fault f)
  | .ok (.plain s) =>
    match c.cache.stmts.lookup (X.trim sql), X.check c.db.app c.loc s with
    | some columns, _ => .ok ⟨X.trim sql, .plain s, columns⟩
    | none, some f => .error (.fault f)
    | none, none => .ok ⟨X.trim sql, .plain s, X.columns c.db.app c.loc s⟩
  -- the others have no columns
  | .ok st => .ok ⟨X.trim sql, st, []⟩

/-- A statement is not in the cache while it is in use … -/
def takeOut (h : CachedStatement S) : Conn A M L E := { c with cache := c.cache.remove h.sql }

/-- … and comes back when it is dropped. -/
def putBack (h : CachedStatement S) : Conn A M L E :=
  { c with cache := c.cache.insert h.sql h.columns }

/-- A cached statement is run and dropped. It is first compiled for the tables as they are now. -/
def stepCached (h : CachedStatement S) (ps : List Value) : Conn A M L E × Out :=
  match X.compiles c.db.app c.loc h.stmt with
  | some f => (c.putBack h).failed (.fault f)
  | none =>
    let (c', out) := c.exec X h.stmt ps
    (c'.putBack { h with columns := c.columns X h.stmt }, out)

/-- `raw_execute` looks at the columns before the statement is compiled again. -/
def rawExecuteCached (h : CachedStatement S) (ps : List Value) : Conn A M L E × Except SqlError ℕ :=
  if !h.columns.isEmpty && h.stmt.readonly X then (c.putBack h, .error .executeReturnedResults)
  else affected X (c.stepCached X h ps)

def execute (own : Own) (ps : List Value) : Conn A M L E × Except SqlError ℕ :=
  match X.own c.db.app c.loc own with
  | .error f => (c, .error (.fault f))
  | .ok s => c.executeStmt X (.plain s) ps

/-- A query that gets to its rows, and the error after them. -/
def query (own : Own) (ps : List Value) : Conn A M L E × Except SqlError Out :=
  match X.own c.db.app c.loc own with
  | .error f => (c, .error (.fault f))
  | .ok s =>
    match bindAll X (.plain s) 1 ps with
    | some e => (c, .error e)
    | none =>
      let (c, out) := c.exec X (.plain s) ps
      (c, .ok out)

/-- The end of a `Transaction`, which rolls back what is still open. -/
def finish : Conn A M L E :=
  if c.autocommit then c else (c.exec X .rollback []).1

end Conn

/-! ## Which statements open and end a transaction -/

/-- `BEGIN` and `SAVEPOINT`. -/
def Stmt.begins : Stmt S → Bool
  | .begin | .savepoint _ => true
  | _ => false

namespace Conn

variable (X : Engine A L E S)

def Opens (c : Conn A M L E) (st : Stmt S) : Prop :=
  c.txn = none ∧ st.begins = true ∧ X.refuse c.file.app st = none

def EndsTxn (c : Conn A M L E) (t : Txn A M L) (ps : List Value) : Stmt S → Prop
  | .commit => X.refuse t.db.app .commit = none
  | .rollback => True
  | .release name =>
    t.release name = some [] ∧ t.bySavepoint = true ∧ X.refuse t.db.app (.release name) = none
  | .plain s =>
    (X.calls t.db.app c.loc s).find? (forbiddenNonDetFns.contains ·) = none ∧
      (X.run (c.outside 0) false t.db.app c.loc s ps).undo = true
  | _ => False

def Ends (c : Conn A M L E) (st : Stmt S) (ps : List Value) : Prop :=
  ∃ t, c.txn = some t ∧ c.EndsTxn X t ps st

variable {X} {c : Conn A M L E} {st : Stmt S} {ps : List Value}

@[simp] theorem undone_txn : (c.undone X).txn = none := by
  unfold undone
  split
  · assumption
  · rfl

@[simp] theorem setDb_txn_isSome (db : Db A M) : (c.setDb db).txn.isSome = c.txn.isSome := by
  unfold setDb
  split <;> simp_all

@[simp] theorem setDb_loc (db : Db A M) : (c.setDb db).loc = c.loc := by
  unfold setDb
  split <;> rfl

theorem guarded_open_iff (c' : Conn A M L E) : (c.guarded X st c').1.txn.isSome ↔
    (X.refuse c.db.app st = none ∧ c'.txn.isSome) ∨
      (X.refuse c.db.app st ≠ none ∧ c.txn.isSome) := by
  unfold guarded
  cases X.refuse c.db.app st <;> simp

theorem runPlain_open_iff {e : E} {s : S} : (c.runPlain X e s ps).1.txn.isSome ↔ c.txn.isSome ∧
    ¬ ((X.calls c.db.app c.loc s).find? (forbiddenNonDetFns.contains ·) = none ∧
      (X.run e c.txn.isNone c.db.app c.loc s ps).undo = true) := by
  unfold runPlain
  split
  · rename_i hf
    simp only [hf, reduceCtorEq, false_and, not_false_eq_true, and_true]
  · rename_i hf
    simp only [hf, true_and]
    split_ifs with hu <;> simp [hu]

theorem exec_open_iff : (c.exec X st ps).1.txn.isSome ↔
    c.Opens X st ∨ (c.txn.isSome ∧ ¬ c.Ends X st ps) := by
  unfold exec Opens Ends
  cases htxn : c.txn with
  | none =>
    cases st <;>
      simp [execIdle, tick, htxn, Stmt.begins, guarded_open_iff, db, runPlain_open_iff, failed]
  | some t =>
    simp only [reduceCtorEq, false_and, false_or, isSome_some, true_and, some.injEq,
      exists_eq_left']
    cases st with
    | release name =>
      simp only [execIn, EndsTxn]
      rcases hr : t.release name with _ | _ | ⟨p, rest⟩
      · simp [failed, tick, htxn]
      · cases hb : t.bySavepoint <;> simp [guarded_open_iff, db, tick, htxn]
      · simp
    | rollbackTo name =>
      simp only [execIn, EndsTxn]
      cases t.rollbackTo name <;> simp [failed, tick, htxn]
    | plain s => simp [execIn, EndsTxn, runPlain_open_iff, db, tick, htxn]
    | begin | vacuum => simp [execIn, EndsTxn, failed, tick, htxn]
    | commit => simp [execIn, EndsTxn, guarded_open_iff, db, tick, htxn]
    | rollback | savepoint => simp [execIn, EndsTxn]

theorem exec_plain (s : S) : c.exec X (.plain s) ps = c.tick.runPlain X (c.outside 0) s ps := by
  unfold exec
  split <;> rfl

theorem autocommit_iff : c.autocommit = true ↔ c.txn = none := isNone_iff_eq_none

theorem db_of_autocommit (h : c.txn = none) : c.db = c.file := by
  unfold db
  rw [h]

theorem exec_txn_eq_none (h : c.txn = none) (hst : st.begins = false) :
    (c.exec X st ps).1.txn = none := by
  rw [← not_isSome_iff_eq_none, exec_open_iff]
  simp [Opens, hst, h]

theorem exec_begin (h : c.txn = none) :
    (∃ f, c.exec X .begin ps = (c.tick, ⟨[], some (.fault f)⟩)) ∨
      c.exec X .begin ps = ({ c.tick with txn := some ⟨c.file, c.loc, [], false⟩ }, ⟨[], none⟩) := by
  simp only [exec, h, execIdle, guarded]
  cases X.refuse c.tick.db.app .begin with
  | none => exact .inr rfl
  | some f => exact .inl ⟨f, rfl⟩

theorem exec_vacuum (h : c.txn = none) (ps : List Value) :
    (c.exec X .vacuum ps).1 = c.tick ∧ (c.exec X .vacuum ps).2.err ≠ some .vacuumInTransaction := by
  simp only [exec, h, execIdle, guarded]
  cases X.refuse c.tick.db.app .vacuum <;> simp

@[simp] theorem finish_txn : (c.finish X).txn = none := by
  unfold finish
  split
  · rwa [← autocommit_iff]
  · rename_i h
    obtain ⟨t, ht⟩ := ne_none_iff_exists'.mp (mt autocommit_iff.mpr h)
    simp [exec, ht, execIn]

@[simp] theorem affected_fst (r : Conn A M L E × Out) : (affected X r).1 = r.1 := by
  rcases r with ⟨c', ⟨_ | ⟨row, rows⟩, _ | e⟩⟩ <;> rfl

theorem rawExecute_fst : (c.rawExecute X st ps).1 =
    if !(c.columns X st).isEmpty && st.readonly X then c else (c.exec X st ps).1 := by
  unfold rawExecute
  split_ifs
  · rfl
  · exact affected_fst _

@[simp] theorem putBack_txn (h : CachedStatement S) : (c.putBack h).txn = c.txn := rfl

theorem prepareCached_columns {sql : String} {h : CachedStatement S}
    (hp : c.prepareCached X sql = .ok h) (hb : h.stmt.begins = true) : h.columns = [] := by
  unfold prepareCached at hp
  split at hp
  · cases hp
  · split at hp <;> cases hp <;> cases hb
  · cases hp
    rfl

theorem rawExecute_txn_eq_none (h : c.txn = none) (hst : st.begins = false) :
    (c.rawExecute X st ps).1.txn = none := by
  rw [rawExecute_fst]
  split_ifs
  · exact h
  · exact exec_txn_eq_none h hst

theorem executeStmt_txn_eq_none (h : c.txn = none) (hst : st.begins = false) :
    (c.executeStmt X st ps).1.txn = none := by
  unfold executeStmt
  split_ifs
  · exact h
  · split
    · exact h
    · exact rawExecute_txn_eq_none h hst

theorem execute_txn_eq_none (h : c.txn = none) (own : Own) : (c.execute X own ps).1.txn = none := by
  unfold execute
  split
  · exact h
  · exact executeStmt_txn_eq_none h rfl

theorem query_txn_eq_none (h : c.txn = none) (own : Own) (ps : List Value) :
    (c.query X own ps).1.txn = none := by
  unfold query
  split
  · exact h
  · rename_i s _
    split
    · exact h
    · exact exec_txn_eq_none h rfl

end Conn

end Hiqlite.Sqlite
