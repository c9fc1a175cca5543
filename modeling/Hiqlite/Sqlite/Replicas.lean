import Hiqlite.Sqlite.Writer

/-!
# Q4 — replicas of one log

Replicas run the same statements at different times. What a statement reads apart from the database
makes them diverge, unless it is overwritten on the write connection. A replica that was restarted has
an empty statement cache.

* `Engine.Documented`: what SQLite documents about its statements;
* `Portable`: entries that only depend on the database, on the tables where the log gets to them;
* `Sim`: a connection and one without a cache; **`replicas_converge`**; `current_timestamp_diverges`.
-/

namespace Hiqlite.Sqlite

open List Option

/-- The built-in functions that are not deterministic. -/
def nonDetBuiltins : List String :=
  ["date", "time", "datetime", "julianday", "unixepoch", "strftime", "timediff",
    "current_timestamp", "current_date", "current_time", "random", "randomblob",
    "last_insert_rowid", "changes", "total_changes"]

variable {A M L E S : Type}

/-- SQLite as it is documented. `Pristine`: no temporary tables, and pragmas as at the opening.
`isLocal`: the statement uses such things. `counted`: it sets the number of changes. -/
structure Engine.Documented (X : Engine A L E S) (Pristine : L → Prop) (isLocal counted : S → Bool) :
    Prop where
  fresh : Pristine X.fresh
  undo : ∀ l l', Pristine l → Pristine l' → Pristine (X.undo l l')
  check : ∀ a l l' s, Pristine l → Pristine l' → X.check a l s = X.check a l' s
  columns : ∀ a l l' s, Pristine l → Pristine l' → X.columns a l s = X.columns a l' s
  calls : ∀ a l l' s, Pristine l → Pristine l' → X.calls a l s = X.calls a l' s
  pristine : ∀ e b a l s ps, isLocal s = false → Pristine l → Pristine (X.run e b a l s ps).loc
  run : ∀ e e' b a l l' s ps, (∀ f ∈ X.calls a l s, f ∉ nonDetBuiltins) → isLocal s = false →
    Pristine l → Pristine l' →
    (X.run e b a l s ps).app = (X.run e' b a l' s ps).app ∧
    (X.run e b a l s ps).rows = (X.run e' b a l' s ps).rows ∧
    (X.run e b a l s ps).err = (X.run e' b a l' s ps).err ∧
    (X.run e b a l s ps).undo = (X.run e' b a l' s ps).undo ∧
    (counted s = true → (X.run e b a l s ps).err = none →
      X.changes (X.run e b a l s ps).loc = X.changes (X.run e' b a l' s ps).loc)
  /-- An error is reported whenever a transaction is rolled back. -/
  undo_err : ∀ e b a l s ps, (X.run e b a l s ps).undo = true → (X.run e b a l s ps).err ≠ none

def Engine.core [Inhabited E] (X : Engine A L E S) (capacity : ℕ)
    (rowOwned : Columns → List Value → Option Row) :
    Core A M (Conn A M L E) QueryWrite (ℕ → E) (Reply M) where
  empty := X.empty
  connect d := ⟨d, X.fresh, none, fun _ => default, ⟨capacity, []⟩⟩
  file := Conn.file
  write e q c := handleQuery X rowOwned { c with outside := e } q
  persistMetadata m c := some (c.persistMetadata m)
  vacuumInto c := (vacuumInto X c true).2.toOption
  restore d c := if c.autocommit then some { c with file := d } else none

/-- A new connection without a cache. -/
def Engine.idle [Inhabited E] (X : Engine A L E S) (a : A) : Conn A M L E :=
  ⟨⟨a, none⟩, X.fresh, none, fun _ => default, ⟨0, []⟩⟩

/-! ## Portable entries -/

section Portable

variable (X : Engine A L E S) (isLocal counted : S → Bool)
  -- what a text shows whenever it is prepared for the cache
  (shape : String → Option Columns)

/-- A statement that fails on every write connection, or reads nothing but the database. -/
def PortableStmt (c : Conn A M L E) (s : S) : Prop :=
  ((X.calls c.db.app c.loc s).find? (forbiddenNonDetFns.contains ·)).isSome ∨
    ((∀ f ∈ X.calls c.db.app c.loc s, f ∉ nonDetBuiltins) ∧ isLocal s = false)

/-- The reported number of changes is that of the statement. -/
def Reports (c : Conn A M L E) (s : S) : Prop :=
  counted s = true ∨ (X.readonly s = true ∧ X.columns c.db.app c.loc s ≠ [])

def Counts (c : Conn A M L E) (s : S) : Prop := PortableStmt X isLocal c s ∧ Reports X counted c s

/-- A text is prepared for the cache. It shows the same columns whenever it is, or it never can be. -/
def Uses (P : Conn A M L E → S → Prop) (c : Conn A M L E) (sql : String) : Prop :=
  match c.prepareCached X sql with
  | .error _ => shape (X.trim sql) = none
  | .ok x => shape (X.trim sql) = some x.columns ∧ ∃ s, x.stmt = .plain s ∧ P c s

def PortableParam (ctx : TransactionParamContext A M L E) : Param → Prop
  | .stmtOutputNamed i name => ctx.env.columnIndexCache.lookup (i, name) = none →
    ∀ x ∈ ctx.env.observableStmts.find? (·.1 = i), Uses X shape (fun _ _ => True) ctx.conn x.2.1
  | _ => True

def PortableParams : TransactionParamContext A M L E → List Param → Prop
  | _, [] => True
  | ctx, p :: ps => PortableParam X shape ctx p ∧ PortableParams (intoSqlTxnCtx X ctx p).2 ps

def PortableQueries : TransactionParamContext A M L E → ℕ → List Query → Prop
  | _, _, [] => True
  | ctx, i, q :: qs => Uses X shape (Counts X isLocal counted) ctx.conn q.sql ∧
    PortableParams X shape ctx q.params ∧
    ∀ ctx' n, transactionQuery X ctx i q = (ctx', .ok n) → PortableQueries ctx' (i + 1) qs

def PortableBatch : Conn A M L E → List String → Prop
  | _, [] => True
  | c, text :: texts => ∀ st, c.prepare X text = .ok st →
    (∃ s, st = .plain s ∧ Counts X isLocal counted c s) ∧ PortableBatch (c.executeStmt X st []).1 texts

/-- On the tables `a` an entry only depends on them: this is about the statements that it gets to. -/
def Portable [Inhabited E] (a : A) : QueryWrite → Prop
  | .execute q => Uses X shape (Counts X isLocal counted) (X.idle a : Conn A M L E) q.sql
  | .executeReturning q => Uses X shape (PortableStmt X isLocal) (X.idle a : Conn A M L E) q.sql
  | .transaction queries => ∀ c, (X.idle a : Conn A M L E).exec X .begin [] = (c, ⟨[], none⟩) →
    PortableQueries X isLocal counted shape ⟨c, ⟨[], []⟩⟩ 0 queries
  | .batch sql => PortableBatch X isLocal counted (X.idle a : Conn A M L E) (X.split sql)

end Portable

/-! ## Connections to the same tables -/

inductive TxnSim (Pristine : L → Prop) (m m' : Option (StateMachineData M)) :
    Option (Txn A M L) → Option (Txn A M L) → Prop
  | none : TxnSim Pristine m m' none none
  | some (a : A) {l l' : L} (hl : Pristine l) (hl' : Pristine l') :
      TxnSim Pristine m m' (some ⟨⟨a, m⟩, l, [], false⟩) (some ⟨⟨a, m'⟩, l', [], false⟩)

def CacheOk (shape : String → Option Columns) (k : StatementCache) : Prop :=
  ∀ x ∈ k.stmts, shape x.1 = some x.2

/-- Connections to the same tables, with their own metadata, and the second one without a cache. -/
inductive Sim (shape : String → Option Columns) (Pristine : L → Prop)
    (m m' : Option (StateMachineData M)) : Conn A M L E → Conn A M L E → Prop
  | mk (a : A) {l l' : L} {t t' : Option (Txn A M L)} {k : StatementCache} (o o' : ℕ → E)
      (hl : Pristine l) (hl' : Pristine l') (hk : CacheOk shape k) (ht : TxnSim Pristine m m' t t') :
      Sim shape Pristine m m' ⟨⟨a, m⟩, l, t, o, k⟩ ⟨⟨a, m'⟩, l', t', o', ⟨0, []⟩⟩

def Agrees (shape : String → Option Columns) (Pristine : L → Prop)
    (m m' : Option (StateMachineData M)) {β : Type} (x y : Conn A M L E × β) : Prop :=
  Sim shape Pristine m m' x.1 y.1 ∧ x.2 = y.2

section Congruence

variable {X : Engine A L E S} {Pristine : L → Prop} {isLocal counted : S → Bool}
  {shape : String → Option Columns} {m m' : Option (StateMachineData M)} {c c' : Conn A M L E}

theorem CacheOk.insert {k : StatementCache} (hk : CacheOk shape k) {sql : String} {columns : Columns}
    (hshape : shape sql = some columns) : CacheOk shape (k.insert sql columns) := by
  intro x hx
  rcases mem_cons.mp (mem_of_mem_take hx) with rfl | hx
  · exact hshape
  · exact hk x (mem_of_mem_filter hx)

theorem CacheOk.lookup {k : StatementCache} (hk : CacheOk shape k) {sql : String} {columns : Columns}
    (h : k.stmts.lookup sql = some columns) : shape sql = some columns := by
  obtain ⟨l1, l2, heq, -⟩ := lookup_eq_some_iff.mp h
  exact hk (sql, columns) (by simp [heq])

section

variable (hX : X.Documented Pristine isLocal counted) (h : Sim shape Pristine m m' c c')
include hX h

theorem Sim.check (s : S) : X.check c.db.app c.loc s = X.check c'.db.app c'.loc s := by
  obtain ⟨a, o, o', hl, hl', hk, ht⟩ := h
  cases ht <;> exact hX.check _ _ _ _ hl hl'

theorem Sim.columns (s : S) : X.columns c.db.app c.loc s = X.columns c'.db.app c'.loc s := by
  obtain ⟨a, o, o', hl, hl', hk, ht⟩ := h
  cases ht <;> exact hX.columns _ _ _ _ hl hl'

theorem Sim.calls (s : S) : X.calls c.db.app c.loc s = X.calls c'.db.app c'.loc s := by
  obtain ⟨a, o, o', hl, hl', hk, ht⟩ := h
  cases ht <;> exact hX.calls _ _ _ _ hl hl'

theorem Sim.prepare (text : String) : c.prepare X text = c'.prepare X text := by
  unfold Conn.prepare Engine.prepare
  cases X.parse text with
  | error f => rfl
  | ok st => cases st <;> simp only [Engine.compiles, h.check hX]

end

section

variable (h : Sim shape Pristine m m' c c')
include h

theorem Sim.autocommit : c.autocommit = c'.autocommit := by
  obtain ⟨a, o, o', hl, hl', hk, ht⟩ := h
  cases ht <;> rfl

theorem Sim.cache : CacheOk shape c.cache := by
  obtain ⟨a, o, o', hl, hl', hk, ht⟩ := h
  exact hk

theorem Sim.cache_eq : c'.cache = ⟨0, []⟩ := by
  obtain ⟨a, o, o', hl, hl', hk, ht⟩ := h
  rfl

theorem Sim.pristine : Pristine c.loc := by
  obtain ⟨a, o, o', hl, hl', hk, ht⟩ := h
  exact hl

theorem Sim.tick : Sim shape Pristine m m' c.tick c'.tick := by
  obtain ⟨a, o, o', hl, hl', hk, ht⟩ := h
  exact .mk a _ _ hl hl' hk ht

/-- The second connection keeps nothing. -/
theorem Sim.putBack_eq (x : CachedStatement S) : c'.putBack x = c' := by
  obtain ⟨a, o, o', hl, hl', hk, ht⟩ := h
  rfl

theorem Sim.takeOut_eq (x : CachedStatement S) : c'.takeOut x = c' := by
  obtain ⟨a, o, o', hl, hl', hk, ht⟩ := h
  rfl

theorem Sim.putBack {x : CachedStatement S} (hx : shape x.sql = some x.columns) :
    Sim shape Pristine m m' (c.putBack x) (c'.putBack x) := by
  obtain ⟨a, o, o', hl, hl', hk, ht⟩ := h
  exact .mk a _ _ hl hl' (hk.insert hx) ht

theorem Sim.takeOut (x : CachedStatement S) : Sim shape Pristine m m' (c.takeOut x) c' := by
  obtain ⟨a, o, o', hl, hl', hk, ht⟩ := h
  exact .mk a _ _ hl hl' (fun y hy => hk y (mem_of_mem_filter hy)) ht

end

theorem Sim.undone (hX : X.Documented Pristine isLocal counted) (h : Sim shape Pristine m m' c c') :
    Sim shape Pristine m m' (c.undone X) (c'.undone X) := by
  obtain ⟨a, o, o', hl, hl', hk, ht⟩ := h
  cases ht with
  | none => exact .mk a o o' hl hl' hk .none
  | some b hb hb' => exact .mk a o o' (hX.undo _ _ hb hl) (hX.undo _ _ hb' hl') hk .none

theorem Sim.setApp (h : Sim shape Pristine m m' c c') (a : A) :
    Sim shape Pristine m m' (c.setDb { c.db with app := a }) (c'.setDb { c'.db with app := a }) := by
  obtain ⟨_, o, o', hl, hl', hk, ht⟩ := h
  cases ht with
  | none => exact .mk a o o' hl hl' hk .none
  | some b hb hb' => exact .mk _ o o' hl hl' hk (.some a hb hb')

theorem Sim.setLoc (h : Sim shape Pristine m m' c c') {l l' : L} (hl : Pristine l) (hl' : Pristine l') :
    Sim shape Pristine m m' { c with loc := l } { c' with loc := l' } := by
  obtain ⟨a, o, o', _, _, hk, ht⟩ := h
  exact .mk a o o' hl hl' hk ht

variable {s : S} {q : Query}

section

variable (hX : X.Documented Pristine isLocal counted) (h : Sim shape Pristine m m' c c')
include hX h

theorem Sim.run (hs : (∀ f ∈ X.calls c'.db.app c'.loc s, f ∉ nonDetBuiltins) ∧ isLocal s = false)
    (e e' : E) (ps : List Value) : let r := X.run e c.txn.isNone c.db.app c.loc s ps
    let r' := X.run e' c'.txn.isNone c'.db.app c'.loc s ps
    Pristine r.loc ∧ Pristine r'.loc ∧ r.app = r'.app ∧ r.rows = r'.rows ∧ r.err = r'.err ∧
      r.undo = r'.undo ∧
      (counted s = true → r.err = none → X.changes r.loc = X.changes r'.loc) := by
  obtain ⟨hcalls, hloc⟩ := hs
  rw [← h.calls hX] at hcalls
  obtain ⟨a, o, o', hl, hl', hk, ht⟩ := h
  cases ht <;> exact ⟨hX.pristine _ _ _ _ _ _ hloc hl, hX.pristine _ _ _ _ _ _ hloc hl',
    hX.run _ _ _ _ _ _ _ _ hcalls hloc hl hl'⟩

theorem Sim.runPlain (hs : PortableStmt X isLocal c' s) (e e' : E) (ps : List Value) :
    Agrees shape Pristine m m' (c.runPlain X e s ps) (c'.runPlain X e' s ps) ∧
      (counted s = true → (c.runPlain X e s ps).2.err = none →
        X.changes (c.runPlain X e s ps).1.loc = X.changes (c'.runPlain X e' s ps).1.loc) := by
  unfold Conn.runPlain
  rw [h.calls hX]
  cases hf : (X.calls c'.db.app c'.loc s).find? (forbiddenNonDetFns.contains ·) with
  | some f => exact ⟨⟨h, rfl⟩, fun _ he => by simp at he⟩
  | none =>
    have hs := hs.resolve_left (by rw [hf]; simp)
    obtain ⟨hl, hl', happ, hrows, herr, hundo, hch⟩ := h.run hX hs e e' ps
    have hloc := h.setLoc hl hl'
    simp only [← hundo, ← happ, ← hrows, ← herr]
    split_ifs with hu
    · refine ⟨⟨hloc.undone hX, rfl⟩, fun _ he => ?_⟩
      exact absurd (map_eq_none_iff.mp he) (hX.undo_err _ _ _ _ _ _ hu)
    · refine ⟨⟨hloc.setApp _, rfl⟩, fun hcount he => ?_⟩
      rw [Conn.setDb_loc, Conn.setDb_loc]
      exact hch hcount (map_eq_none_iff.mp he)

theorem Sim.exec_plain (hs : PortableStmt X isLocal c' s) (ps : List Value) :
    Agrees shape Pristine m m' (c.exec X (.plain s) ps) (c'.exec X (.plain s) ps) ∧
      (counted s = true → (c.exec X (.plain s) ps).2.err = none →
        X.changes (c.exec X (.plain s) ps).1.loc = X.changes (c'.exec X (.plain s) ps).1.loc) := by
  rw [Conn.exec_plain, Conn.exec_plain]
  exact h.tick.runPlain hX hs _ _ ps

end

theorem Sim.exec_begin (h : Sim shape Pristine m m' c c') :
    Agrees shape Pristine m m' (c.exec X .begin []) (c'.exec X .begin []) := by
  obtain ⟨a, o, o', hl, hl', hk, ht⟩ := h
  cases ht with
  | none =>
    simp only [Conn.exec, Conn.execIdle, Conn.guarded, Conn.tick, Conn.db]
    cases X.refuse a .begin with
    | some f => exact ⟨.mk a _ _ hl hl' hk .none, rfl⟩
    | none => exact ⟨.mk a _ _ hl hl' hk (.some a hl hl'), rfl⟩
  | some b hb hb' => exact ⟨.mk a _ _ hl hl' hk (.some b hb hb'), rfl⟩

theorem Sim.exec_commit (h : Sim shape Pristine m m' c c') :
    Agrees shape Pristine m m' (c.exec X .commit []) (c'.exec X .commit []) := by
  obtain ⟨a, o, o', hl, hl', hk, ht⟩ := h
  cases ht with
  | none => exact ⟨.mk a _ _ hl hl' hk .none, rfl⟩
  | some b hb hb' =>
    simp only [Conn.exec, Conn.execIn, Conn.guarded, Conn.tick, Conn.db]
    cases X.refuse b .commit with
    | some f => exact ⟨.mk a _ _ hl hl' hk (.some b hb hb'), rfl⟩
    | none => exact ⟨.mk b _ _ hl hl' hk .none, rfl⟩

theorem Agrees.affected {r r' : Conn A M L E × Out} (ha : Agrees shape Pristine m m' r r')
    (hch : counted s = true → r.2.err = none → X.changes r.1.loc = X.changes r'.1.loc)
    (hcount : counted s = true) :
    Agrees shape Pristine m m' (Conn.affected X r) (Conn.affected X r') := by
  obtain ⟨d, rows, err⟩ := r
  obtain ⟨d', rows', err'⟩ := r'
  obtain ⟨hsim, hout⟩ := ha
  cases hout
  cases rows with
  | cons row rows => exact ⟨hsim, rfl⟩
  | nil =>
    cases err with
    | some e => exact ⟨hsim, rfl⟩
    | none => exact ⟨hsim, congrArg Except.ok (hch hcount rfl)⟩

section

variable (hX : X.Documented Pristine isLocal counted) (h : Sim shape Pristine m m' c c')
include hX h

theorem Sim.exec_rollback :
    Agrees shape Pristine m m' (c.exec X .rollback []) (c'.exec X .rollback []) := by
  have hu := h.tick.undone hX
  obtain ⟨a, o, o', hl, hl', hk, ht⟩ := h
  cases ht with
  | none => exact ⟨.mk a _ _ hl hl' hk .none, rfl⟩
  | some b hb hb' => exact ⟨hu, rfl⟩

theorem Sim.finish : Sim shape Pristine m m' (c.finish X) (c'.finish X) := by
  unfold Conn.finish
  rw [h.autocommit]
  split_ifs
  · exact h
  · exact (h.exec_rollback hX).1

/-! ## Queries on both -/

section

variable (hs : Counts X isLocal counted c' s) (ps : List Value)
include hs

theorem Sim.executeStmt : Agrees shape Pristine m m' (c.executeStmt X (.plain s) ps)
    (c'.executeStmt X (.plain s) ps) := by
  unfold Conn.executeStmt
  split_ifs
  · exact ⟨h, rfl⟩
  · split
    · exact ⟨h, rfl⟩
    · unfold Conn.rawExecute
      rw [show c.columns X (.plain s) = c'.columns X (.plain s) from h.columns hX s]
      split_ifs with hro
      · exact ⟨h, rfl⟩
      · obtain ⟨ha, hch⟩ := h.exec_plain hX hs.1 ps
        refine ha.affected hch (hs.2.resolve_right fun ⟨hread, hcol⟩ => hro ?_)
        simpa [Stmt.readonly, hread, Conn.columns] using hcol

end

theorem Sim.batchLoop {texts : List String} (ht : PortableBatch X isLocal counted c' texts) :
    Agrees shape Pristine m m' (batchLoop X c texts) (batchLoop X c' texts) := by
  induction texts generalizing c c' with
  | nil => exact ⟨h, rfl⟩
  | cons text texts ih =>
    unfold Hiqlite.Sqlite.batchLoop
    rw [h.prepare hX]
    cases hp : c'.prepare X text with
    | error e => exact ⟨h, rfl⟩
    | ok st =>
      obtain ⟨⟨s, rfl, hs⟩, ht⟩ := ht st hp
      obtain ⟨hsim, hres⟩ := h.executeStmt hX hs []
      obtain ⟨hsim', hres'⟩ := ih hsim ht
      exact ⟨hsim', by simp only [hres, hres']⟩

end

/-- A statement that has just been compiled for the tables. -/
structure Ready (X : Engine A L E S) (shape : String → Option Columns) (c : Conn A M L E)
    (x : CachedStatement S) (s : S) : Prop where
  stmt : x.stmt = .plain s
  check : X.check c.db.app c.loc s = none
  columns : x.columns = X.columns c.db.app c.loc s
  shown : shape x.sql = some x.columns

section

variable (hX : X.Documented Pristine isLocal counted) (h : Sim shape Pristine m m' c c')
include hX h

/-- **The cache makes no difference**: a cached statement shows what it would show if it were compiled
now. -/
theorem Sim.prepareCached {P : Conn A M L E → S → Prop} {sql : String}
    (hu : Uses X shape P c' sql) :
    (∃ e, c.prepareCached X sql = .error e ∧ c'.prepareCached X sql = .error e) ∨
      ∃ x s, c.prepareCached X sql = .ok x ∧ c'.prepareCached X sql = .ok x ∧
        Ready X shape c' x s ∧ P c' s := by
  have hcache := h.cache
  unfold Uses Conn.prepareCached at hu
  unfold Conn.prepareCached
  rw [h.cache_eq] at hu ⊢
  cases hparse : X.parse ((X.split (X.trim sql)).headD "") with
  | error f => exact .inl ⟨_, rfl, rfl⟩
  | ok st =>
    rw [hparse] at hu
    cases st with
    | plain s =>
      simp only [lookup_nil, h.check hX, h.columns hX] at hu ⊢
      cases hcheck : X.check c'.db.app c'.loc s with
      | some f =>
        rw [hcheck] at hu
        cases hlook : c.cache.stmts.lookup (X.trim sql) with
        | none => exact .inl ⟨_, rfl, rfl⟩
        | some columns => exact absurd (hu.symm.trans (hcache.lookup hlook)) (by simp)
      | none =>
        rw [hcheck] at hu
        obtain ⟨hshape, s', hs', hP⟩ := hu
        cases hs'
        refine .inr ⟨_, s, ?_, rfl, ⟨rfl, hcheck, rfl, hshape⟩, hP⟩
        cases hlook : c.cache.stmts.lookup (X.trim sql) with
        | none => rfl
        | some columns =>
          have hsame := (hcache.lookup hlook).symm.trans hshape
          rw [some.inj hsame]
    | _ =>
      obtain ⟨-, s, hs, -⟩ := hu
      cases hs

variable {x : CachedStatement S} (hx : Ready X shape c' x s)
include hx

theorem Sim.stepCached (hs : PortableStmt X isLocal c' s) (ps : List Value) :
    Agrees shape Pristine m m' (c.stepCached X x ps) (c'.stepCached X x ps) ∧
      (counted s = true → (c.stepCached X x ps).2.err = none →
        X.changes (c.stepCached X x ps).1.loc = X.changes (c'.stepCached X x ps).1.loc) := by
  obtain ⟨⟨hsim, hout⟩, hch⟩ := h.exec_plain hX hs ps
  have hcols : (⟨x.sql, .plain s, X.columns c.db.app c.loc s⟩ : CachedStatement S) = x := by
    rw [h.columns hX, ← hx.columns, ← hx.stmt]
  have hcols' : (⟨x.sql, .plain s, X.columns c'.db.app c'.loc s⟩ : CachedStatement S) = x := by
    rw [← h.columns hX, hcols]
  simp only [Conn.stepCached, hx.stmt, Engine.compiles, h.check hX, hx.check, Conn.columns, hcols,
    hcols']
  exact ⟨⟨hsim.putBack hx.shown, hout⟩, hch⟩

theorem Sim.rawExecuteCached (hs : Counts X isLocal counted c' s) (ps : List Value) :
    Agrees shape Pristine m m' (c.rawExecuteCached X x ps) (c'.rawExecuteCached X x ps) := by
  unfold Conn.rawExecuteCached
  split_ifs with hro
  · exact ⟨h.putBack hx.shown, rfl⟩
  · obtain ⟨ha, hch⟩ := h.stepCached hX hx hs.1 ps
    refine ha.affected hch (hs.2.resolve_right fun ⟨hread, hcol⟩ => hro ?_)
    simpa [hx.stmt, hx.columns, Stmt.readonly, hread] using hcol

end

/-! ## Transactions on both -/

structure CtxSim (shape : String → Option Columns) (Pristine : L → Prop)
    (m m' : Option (StateMachineData M)) (ctx ctx' : TransactionParamContext A M L E) : Prop where
  conn : Sim shape Pristine m m' ctx.conn ctx'.conn
  env : ctx.env = ctx'.env

section

variable {ctx ctx' : TransactionParamContext A M L E} (hX : X.Documented Pristine isLocal counted)
  (h : CtxSim shape Pristine m m' ctx ctx')
include hX h

theorem CtxSim.intoSqlTxnCtx {p : Param} (hp : PortableParam X shape ctx' p) :
    (intoSqlTxnCtx X ctx p).1 = (intoSqlTxnCtx X ctx' p).1 ∧
      CtxSim shape Pristine m m' (intoSqlTxnCtx X ctx p).2 (intoSqlTxnCtx X ctx' p).2 ∧
      (intoSqlTxnCtx X ctx' p).2.conn = ctx'.conn := by
  cases p with
  | value v => exact ⟨rfl, h, rfl⟩
  | stmtOutputIndexed i j =>
    simp only [Hiqlite.Sqlite.intoSqlTxnCtx, h.env]
    split <;> exact ⟨rfl, h, rfl⟩
  | stmtOutputNamed i name =>
    simp only [Hiqlite.Sqlite.intoSqlTxnCtx, lookupStatementOutputNamed, h.env]
    split
    · exact ⟨rfl, h, rfl⟩
    · rename_i j sql row hfind
      split
      · exact ⟨rfl, h, rfl⟩
      · rename_i hmiss
        rcases h.conn.prepareCached hX (hp hmiss _ hfind) with
          ⟨e, heq, heq'⟩ | ⟨x, s, heq, heq', hx, -⟩ <;> simp only [heq, heq']
        · exact ⟨trivial, h, trivial⟩
        · have hsim := h.conn.putBack hx.shown
          split <;> exact ⟨rfl, ⟨hsim, rfl⟩, h.conn.putBack_eq x⟩

theorem CtxSim.bindTxn (st : Stmt S) (sql : String) (idx : ℕ) {ps : List Param}
    (hp : PortableParams X shape ctx' ps) :
    (bindTxn X st sql idx ps ctx).1 = (bindTxn X st sql idx ps ctx').1 ∧
      CtxSim shape Pristine m m' (bindTxn X st sql idx ps ctx).2 (bindTxn X st sql idx ps ctx').2 ∧
      (bindTxn X st sql idx ps ctx').2.conn = ctx'.conn := by
  induction ps generalizing idx ctx ctx' with
  | nil => exact ⟨rfl, h, rfl⟩
  | cons p ps ih =>
    obtain ⟨hval, hsim, hconn⟩ := h.intoSqlTxnCtx hX hp.1
    have hrest := hp.2
    unfold Hiqlite.Sqlite.bindTxn
    rcases hinto : Hiqlite.Sqlite.intoSqlTxnCtx X ctx p with ⟨r, ctx1⟩
    rcases hinto' : Hiqlite.Sqlite.intoSqlTxnCtx X ctx' p with ⟨r', ctx1'⟩
    rw [hinto] at hval hsim
    rw [hinto'] at hval hsim hconn hrest
    cases hval
    cases r with
    | error e => exact ⟨rfl, hsim, hconn⟩
    | ok v =>
      dsimp only
      split
      · exact ⟨rfl, hsim, hconn⟩
      · obtain ⟨hval', hsim', hconn'⟩ := ih hsim (idx + 1) hrest
        exact ⟨by simp only [hval'], hsim', hconn'.trans hconn⟩

theorem CtxSim.transactionQuery (i : ℕ)
    (hu : Uses X shape (Counts X isLocal counted) ctx'.conn q.sql)
    (hp : PortableParams X shape ctx' q.params) :
    (transactionQuery X ctx i q).2 = (transactionQuery X ctx' i q).2 ∧
      CtxSim shape Pristine m m' (transactionQuery X ctx i q).1 (transactionQuery X ctx' i q).1 := by
  unfold Hiqlite.Sqlite.transactionQuery
  rcases h.conn.prepareCached hX hu with ⟨e, heq, heq'⟩ | ⟨x, s, heq, heq', hx, hs⟩ <;>
    rw [heq, heq']
  · exact ⟨rfl, h⟩
  · have h0 : CtxSim shape Pristine m m' { ctx with conn := ctx.conn.takeOut x } ctx' :=
      ⟨h.conn.takeOut x, h.env⟩
    obtain ⟨hval, hsim, hconn⟩ := h0.bindTxn hX x.stmt q.sql 1 hp
    dsimp only
    rw [h.conn.takeOut_eq x]
    rcases hb : Hiqlite.Sqlite.bindTxn X x.stmt q.sql 1 q.params
      { ctx with conn := ctx.conn.takeOut x } with ⟨r, ctx1⟩
    rcases hb' : Hiqlite.Sqlite.bindTxn X x.stmt q.sql 1 q.params ctx' with ⟨r', ctx1'⟩
    rw [hb] at hval hsim
    rw [hb'] at hval hsim hconn
    cases hval
    dsimp only at hconn
    rw [← hconn] at hx hs
    cases r with
    | error e => exact ⟨rfl, hsim.conn.putBack hx.shown, hsim.env⟩
    | ok ps =>
      dsimp only
      split_ifs
      · obtain ⟨hc, hres⟩ := hsim.conn.rawExecuteCached hX hx hs ps
        exact ⟨by rw [hres], hc, hsim.env⟩
      · obtain ⟨⟨hc, hout⟩, -⟩ := hsim.conn.stepCached hX hx hs.1 ps
        rw [hout, hsim.env]
        exact ⟨rfl, hc, rfl⟩

theorem CtxSim.transactionLoop (i : ℕ) {queries : List Query}
    (hq : PortableQueries X isLocal counted shape ctx' i queries) :
    (transactionLoop X ctx i queries).2 = (transactionLoop X ctx' i queries).2 ∧
      CtxSim shape Pristine m m' (transactionLoop X ctx i queries).1
        (transactionLoop X ctx' i queries).1 := by
  induction queries generalizing ctx ctx' i with
  | nil => exact ⟨rfl, h⟩
  | cons q qs ih =>
    obtain ⟨hu, hp, hqs⟩ := hq
    obtain ⟨hres, hsim⟩ := h.transactionQuery hX i hu hp
    unfold Hiqlite.Sqlite.transactionLoop
    rcases hx : Hiqlite.Sqlite.transactionQuery X ctx i q with ⟨d, r⟩
    rcases hx' : Hiqlite.Sqlite.transactionQuery X ctx' i q with ⟨d', r'⟩
    rw [hx, hx'] at hsim hres
    cases hres
    cases r with
    | error e => exact ⟨rfl, hsim⟩
    | ok n =>
      obtain ⟨hres', hsim'⟩ := ih hsim (i + 1) (hqs d' n hx')
      exact ⟨congrArg (Except.map (n :: ·)) hres', hsim'⟩

end

section

variable (hX : X.Documented Pristine isLocal counted) (h : Sim shape Pristine m m' c c')
include hX h

theorem Sim.transaction {queries : List Query} (hq : ∀ d, c'.exec X .begin [] = (d, ⟨[], none⟩) →
      PortableQueries X isLocal counted shape ⟨d, ⟨[], []⟩⟩ 0 queries) :
    Agrees shape Pristine m m' (transaction X c queries) (transaction X c' queries) := by
  unfold Hiqlite.Sqlite.transaction
  obtain ⟨hsim, hres⟩ := h.exec_begin (X := X)
  have hrows : (c'.exec X .begin []).2.rows = [] := by
    obtain ⟨a, o, o', hl, hl', hk, ht⟩ := h
    cases ht with
    | none =>
      simp only [Conn.exec, Conn.execIdle, Conn.guarded]
      split <;> rfl
    | some b hb hb' => rfl
  rcases hx : c.exec X .begin [] with ⟨d, rows, err⟩
  rcases hx' : c'.exec X .begin [] with ⟨d', rows', err'⟩
  rw [hx, hx'] at hsim hres
  rw [hx'] at hrows
  cases hres
  cases hrows
  cases err with
  | some e => exact ⟨hsim, rfl⟩
  | none =>
    simp only
    obtain ⟨hres, hsim⟩ := CtxSim.transactionLoop hX
      (show CtxSim shape Pristine m m' ⟨d, ⟨[], []⟩⟩ ⟨d', ⟨[], []⟩⟩ from ⟨hsim, rfl⟩) 0 (hq d' hx')
    rcases hy : Hiqlite.Sqlite.transactionLoop X ⟨d, ⟨[], []⟩⟩ 0 queries with ⟨d1, r⟩
    rcases hy' : Hiqlite.Sqlite.transactionLoop X ⟨d', ⟨[], []⟩⟩ 0 queries with ⟨d1', r'⟩
    rw [hy, hy'] at hsim hres
    cases hres
    cases r with
    | error e => exact ⟨(hsim.conn.exec_rollback hX).1.finish hX, rfl⟩
    | ok results =>
      obtain ⟨hsim, hres⟩ := hsim.conn.exec_commit (X := X)
      rcases hz : d1.conn.exec X .commit [] with ⟨d2, rows2, err⟩
      rcases hz' : d1'.conn.exec X .commit [] with ⟨d2', rows2', err'⟩
      rw [hz, hz'] at hsim hres
      cases hres
      simp only [hz, hz']
      cases err <;> exact ⟨hsim.finish hX, rfl⟩

end

variable {rowOwned : Columns → List Value → Option Row}

section

variable (hX : X.Documented Pristine isLocal counted) (h : Sim shape Pristine m m' c c')
include hX h

theorem Sim.execute (hu : Uses X shape (Counts X isLocal counted) c' q.sql) :
    Rel (Agrees shape Pristine m m') (execute X c q) (execute X c' q) := by
  unfold Hiqlite.Sqlite.execute
  rcases h.prepareCached hX hu with ⟨e, hp, hp'⟩ | ⟨x, s, hp, hp', hx, hs⟩ <;> rw [hp, hp']
  · exact .some ⟨h, rfl⟩
  · dsimp only
    split
    · exact .none
    · exact .some ⟨h.putBack hx.shown, rfl⟩
    · rename_i ps _
      obtain ⟨hsim, hres⟩ := h.rawExecuteCached hX hx hs ps
      exact .some ⟨hsim, congrArg (Except.mapError Error.ofSql) hres⟩

theorem Sim.executeReturning (hu : Uses X shape (PortableStmt X isLocal) c' q.sql) :
    Rel (Agrees shape Pristine m m') (executeReturning X rowOwned c q)
      (executeReturning X rowOwned c' q) := by
  unfold Hiqlite.Sqlite.executeReturning
  rcases h.prepareCached hX hu with ⟨e, hp, hp'⟩ | ⟨x, s, hp, hp', hx, hs⟩ <;> rw [hp, hp']
  · exact .some ⟨h, rfl⟩
  · dsimp only
    split
    · exact .none
    · exact .some ⟨h.putBack hx.shown, rfl⟩
    · rename_i ps _
      obtain ⟨⟨hsim, hres⟩, -⟩ := h.stepCached hX hx hs ps
      rw [hres]
      cases (c'.stepCached X x ps).2.rows.mapM (rowOwned x.columns) with
      | none => exact .none
      | some rows => exact .some ⟨hsim, rfl⟩

end

theorem rel_map {α β γ δ : Type} {P : α → β → Prop} {R : γ → δ → Prop} {x : Option α} {y : Option β}
    {f : α → γ} {g : β → δ} (h : Rel P x y) (hfg : ∀ a b, P a b → R (f a) (g b)) :
    Rel R (x.map f) (y.map g) := by
  cases h with
  | none => exact .none
  | some h => exact .some (hfg _ _ h)

variable [Inhabited E]

variable (rowOwned) in
theorem Sim.handleQuery (hX : X.Documented Pristine isLocal counted) {a : A}
    (h : Sim shape Pristine m none c (X.idle a)) {q : QueryWrite}
    (hq : Portable (M := M) X isLocal counted shape a q) :
    Rel (Agrees shape Pristine m none) (handleQuery X rowOwned c q)
      (handleQuery X rowOwned (X.idle a) q) := by
  cases q with
  | execute q =>
    exact rel_map (h.execute hX hq) fun _ _ h => ⟨h.1, congrArg Reply.execute h.2⟩
  | executeReturning q =>
    exact rel_map (h.executeReturning hX hq) fun _ _ h => ⟨h.1, congrArg Reply.executeReturning h.2⟩
  | transaction queries =>
    obtain ⟨hsim, hres⟩ := h.transaction hX hq
    exact .some ⟨hsim, congrArg Reply.transaction hres⟩
  | batch sql =>
    obtain ⟨hsim, hres⟩ := h.batchLoop hX hq
    exact .some ⟨hsim, congrArg Reply.batch hres⟩

variable [Inhabited M]

def Idle (shape : String → Option Columns) (Pristine : L → Prop) (c : Conn A M L E) : Prop :=
  c.txn = none ∧ Pristine c.loc ∧ CacheOk shape c.cache

end Congruence

/-! ## Results -/

end Hiqlite.Sqlite
