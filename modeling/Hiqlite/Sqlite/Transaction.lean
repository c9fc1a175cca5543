import Hiqlite.Sqlite.Writer

/-!
# Q5 — transactions

A parameter of a transaction may refer to the first row of an earlier statement, by the index of a
column or by its name. For a name the text of that statement is prepared once more. A statement out of
the cache may show other columns than it has when it runs.

* **`transaction_error_file`**: a transaction that fails leaves the file as it was;
* **`transactionLoop_cases`**: the loop succeeds iff its queries do and their first rows are readable;
* **`executed_exact`**: what the parameters were bound to;
* **`transaction_all_or_nothing`**; `renamed_column_misread`.
-/

namespace Hiqlite.Sqlite

open List Option

variable {A M L E S : Type}

/-! ## The queries as they were executed -/

structure Executed where
  sql : String
  bound : List Value
  /-- How many columns the statement showed before it was run. -/
  shown : ℕ
  columns : Columns
  rows : List (List Value)
  deriving DecidableEq

/-- The first row has the columns that the statement has shown. -/
def Executed.Readable (x : Executed) : Prop :=
  ∀ row ∈ x.rows.head?, 0 < x.shown ∧ x.shown ≤ row.length

instance (x : Executed) : Decidable x.Readable := by
  unfold Executed.Readable
  infer_instance

/-- The loop of a transaction between two queries. -/
structure Progress (A M L E : Type) where
  ctx : TransactionParamContext A M L E
  index : ℕ

/-- The first query, if it can be prepared, bound and run. -/
def Progress.next? (X : Engine A L E S) (s : Progress A M L E) (q : Query) :
    Option (Executed × Progress A M L E) :=
  match s.ctx.conn.prepareCached X q.sql with
  | .error _ => none
  | .ok h =>
    match bindTxn X h.stmt q.sql 1 q.params { s.ctx with conn := s.ctx.conn.takeOut h } with
    | (.error _, _) => none
    | (.ok ps, ctx) =>
      match ctx.conn.stepCached X h ps with
      | (_, ⟨_, some _⟩) => none
      | (c, ⟨rows, none⟩) =>
        some (⟨q.sql, ps, h.columns.length, ctx.conn.columns X h.stmt, rows⟩,
          ⟨⟨c, (observe s.index q.sql h.columns.length ctx.env ⟨rows, none⟩).1⟩, s.index + 1⟩)

def Conn.begun (c : Conn A M L E) : Conn A M L E :=
  { c.tick with txn := some ⟨c.file, c.loc, [], false⟩ }

def Stmt.control : Stmt S → Bool
  | .vacuum | .plain _ => false
  | _ => true

/-- A statement that has rolled back the whole transaction reports an error. -/
def ReportsUndo (X : Engine A L E S) : Prop :=
  ∀ e a l s ps, (X.run e false a l s ps).undo = true → (X.run e false a l s ps).err ≠ none

/-! ## All or nothing -/

section Atomic

variable {X : Engine A L E S} {c c' : Conn A M L E} {st : Stmt S} {ps : List Value}

theorem undone_file : (c.undone X).file = c.file := by
  unfold Conn.undone
  split <;> rfl

theorem setDb_file (hc : c.txn.isSome) (db : Db A M) : (c.setDb db).file = c.file := by
  unfold Conn.setDb
  obtain ⟨t, ht⟩ := isSome_iff_exists.mp hc
  rw [ht]

/-- **Within a transaction, statements without transaction control leave the file alone**. -/
theorem exec_file (hX : ReportsUndo X) (hc : c.txn.isSome) (hst : st.control = false)
    (ps : List Value) : (c.exec X st ps).1.file = c.file ∧
      ((c.exec X st ps).2.err = none → (c.exec X st ps).1.txn.isSome) := by
  obtain ⟨t, ht⟩ := isSome_iff_exists.mp hc
  cases st with
  | vacuum =>
    simp only [Conn.exec, ht, Conn.execIn, Conn.failed]
    exact ⟨rfl, fun h => by cases h⟩
  | plain s =>
    rw [Conn.exec_plain, Conn.runPlain]
    have htick : c.tick.txn = some t := ht
    split
    · exact ⟨rfl, fun h => by cases h⟩
    · dsimp only
      split_ifs with hundo
      · refine ⟨undone_file, fun herr => ?_⟩
        rw [htick] at hundo herr
        exact absurd (map_eq_none_iff.mp herr) (hX _ _ _ _ _ hundo)
      · refine ⟨setDb_file (by simp [htick]) _, fun _ => ?_⟩
        rw [Conn.setDb_txn_isSome]
        simp [htick]
  | _ => cases hst

theorem rollback_file : (c.exec X .rollback ps).1.file = c.file := by
  unfold Conn.exec
  split
  · rfl
  · exact undone_file

theorem finish_file : (c.finish X).file = c.file := by
  unfold Conn.finish
  split
  · rfl
  · exact rollback_file

theorem exec_commit {t : Txn A M L} (ht : c.txn = some t) :
    (∃ f, X.refuse c.db.app .commit = some f ∧ (c.exec X .commit []).2.err = some (.fault f) ∧
      (c.exec X .commit []).1.file = c.file) ∨
    X.refuse c.db.app .commit = none ∧ (c.exec X .commit []).2.err = none ∧
      (c.exec X .commit []).1.file = c.db ∧ (c.exec X .commit []).1.txn = none := by
  have hdb : c.tick.db = c.db := rfl
  simp only [Conn.exec, ht, Conn.execIn, Conn.guarded, hdb]
  cases hrefuse : X.refuse c.db.app .commit with
  | some f => exact .inl ⟨f, rfl, rfl, rfl⟩
  | none =>
    refine .inr ⟨rfl, rfl, ?_, rfl⟩
    rw [Conn.db, ht]

end Atomic

/-! ## Success -/

section Success

variable {X : Engine A L E S}

theorem next?_eq_some {s s' : Progress A M L E} {q : Query} {x : Executed}
    (hnext : s.next? X q = some (x, s')) :
    ∃ h ps ctx, s.ctx.conn.prepareCached X q.sql = .ok h ∧
      bindTxn X h.stmt q.sql 1 q.params { s.ctx with conn := s.ctx.conn.takeOut h } = (.ok ps, ctx) ∧
      x.sql = q.sql ∧ x.bound = ps ∧ s'.index = s.index + 1 ∧
      s'.ctx.env = (observe s.index q.sql h.columns.length ctx.env ⟨x.rows, none⟩).1 := by
  unfold Progress.next? at hnext
  split at hnext
  · cases hnext
  · rename_i h hp
    split at hnext
    · cases hnext
    · rename_i ps ctx hb
      split at hnext <;> cases hnext
      exact ⟨h, ps, ctx, hp, hb, rfl, rfl, rfl, rfl⟩

end Success

/-! ## References -/

/-- `column_index`: the first column with a name, without regard to case. -/
def columnNamed (columns : Columns) (name : String) : Option ℕ :=
  columns.findIdx? (fun col => col.1.toLower = name.toLower)

/-- **What a parameter has to be bound to**, after the queries `ls` were executed. -/
def Exact (ls : List (Query × Executed)) : Param → Value → Prop
  | .value v, v' => v' = v
  | .stmtOutputIndexed i column, v =>
    ∃ l row, ls[i]? = some l ∧ l.2.rows.head? = some row ∧ row[column]? = some v
  | .stmtOutputNamed i name, v =>
    ∃ l row column, ls[i]? = some l ∧ l.2.rows.head? = some row ∧
      columnNamed l.2.columns name = some column ∧ row[column]? = some v

def References (ls : List (Query × Executed)) : Prop :=
  ∀ k l, ls[k]? = some l → Forall₂ (Exact (ls.take k)) l.1.params l.2.bound

/-- The environment has the first rows of the queries `ls` and their columns. -/
structure Aligned (ls : List (Query × Executed)) (env : TransactionEnv) : Prop where
  rows : ∀ i sql row, (i, sql, row) ∈ env.observableStmts →
    ∃ l full, ls[i]? = some l ∧ l.2.sql = sql ∧ l.2.rows.head? = some full ∧ row <+: full
  cache : ∀ i name column, env.columnIndexCache.lookup (i, name) = some column →
    ∃ l, ls[i]? = some l ∧ columnNamed l.2.columns name = some column

/-- **A name is steady**: if a parameter needs it for the first time, it stands for the same column as
when the statement was executed. -/
def SteadyParam (X : Engine A L E S) (ctx : TransactionParamContext A M L E)
    (ls : List (Query × Executed)) : Param → Prop
  | .stmtOutputNamed i name => ctx.env.columnIndexCache.lookup (i, name) = none →
    ∀ l ∈ ls[i]?, ∀ h ∈ (ctx.conn.prepareCached X l.2.sql).toOption,
      columnNamed h.columns name = columnNamed l.2.columns name
  | _ => True

def Steady (X : Engine A L E S) (ls : List (Query × Executed)) :
    TransactionParamContext A M L E → List Param → Prop
  | _, [] => True
  | ctx, p :: ps => SteadyParam X ctx ls p ∧ Steady X ls (intoSqlTxnCtx X ctx p).2 ps

/-- The names are steady in all queries from here on. -/
def SteadyFrom (X : Engine A L E S) (s : Progress A M L E) (ls : List (Query × Executed)) :
    List Query → Prop
  | [] => True
  | q :: qs => (∀ h ∈ (s.ctx.conn.prepareCached X q.sql).toOption,
      Steady X ls { s.ctx with conn := s.ctx.conn.takeOut h } q.params) ∧
    ∀ r ∈ s.next? X q, SteadyFrom X r.2 (ls ++ [(q, r.1)]) qs

instance (X : Engine A L E S) (ctx : TransactionParamContext A M L E) (ls : List (Query × Executed))
    (p : Param) : Decidable (SteadyParam X ctx ls p) := by
  unfold SteadyParam
  split <;> infer_instance

instance decidableSteady (X : Engine A L E S) (ls : List (Query × Executed)) :
    ∀ (ctx : TransactionParamContext A M L E) ps, Decidable (Steady X ls ctx ps)
  | _, [] => .isTrue trivial
  | ctx, p :: ps =>
    have := decidableSteady X ls (intoSqlTxnCtx X ctx p).2 ps
    inferInstanceAs (Decidable (SteadyParam X ctx ls p ∧ _))

instance decidableSteadyFrom (X : Engine A L E S) :
    ∀ (s : Progress A M L E) ls queries, Decidable (SteadyFrom X s ls queries)
  | _, _, [] => .isTrue trivial
  | s, ls, q :: qs =>
    have := fun r : Executed × Progress A M L E => decidableSteadyFrom X r.2 (ls ++ [(q, r.1)]) qs
    inferInstanceAs (Decidable ((∀ h ∈ (s.ctx.conn.prepareCached X q.sql).toOption, _) ∧ _))

section References

variable {X : Engine A L E S} {ls : List (Query × Executed)} {env : TransactionEnv}
  {ctx ctx' : TransactionParamContext A M L E} {v : Value}

theorem firstRowValue_ok {row full : List Value} {column : ℕ} (hrow : row <+: full)
    (h : firstRowValue row column = .ok v) : full[column]? = some v := by
  unfold firstRowValue at h
  cases hget : row[column]? with
  | none =>
    rw [hget] at h
    cases h
  | some v' =>
    rw [hget] at h
    cases h
    obtain ⟨rest, rfl⟩ := hrow
    obtain ⟨hlt, -⟩ := List.getElem?_eq_some_iff.mp hget
    exact (List.getElem?_append_left hlt).trans hget

theorem Aligned.found (h : Aligned ls env) {i j : ℕ} {sql : String} {row : List Value}
    (hfind : env.observableStmts.find? (·.1 = i) = some (j, sql, row)) :
    ∃ l full, ls[i]? = some l ∧ l.2.sql = sql ∧ l.2.rows.head? = some full ∧ row <+: full := by
  have hj : j = i := by simpa using find?_some hfind
  exact h.rows i sql row (hj ▸ mem_of_find?_eq_some hfind)

theorem Aligned.named (h : Aligned ls ctx.env) {i : ℕ} {name : String}
    (hsteady : SteadyParam X ctx ls (.stmtOutputNamed i name))
    (hlookup : lookupStatementOutputNamed X ctx i name = (.ok v, ctx')) :
    Exact ls (.stmtOutputNamed i name) v ∧ Aligned ls ctx'.env := by
  unfold lookupStatementOutputNamed at hlookup
  split at hlookup
  · cases hlookup
  · rename_i j sql row hfind
    obtain ⟨l, full, hl, rfl, hfull, hrow⟩ := h.found hfind
    split at hlookup
    · -- the name is known already
      rename_i column hcached
      obtain ⟨hvalue, rfl⟩ := Prod.mk.inj hlookup
      obtain ⟨l', hl', hcolumn⟩ := h.cache i name column hcached
      obtain rfl : l' = l := some.inj (hl'.symm.trans hl)
      exact ⟨⟨l', full, column, hl, hfull, hcolumn, firstRowValue_ok hrow hvalue⟩, h⟩
    · rename_i hmiss
      split at hlookup
      · cases hlookup
      · rename_i x hprep
        split at hlookup
        · cases hlookup
        · rename_i column hcolumn
          obtain ⟨hvalue, rfl⟩ := Prod.mk.inj hlookup
          have hsame := hsteady hmiss l hl x (by rw [hprep]; rfl)
          have hexecuted : columnNamed l.2.columns name = some column := hsame.symm.trans hcolumn
          refine ⟨⟨l, full, column, hl, hfull, hexecuted, firstRowValue_ok hrow hvalue⟩,
            ⟨h.rows, fun i' name' column' hlook => ?_⟩⟩
          by_cases hkey : (i', name') = (i, name)
          · obtain ⟨rfl, rfl⟩ := Prod.mk.inj hkey
            rw [lookup_cons_self] at hlook
            cases hlook
            exact ⟨l, hl, hexecuted⟩
          · rw [lookup_cons, beq_false_of_ne hkey] at hlook
            exact h.cache i' name' column' hlook

theorem Aligned.param (h : Aligned ls ctx.env) {p : Param} (hsteady : SteadyParam X ctx ls p)
    (hparam : intoSqlTxnCtx X ctx p = (.ok v, ctx')) : Exact ls p v ∧ Aligned ls ctx'.env := by
  cases p with
  | value v' =>
    cases hparam
    exact ⟨rfl, h⟩
  | stmtOutputIndexed i column =>
    rw [intoSqlTxnCtx] at hparam
    split at hparam
    · cases hparam
    · rename_i j sql row hfind
      obtain ⟨l, full, hl, -, hfull, hrow⟩ := h.found hfind
      obtain ⟨hvalue, rfl⟩ := Prod.mk.inj hparam
      exact ⟨⟨l, full, hl, hfull, firstRowValue_ok hrow hvalue⟩, h⟩
  | stmtOutputNamed i name => exact h.named hsteady hparam

theorem Aligned.bind (h : Aligned ls ctx.env) {st : Stmt S} {sql : String} {idx : ℕ} {ps : List Param}
    {vs : List Value} (hsteady : Steady X ls ctx ps)
    (hbind : bindTxn X st sql idx ps ctx = (.ok vs, ctx')) :
    Forall₂ (Exact ls) ps vs ∧ Aligned ls ctx'.env := by
  induction ps generalizing idx ctx vs with
  | nil =>
    cases hbind
    exact ⟨.nil, h⟩
  | cons p ps ih =>
    unfold bindTxn at hbind
    split at hbind
    · cases hbind
    · rename_i v ctx1 hparam
      split at hbind
      · cases hbind
      · obtain ⟨hexact, h1⟩ := h.param hsteady.1 hparam
        rcases hrest : bindTxn X st sql (idx + 1) ps ctx1 with ⟨e | vs', ctx2⟩
        · rw [hrest] at hbind
          cases hbind
        · rw [hrest] at hbind
          cases hbind
          have hsteady' := hsteady.2
          rw [hparam] at hsteady'
          obtain ⟨hall, h2⟩ := ih h1 hsteady' hrest
          exact ⟨hall.cons hexact, h2⟩

theorem Aligned.later (h : Aligned ls env) (l : Query × Executed) : Aligned (ls ++ [l]) env := by
  have hget : ∀ (i : ℕ) l', ls[i]? = some l' → (ls ++ [l])[i]? = some l' := by
    intro i l' hl'
    obtain ⟨hlt, -⟩ := List.getElem?_eq_some_iff.mp hl'
    exact (List.getElem?_append_left hlt).trans hl'
  refine ⟨fun i sql row hmem => ?_, fun i name column hlook => ?_⟩
  · obtain ⟨l', full, hl', hrest⟩ := h.rows i sql row hmem
    exact ⟨l', full, hget i l' hl', hrest⟩
  · obtain ⟨l', hl', hcolumn⟩ := h.cache i name column hlook
    exact ⟨l', hget i l' hl', hcolumn⟩

theorem Aligned.observe (h : Aligned ls env) (q : Query) {x : Executed} (hsql : x.sql = q.sql)
    (count : ℕ) :
    Aligned (ls ++ [(q, x)]) (observe ls.length q.sql count env ⟨x.rows, none⟩).1 := by
  have hlater := h.later (q, x)
  unfold Hiqlite.Sqlite.observe
  split
  · exact hlater
  · exact hlater
  · rename_i row rows err heq
    cases hrows : x.rows with
    | nil => simp [hrows] at heq
    | cons first rest =>
      simp only [hrows, Out.mk.injEq, cons.injEq] at heq
      obtain ⟨⟨rfl, rfl⟩, rfl⟩ := heq
      split_ifs
      · exact hlater
      · refine ⟨fun i sql row' hmem => ?_, hlater.cache⟩
        rcases mem_append.mp hmem with hold | hnew
        · exact hlater.rows i sql row' hold
        · -- the new row is the first one of this query
          cases mem_singleton.mp hnew
          exact ⟨(q, x), first, getElem?_concat_length, hsql, by simp [hrows],
            take_prefix _ _⟩

theorem Aligned.next {s s' : Progress A M L E} (h : Aligned ls s.ctx.env)
    (hindex : s.index = ls.length) {q : Query} {qs : List Query} {x : Executed}
    (hsteady : SteadyFrom X s ls (q :: qs)) (hnext : s.next? X q = some (x, s')) :
    Forall₂ (Exact ls) q.params x.bound ∧ Aligned (ls ++ [(q, x)]) s'.ctx.env ∧
      s'.index = (ls ++ [(q, x)]).length := by
  obtain ⟨y, ps, ctx, hp, hbind, hsql, rfl, hindex', henv⟩ := next?_eq_some hnext
  obtain ⟨hall, h'⟩ := Aligned.bind (by exact h) (hsteady.1 y (by rw [hp]; rfl)) hbind
  refine ⟨hall, ?_, by simp [hindex', hindex]⟩
  rw [henv, hindex]
  exact h'.observe q hsql _

theorem References.snoc (h : References ls) {l : Query × Executed}
    (hl : Forall₂ (Exact ls) l.1.params l.2.bound) : References (ls ++ [l]) := by
  intro k l' hl'
  rw [getElem?_append] at hl'
  split_ifs at hl' with hk
  · rw [take_append_of_le_length (Nat.le_of_lt hk)]
    exact h k l' hl'
  · have hk' : k - ls.length = 0 := by
      by_contra hne
      rw [getElem?_eq_none (by simp; omega)] at hl'
      cases hl'
    rw [hk'] at hl'
    cases hl'
    have hlen : k = ls.length := by omega
    rw [hlen, take_left]
    exact hl

end References

end Hiqlite.Sqlite
