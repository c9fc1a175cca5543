import Hiqlite.Lib.Consec
import Hiqlite.Sqlite.Transaction

/-!
# Q6 — migrations

A migration list is first compared with the table `_migrations`. Its first id says how much of the
table the client has left out. The scripts that are not in the table are then run, each one in a
transaction of its own that also writes its row.

* **`validated_eq_some_iff`**: the table has to be the beginning of the list;
* **`lastAppliedMigration_cases`**: validation leaves the file alone; **`migrateLoop_cases`**: the loop.
-/

namespace Hiqlite.Sqlite

open List Option Conn

/-! ## The table -/

structure MigrationRow where
  id : UInt32
  name : String
  ts : Int
  hash : String
  deriving DecidableEq

def MigrationRow.values (r : MigrationRow) : List Value :=
  [.integer r.id.toNat, .text r.name, .integer r.ts, .text r.hash]

def MigrationRow.applied (r : MigrationRow) : AppliedMigration := ⟨r.id, r.name, r.hash⟩

def Migration.applied (m : Migration) : AppliedMigration := ⟨m.id, m.name, m.hash⟩

def Migration.row (ts : ℕ) (m : Migration) : MigrationRow := ⟨m.id, m.name, ts, m.hash⟩

def NumberedFrom {α : Type} (id : α → UInt32) (k : ℕ) (l : List α) : Prop :=
  NumFrom k (l.map fun x => ((id x).toNat, x))

instance {α : Type} (id : α → UInt32) (k : ℕ) (l : List α) : Decidable (NumberedFrom id k l) :=
  inferInstanceAs (Decidable (NumFrom _ _))

section Numbered

variable {α : Type} {id : α → UInt32} {k : ℕ} {l l1 l2 : List α} {x : α}

theorem numberedFrom_cons :
    NumberedFrom id k (x :: l) ↔ (id x).toNat = k ∧ NumberedFrom id (k + 1) l := Iff.rfl

theorem numberedFrom_append :
    NumberedFrom id k (l1 ++ l2) ↔ NumberedFrom id k l1 ∧ NumberedFrom id (k + l1.length) l2 := by
  unfold NumberedFrom
  rw [map_append, numFrom_append, length_map]

section

variable (h : NumberedFrom id k l)
include h

theorem NumberedFrom.bounds (hx : x ∈ l) : k ≤ (id x).toNat ∧ (id x).toNat < k + l.length := by
  simpa using NumFrom.mem_bounds h (mem_map_of_mem hx)

theorem NumberedFrom.length_lt (hl : l ≠ []) : k + l.length ≤ UInt32.size := by
  induction l using List.reverseRecOn with
  | nil => exact absurd rfl hl
  | append_singleton l x _ =>
    have hlast := (numberedFrom_cons.mp (numberedFrom_append.mp h).2).1
    have hx := (id x).toNat_lt
    rw [List.length_append, List.length_singleton]
    simp only [UInt32.size]
    omega

theorem NumberedFrom.filter_ge (j : ℕ) :
    (l.filter fun x => decide (j ≤ (id x).toNat)) = l.drop (j - k) := by
  have hpurge := NumFrom.purge_eq (j := j) h
  rw [purge, List.filter_map, ← List.map_drop] at hpurge
  exact List.map_injective_iff.mpr (fun x y hxy => (Prod.mk.inj hxy).2) hpurge

theorem NumberedFrom.filter_lt (j : ℕ) :
    (l.filter fun x => decide ((id x).toNat < j)) = l.take (j - k) := by
  have htruncate := NumFrom.truncate_eq (j := j) h
  rw [truncate, List.filter_map, ← List.map_take] at htruncate
  exact List.map_injective_iff.mpr (fun x y hxy => (Prod.mk.inj hxy).2) htruncate

theorem NumberedFrom.drop (n : ℕ) (hn : n ≤ l.length) : NumberedFrom id (k + n) (l.drop n) := by
  rw [← List.take_append_drop n l, numberedFrom_append, List.length_take, min_eq_left hn] at h
  exact h.2

theorem NumberedFrom.getElem {i : ℕ} (hi : i < l.length) : (id l[i]).toNat = k + i := by
  have hdrop := h.drop i (by omega)
  rw [drop_eq_getElem_cons hi] at hdrop
  exact hdrop.1

theorem NumberedFrom.take (n : ℕ) : NumberedFrom id k (l.take n) := by
  rw [← take_append_drop n l] at h
  exact (numberedFrom_append.mp h).1

end

theorem numberedFrom_map {β : Type} {f : α → β} {id' : β → UInt32} (hf : ∀ x, id' (f x) = id x) :
    NumberedFrom id' k (l.map f) ↔ NumberedFrom id k l := by
  induction l generalizing k with
  | nil => rfl
  | cons x l ih => rw [map_cons, numberedFrom_cons, numberedFrom_cons, hf, ih]

end Numbered

/-! ## Validation -/

/-- `last_applied_migration` on the rows of the table. -/
def validated (rows : List MigrationRow) : List Migration → Option UInt32
  | [] => none
  | first :: rest =>
    if first.id > 1 ∧ UInt32.ofNat (rows.countP (·.id < first.id)) < first.id - 1 then none
    else
      checkApplied (first :: rest) (first.id - 1).toUInt64 (first.id - 1)
        ((rows.filter (first.id ≤ ·.id)).map MigrationRow.applied)

variable {rows : List MigrationRow}

/-- **The loop of the validation** compares the rows with the list from a position on. -/
theorem checkApplied_eq_some_iff {ms : List Migration} {offset : UInt64} {last last' : UInt32}
    {k : ℕ} {applied : List AppliedMigration} (hoffset : offset.toNat + k = last.toNat)
    (happlied : NumberedFrom AppliedMigration.id (last.toNat + 1) applied) :
    checkApplied ms offset last applied = some last' ↔
      applied <+: (ms.drop k).map Migration.applied ∧ last'.toNat = last.toNat + applied.length := by
  induction applied generalizing last k with
  | nil =>
    simp only [checkApplied, some.injEq, nil_prefix, true_and, length_nil,
      Nat.add_zero]
    rw [← UInt32.toNat_inj, eq_comm]
  | cons a as ih =>
    obtain ⟨hid, has⟩ := numberedFrom_cons.mp happlied
    have hlt := a.id.toNat_lt
    have hnext : last + 1 = a.id := by
      rw [← UInt32.toNat_inj, UInt32.toNat_add, hid]
      exact Nat.mod_eq_of_lt (by simpa using (show last.toNat + 1 < 2 ^ 32 by omega))
    have hindex : (a.id.toUInt64 - 1 - offset).toNat = k := by
      rw [UInt64.toNat_sub_of_le, UInt64.toNat_sub_of_le]
      · simp only [UInt32.toNat_toUInt64, UInt64.toNat_one]
        omega
      · rw [UInt64.le_iff_toNat_le]
        simp only [UInt32.toNat_toUInt64, UInt64.toNat_one]
        omega
      · rw [UInt64.le_iff_toNat_le, UInt64.toNat_sub_of_le]
        · simp only [UInt32.toNat_toUInt64, UInt64.toNat_one]
          omega
        · rw [UInt64.le_iff_toNat_le]
          simp only [UInt32.toNat_toUInt64, UInt64.toNat_one]
          omega
    rw [checkApplied, if_neg (not_not.mpr hnext), hindex]
    cases hk : ms[k]? with
    | none =>
      rw [drop_of_length_le (getElem?_eq_none_iff.mp hk)]
      simp
    | some m =>
      obtain ⟨hlen, hget⟩ := List.getElem?_eq_some_iff.mp hk
      rw [List.drop_eq_getElem_cons hlen, hget, List.map_cons, List.cons_prefix_cons]
      have hsame : (a = m.applied) ↔ ¬ (a.id ≠ m.id ∨ a.name ≠ m.name ∨ a.hash ≠ m.hash) := by
        have : a = m.applied ↔ a.id = m.id ∧ a.name = m.name ∧ a.hash = m.hash := by
          cases a
          simp [Migration.applied]
        rw [this]
        tauto
      by_cases hm : a.id ≠ m.id ∨ a.name ≠ m.name ∨ a.hash ≠ m.hash
      · simp [hm, hsame]
      · have hlen' : a.id.toNat + as.length = last.toNat + (a :: as).length := by
          rw [hid, length_cons]
          omega
        simp only [hm, ↓reduceIte, hsame, not_false_eq_true, true_and]
        rw [ih (k := k + 1) (by omega) (by rwa [hid]), hlen']

section

variable (h : NumberedFrom MigrationRow.id 1 rows)
include h

theorem countP_eq (id : UInt32) : rows.countP (·.id < id) = min (id.toNat - 1) rows.length := by
  have hlt : (rows.filter fun r => decide (r.id < id)) = rows.take (id.toNat - 1) := by
    rw [← h.filter_lt id.toNat]
    exact filter_congr fun r _ => decide_eq_decide.mpr UInt32.lt_iff_toNat_lt
  rw [countP_eq_length_filter, hlt, length_take]

theorem filter_le_eq (id : UInt32) :
    (rows.filter fun r => decide (id ≤ r.id)) = rows.drop (id.toNat - 1) := by
  rw [← h.filter_ge id.toNat]
  exact filter_congr fun r _ => decide_eq_decide.mpr UInt32.le_iff_toNat_le

/-- **The validation succeeds** iff the table from the first id on is the beginning of the list. A
list from id 0 is compared with nothing. -/
theorem validated_eq_some_iff {first : Migration} {rest : List Migration} {last : UInt32} :
    validated rows (first :: rest) = some last ↔
      (first.id = 0 ∧ rows = [] ∧ last = 0 - 1) ∨
      (1 ≤ first.id.toNat ∧ first.id.toNat ≤ rows.length + 1 ∧
        (rows.drop (first.id.toNat - 1)).map MigrationRow.applied <+:
          (first :: rest).map Migration.applied ∧ last.toNat = rows.length) := by
  rw [validated, filter_le_eq h]
  by_cases hzero : first.id = 0
  · have hone : ¬ first.id > 1 := by
      rw [hzero]
      decide
    rw [if_neg (fun hand => hone hand.1)]
    simp only [hzero, UInt32.toNat_zero, Nat.zero_sub, drop_zero]
    cases rows with
    | nil =>
      simp only [map_nil, checkApplied, some.injEq]
      constructor
      · exact fun heq => .inl ⟨trivial, trivial, heq.symm⟩
      · rintro (⟨-, -, rfl⟩ | ⟨hle, -⟩)
        · rfl
        · omega
    | cons r rows =>
      have hid : r.id.toNat = 1 := h.1
      have hne : (0 - 1 : UInt32) + 1 ≠ r.id := fun heq => by
        rw [← heq] at hid
        exact absurd hid (by decide)
      simp only [map_cons, checkApplied, MigrationRow.applied, if_pos hne]
      constructor
      · exact fun heq => by cases heq
      · rintro (⟨-, heq, -⟩ | ⟨hle, -⟩)
        · cases heq
        · omega
  · have hpos : 1 ≤ first.id.toNat := by
      rw [Nat.one_le_iff_ne_zero]
      exact fun heq => hzero (UInt32.toNat_inj.mp heq)
    have hpred : (first.id - 1).toNat = first.id.toNat - 1 := by
      rw [UInt32.toNat_sub_of_le]
      · rfl
      · rw [UInt32.le_iff_toNat_le]
        exact hpos
    have hcount : (first.id > 1 ∧ UInt32.ofNat (rows.countP (·.id < first.id)) < first.id - 1) ↔
        rows.length + 1 < first.id.toNat := by
      have hlt := first.id.toNat_lt
      rw [countP_eq h, gt_iff_lt, UInt32.lt_iff_toNat_lt, UInt32.lt_iff_toNat_lt, hpred,
        UInt32.toNat_ofNat_of_lt' (by simp only [UInt32.size]; omega), UInt32.toNat_one]
      omega
    by_cases hle : first.id.toNat ≤ rows.length + 1
    · rw [if_neg (fun hand => absurd (hcount.mp hand) (by omega))]
      have hdrop : NumberedFrom AppliedMigration.id ((first.id - 1).toNat + 1)
          ((rows.drop (first.id.toNat - 1)).map MigrationRow.applied) := by
        rw [hpred, Nat.add_comm]
        exact (numberedFrom_map fun _ => rfl).mpr (h.drop _ (by omega))
      rw [checkApplied_eq_some_iff (k := 0) (UInt32.toNat_toUInt64 _) hdrop, hpred, drop_zero, length_map,
        length_drop]
      constructor
      · rintro ⟨hfirsts, hlast⟩
        exact .inr ⟨hpos, hle, hfirsts, by omega⟩
      · rintro (⟨heq, -⟩ | ⟨-, -, hfirsts, hlast⟩)
        · exact absurd heq hzero
        · exact ⟨hfirsts, by omega⟩
    · rw [if_pos (hcount.mpr (by omega))]
      constructor
      · exact fun heq => by cases heq
      · rintro (⟨heq, -⟩ | ⟨-, hle', -⟩)
        · exact absurd heq hzero
        · exact absurd hle' hle

end

/-! ## What is asked of SQLite and of the scripts -/

variable {A M L E S : Type}

/-- SQLite on `_migrations`, whose rows are read in the order of their ids, in the databases `D` that
come up. No trigger writes to the table, and its rows can be read. -/
structure ServesMigrations (X : Engine A L E S) (table : A → Option (List MigrationRow))
    (D : A → Prop) : Prop where
  create : ∀ e a l s, D a → X.own a l .createMigrations = .ok s →
    ((X.run e true a l s []).err = none → (X.run e true a l s []).undo = false ∧
      table (X.run e true a l s []).app = some ((table a).getD []) ∧ D (X.run e true a l s []).app) ∧
    ((table a).isSome ∨ (X.run e true a l s []).err ≠ none → (X.run e true a l s []).app = a)
  count : ∀ e a l s (id : UInt32), D a → X.own a l .countMigrations = .ok s →
    (X.run e true a l s [.integer id.toNat]).app = a ∧ ∀ rows, table a = some rows →
      ∀ row ∈ (X.run e true a l s [.integer id.toNat]).rows,
        row = [.integer (rows.countP (·.id < id))]
  list : ∀ e a l s (id : UInt32), D a → X.own a l .listMigrations = .ok s →
    (X.run e true a l s [.integer id.toNat]).app = a ∧ ∀ rows, table a = some rows →
      X.calls a l s = [] ∧ (X.run e true a l s [.integer id.toNat]).err = none ∧
      (X.run e true a l s [.integer id.toNat]).rows =
        (rows.filter (id ≤ ·.id)).map MigrationRow.values
  insert : ∀ e a l s (r : MigrationRow) rows, D a → X.own a l .insertMigration = .ok s →
    table a = some rows → (X.run e false a l s r.values).err = none →
      table (X.run e false a l s r.values).app = some (rows.orderedInsert (·.id ≤ ·.id) r) ∧
        D (X.run e false a l s r.values).app

/-- A text without transaction control that leaves `_migrations` to the writer, also by its triggers, in
the databases `D`. -/
def PlainText (X : Engine A L E S) (table : A → Option (List MigrationRow)) (D : A → Prop)
    (text : String) : Prop :=
  ∀ a l st, D a → X.prepare a l text = .ok st → st.control = false ∧
    ∀ s, st = .plain s → ∀ e auto ps, table (X.run e auto a l s ps).app = table a ∧
      ((X.run e auto a l s ps).err = none → D (X.run e auto a l s ps).app)

def PlainScripts (X : Engine A L E S) (table : A → Option (List MigrationRow)) (D : A → Prop)
    (ms : List Migration) : Prop :=
  ∀ m ∈ ms, ∀ text ∈ X.split m.content, PlainText X table D text

section Validation

variable {X : Engine A L E S} {table : A → Option (List MigrationRow)} {D : A → Prop}
  {c c' : Conn A M L E} {rows : List MigrationRow}

theorem exec_plain_idle (hc : c.txn = none) (s : S) (ps : List Value) :
    ((c.exec X (.plain s) ps).1.file = c.file ∧ ∃ f ∈ X.calls c.file.app c.loc s,
      (c.exec X (.plain s) ps).2 = ⟨[], some (.forbidden f)⟩) ∨
    (c.exec X (.plain s) ps).2 = ⟨(X.run (c.outside 0) true c.file.app c.loc s ps).rows,
        (X.run (c.outside 0) true c.file.app c.loc s ps).err.map .fault⟩ ∧
      (c.exec X (.plain s) ps).1.file =
        if (X.run (c.outside 0) true c.file.app c.loc s ps).undo then c.file
        else { c.file with app := (X.run (c.outside 0) true c.file.app c.loc s ps).app } := by
  have htick : c.tick.txn = none := hc
  have hdb : c.tick.db = c.file := db_of_autocommit hc
  have hloc : c.tick.loc = c.loc := rfl
  rw [exec_plain, runPlain, hdb]
  split
  · rename_i f hf
    exact .inl ⟨rfl, f, mem_of_find?_eq_some hf, rfl⟩
  · right
    simp only [htick, hloc, isNone_none]
    refine ⟨trivial, ?_⟩
    split_ifs with hundo
    · exact undone_file
    · rfl

theorem execute_own_cases (own : Own) (ps : List Value) :
    (∃ e, c.execute X own ps = (c, .error e)) ∨
    ∃ s, X.own c.db.app c.loc own = .ok s ∧
      ((∃ e, c.execute X own ps = ((c.exec X (.plain s) ps).1, .error e)) ∨
        (c.exec X (.plain s) ps).2 = ⟨[], none⟩ ∧
          ∃ n, c.execute X own ps = ((c.exec X (.plain s) ps).1, .ok n)) := by
  unfold Conn.execute
  cases hown : X.own c.db.app c.loc own with
  | error f => exact .inl ⟨_, rfl⟩
  | ok s =>
    dsimp only
    unfold executeStmt
    split
    · exact .inl ⟨_, rfl⟩
    · split
      · exact .inl ⟨_, rfl⟩
      · unfold rawExecute
        split
        · exact .inl ⟨_, rfl⟩
        · refine .inr ⟨s, rfl, ?_⟩
          rcases c.exec X (.plain s) ps with ⟨c', ⟨_ | ⟨row, rows⟩, _ | e⟩⟩
          · exact .inr ⟨rfl, _, rfl⟩
          all_goals exact .inl ⟨_, rfl⟩

theorem query_own_cases (own : Own) (ps : List Value) : (∃ e, c.query X own ps = (c, .error e)) ∨
    ∃ s, X.own c.db.app c.loc own = .ok s ∧
      c.query X own ps = ((c.exec X (.plain s) ps).1, .ok (c.exec X (.plain s) ps).2) := by
  unfold query
  cases hown : X.own c.db.app c.loc own with
  | error f => exact .inl ⟨_, rfl⟩
  | ok s =>
    dsimp only
    split
    · exact .inl ⟨_, rfl⟩
    · exact .inr ⟨s, rfl, rfl⟩

theorem create_spec (hT : ServesMigrations X table D) (hc : c.txn = none) (hD : D c.file.app) :
    (table (c.execute X .createMigrations []).1.file.app).getD [] = (table c.file.app).getD [] ∧
    ((table c.file.app).isSome → (c.execute X .createMigrations []).1.file = c.file) ∧
    D (c.execute X .createMigrations []).1.file.app ∧
    ∀ n, (c.execute X .createMigrations []).2 = .ok n →
      (table (c.execute X .createMigrations []).1.file.app).isSome := by
  have hdb : c.db = c.file := db_of_autocommit hc
  rcases execute_own_cases (X := X) (c := c) .createMigrations [] with ⟨e, heq⟩ | ⟨s, hown, hrun⟩
  · rw [heq]
    exact ⟨rfl, fun _ => rfl, hD, fun n hn => by cases hn⟩
  · rw [hdb] at hown
    obtain ⟨hok, hsame⟩ := hT.create (c.outside 0) c.file.app c.loc s hD hown
    have hfst : (c.execute X .createMigrations []).1 = (c.exec X (.plain s) []).1 := by
      rcases hrun with ⟨e, heq⟩ | ⟨-, n, heq⟩ <;> rw [heq]
    have hfails : (c.exec X (.plain s) []).1.file = c.file → (c.exec X (.plain s) []).2.err ≠ none →
        (table (c.exec X (.plain s) []).1.file.app).getD [] = (table c.file.app).getD [] ∧
        ((table c.file.app).isSome → (c.exec X (.plain s) []).1.file = c.file) ∧
        D (c.exec X (.plain s) []).1.file.app ∧
        ∀ n, (c.execute X .createMigrations []).2 = .ok n →
          (table (c.exec X (.plain s) []).1.file.app).isSome := by
      intro hfile herr
      rw [hfile]
      refine ⟨rfl, fun _ => rfl, hD, fun n hn => ?_⟩
      rcases hrun with ⟨e, heq⟩ | ⟨hnone, -⟩
      · rw [heq] at hn
        cases hn
      · rw [hnone] at herr
        exact absurd rfl herr
    rw [hfst]
    rcases exec_plain_idle (X := X) hc s [] with ⟨hfile, f, -, hout⟩ | ⟨hout, hfile⟩
    · exact hfails hfile (by rw [hout]; simp)
    · cases herr : (X.run (c.outside 0) true c.file.app c.loc s []).err with
      | some f =>
        have happ := hsame (.inr (by rw [herr]; simp))
        exact hfails (by rw [hfile, happ, ite_self]) (by rw [hout, herr]; simp)
      | none =>
        obtain ⟨hundo, htable, hD'⟩ := hok herr
        rw [hfile, hundo]
        simp only [Bool.false_eq_true, ↓reduceIte, htable, getD_some, isSome_some,
          implies_true, and_true, true_and]
        exact ⟨fun hsome => by rw [hsame (.inl hsome)], hD'⟩

theorem query_spec {own : Own} {ps : List Value}
    (hown : ∀ e a l s, D a → X.own a l own = .ok s → (X.run e true a l s ps).app = a)
    (hc : c.txn = none) (hD : D c.file.app) :
    (c.query X own ps).1.file = c.file ∧ ∀ out, (c.query X own ps).2 = .ok out →
      ∃ s, X.own c.file.app c.loc own = .ok s ∧
        ((∃ f ∈ X.calls c.file.app c.loc s, out = ⟨[], some (.forbidden f)⟩) ∨
          out = ⟨(X.run (c.outside 0) true c.file.app c.loc s ps).rows,
            (X.run (c.outside 0) true c.file.app c.loc s ps).err.map .fault⟩) := by
  have hdb : c.db = c.file := db_of_autocommit hc
  rcases query_own_cases (X := X) (c := c) own ps with ⟨e, heq⟩ | ⟨s, hs, heq⟩
  · rw [heq]
    exact ⟨rfl, fun out hout => by cases hout⟩
  · rw [hdb] at hs
    rw [heq]
    have happ := hown (c.outside 0) c.file.app c.loc s hD hs
    rcases exec_plain_idle (X := X) hc s ps with ⟨hfile, f, hf, hout⟩ | ⟨hout, hfile⟩
    · refine ⟨hfile, fun out ho => ⟨s, hs, .inl ⟨f, hf, ?_⟩⟩⟩
      rw [← hout, Except.ok.inj ho]
    · rw [happ, ite_self] at hfile
      refine ⟨hfile, fun out ho => ⟨s, hs, .inr ?_⟩⟩
      rw [← hout, Except.ok.inj ho]

theorem asU32_natCast {n : ℕ} (h : n < 2 ^ 32) : asU32 (.integer n) = some (UInt32.ofNat n) := by
  rw [asU32, if_pos ⟨by omega, by omega⟩, Int.toNat_natCast]

theorem asU32_integer (id : UInt32) : asU32 (.integer id.toNat) = some id := by
  rw [asU32_natCast id.toNat_lt, UInt32.ofNat_toNat]

theorem ofRow_values (r : MigrationRow) : AppliedMigration.ofRow r.values = some r.applied := by
  simp [MigrationRow.values, AppliedMigration.ofRow, asU32_integer, MigrationRow.applied]

theorem mapM_ofRow (rows : List MigrationRow) :
    (rows.map MigrationRow.values).mapM AppliedMigration.ofRow =
      some (rows.map MigrationRow.applied) := by
  induction rows with
  | nil => rfl
  | cons r rows ih => simp [mapM_cons, ofRow_values, ih]

section

variable (hT : ServesMigrations X table D) (hc : c.txn = none) (hD : D c.file.app)
  (hrows : table c.file.app = some rows)
include hT hc hD hrows

theorem list_spec (id : UInt32) :
    (c.query X .listMigrations [.integer id.toNat]).1.file = c.file ∧
      ∀ out, (c.query X .listMigrations [.integer id.toNat]).2 = .ok out →
        out = ⟨(rows.filter (id ≤ ·.id)).map MigrationRow.values, none⟩ := by
  obtain ⟨hfile, hread⟩ := query_spec (fun e a l s ha hs => (hT.list e a l s id ha hs).1) hc hD
  refine ⟨hfile, fun out hout => ?_⟩
  obtain ⟨s, hs, hcases⟩ := hread out hout
  obtain ⟨hcalls, herr, hlist⟩ := (hT.list (c.outside 0) _ _ s id hD hs).2 rows hrows
  rcases hcases with ⟨f, hf, -⟩ | rfl
  · simp [hcalls] at hf
  · rw [herr, hlist]
    rfl

variable (hnum : NumberedFrom MigrationRow.id 1 rows)
include hnum

theorem countApplied_spec (id : UInt32) :
    (countApplied X c id).1.file = c.file ∧ ∀ n, (countApplied X c id).2 = .ok n →
      (n < id - 1 ↔ id > 1 ∧ UInt32.ofNat (rows.countP (·.id < id)) < id - 1) := by
  obtain ⟨hfile, hread⟩ := query_spec (fun e a l s ha hs => (hT.count e a l s id ha hs).1) hc hD
  unfold countApplied
  split_ifs with hone
  · split <;> rename_i heq <;> rw [heq] at hfile hread
    · exact ⟨hfile, fun n hn => by cases hn⟩
    · rename_i row rest err
      obtain ⟨s, hs, ⟨f, -, hout⟩ | hout⟩ := hread _ rfl
      · cases hout
      · have hrow := (hT.count (c.outside 0) _ _ s id hD hs).2 rows hrows row
          (by rw [← (Out.mk.inj hout).1]; exact mem_cons_self)
        subst hrow
        have hlen : rows.countP (·.id < id) < 2 ^ 32 := by
          have := id.toNat_lt
          rw [countP_eq hnum]
          omega
        rw [head?_cons, bind_some, asU32_natCast hlen]
        refine ⟨hfile, fun n hn => ?_⟩
        obtain rfl := Except.ok.inj hn
        exact ⟨fun h => ⟨hone, h⟩, And.right⟩
    · exact ⟨hfile, fun n hn => by cases hn⟩
    · exact ⟨hfile, fun n hn => by cases hn⟩
  · refine ⟨rfl, fun n hn => ?_⟩
    cases hn
    exact ⟨fun h => absurd h (by simp), fun h => absurd h.1 hone⟩

/-- **`last_applied_migration`** leaves the file alone. Unless a query fails, it says what the rows
say. -/
theorem lastAppliedMigration_cases (first : Migration) (rest : List Migration) :
    ∃ c', c'.file = c.file ∧ c'.txn = none ∧
      ((∃ e, lastAppliedMigration X c (first :: rest) = some (c', .error e)) ∨
        lastAppliedMigration X c (first :: rest) =
          (validated rows (first :: rest)).map fun last => (c', .ok last)) := by
  obtain ⟨hfile, hcount⟩ := countApplied_spec hT hc hD hrows hnum first.id
  have htxn : (countApplied X c first.id).1.txn = none := countApplied_txn_eq_none hc _
  rw [lastAppliedMigration, validated]
  rcases hres : countApplied X c first.id with ⟨c1, e | n⟩ <;> rw [hres] at hfile hcount htxn
  · exact ⟨c1, hfile, htxn, .inl ⟨_, rfl⟩⟩
  · dsimp only at hfile htxn hcount ⊢
    have hcount := hcount n rfl
    by_cases hlt : n < first.id - 1
    · rw [if_pos hlt, if_pos (hcount.mp hlt)]
      exact ⟨c1, hfile, htxn, .inr rfl⟩
    · rw [if_neg hlt, if_neg (fun h => hlt (hcount.mpr h))]
      obtain ⟨hfile2, hread⟩ := list_spec hT htxn (hfile ▸ hD) (hfile ▸ hrows) first.id
      have htxn2 := query_txn_eq_none (X := X) htxn .listMigrations
        [.integer first.id.toNat]
      rcases hq : c1.query X .listMigrations [.integer first.id.toNat] with ⟨c2, e | rs⟩ <;>
        rw [hq] at hfile2 hread htxn2
      · exact ⟨c2, hfile2.trans hfile, htxn2, .inl ⟨_, rfl⟩⟩
      · refine ⟨c2, hfile2.trans hfile, htxn2, .inr ?_⟩
        obtain rfl := hread rs rfl
        simp only [mapM_ofRow, bind_eq_bind, bind_some]
        cases checkApplied (first :: rest) (first.id - 1).toUInt64 (first.id - 1)
          ((rows.filter (first.id ≤ ·.id)).map MigrationRow.applied) <;> rfl

end

end Validation

/-! ## One script as a whole -/

/-- `BEGIN` and `apply_migration`, if all of it succeeds. -/
def runScript (X : Engine A L E S) (ts : ℕ) (c : Conn A M L E) (m : Migration) :
    Option (Conn A M L E) :=
  match c.exec X .begin [] with
  | (_, ⟨_, some _⟩) => none
  | (c, ⟨_, none⟩) =>
    match applyMigration X c m ts with
    | (_, .error _) => none
    | (c, .ok _) => some c

def ScriptStep (X : Engine A L E S) (d : Db A M) (m : Migration) (d' : Db A M) : Prop :=
  ∃ ts, ∃ c c' : Conn A M L E, c.txn = none ∧ c.file = d ∧ runScript X ts c m = some c' ∧
    c'.file = d'

section Scripts

variable {X : Engine A L E S} {table : A → Option (List MigrationRow)} {D : A → Prop}
  {c c' : Conn A M L E} {rows : List MigrationRow} {m : Migration}

theorem exec_plain_db (hX : ReportsUndo X) (hc : c.txn.isSome) (s : S) (ps : List Value)
    (herr : (c.exec X (.plain s) ps).2.err = none) :
    (c.exec X (.plain s) ps).1.db.app = (X.run (c.outside 0) false c.db.app c.loc s ps).app ∧
      (X.run (c.outside 0) false c.db.app c.loc s ps).err = none := by
  obtain ⟨t, ht⟩ := isSome_iff_exists.mp hc
  have htick : c.tick.txn = some t := ht
  have hdb : c.tick.db = c.db := rfl
  have hloc : c.tick.loc = c.loc := rfl
  rw [exec_plain, runPlain] at herr ⊢
  split at herr
  · cases herr
  · simp only [htick, hdb, hloc, isNone_some, map_eq_none_iff] at herr ⊢
    have hundo : (X.run (c.outside 0) false c.db.app c.loc s ps).undo = false := by
      by_contra htrue
      exact hX _ _ _ _ _ (by simpa using htrue) herr
    rw [hundo]
    exact ⟨rfl, herr⟩

theorem scriptStatement_spec (hX : ReportsUndo X) (hc : c.txn.isSome) {st : Stmt S}
    (hst : st.control = false) (htable : ∀ s, st = .plain s → ∀ e auto ps,
      table (X.run e auto c.db.app c.loc s ps).app = table c.db.app ∧
        ((X.run e auto c.db.app c.loc s ps).err = none → D (X.run e auto c.db.app c.loc s ps).app)) :
    (c.executeStmt X st []).1.file = c.file ∧ ∀ n, (c.executeStmt X st []).2 = .ok n →
      (c.executeStmt X st []).1.txn.isSome ∧ D (c.executeStmt X st []).1.db.app ∧
        table (c.executeStmt X st []).1.db.app = table c.db.app := by
  obtain ⟨hfile, hopen⟩ := exec_file hX hc hst []
  unfold executeStmt
  split
  · exact ⟨rfl, fun n hn => by cases hn⟩
  · simp only [bindAll, rawExecute]
    split
    · exact ⟨rfl, fun n hn => by cases hn⟩
    · rcases hout : c.exec X st [] with ⟨c1, ⟨_ | ⟨row, rest⟩, _ | e⟩⟩ <;> rw [hout] at hfile hopen
      · refine ⟨hfile, fun _ _ => ⟨hopen rfl, ?_⟩⟩
        cases st with
        | plain s =>
          obtain ⟨happ, herr⟩ := exec_plain_db hX hc s [] (by rw [hout])
          rw [hout] at happ
          dsimp only [affected] at happ ⊢
          rw [happ]
          obtain ⟨hsame, hD'⟩ := htable s rfl (c.outside 0) false []
          exact ⟨hD' herr, hsame⟩
        | vacuum =>
          obtain ⟨t, ht⟩ := isSome_iff_exists.mp hc
          simp [exec, ht, execIn, failed] at hout
        | _ => cases hst
      all_goals exact ⟨hfile, fun n hn => by cases hn⟩

theorem migrationStatements_spec (hX : ReportsUndo X) {texts : List String}
    (htexts : ∀ text ∈ texts, PlainText X table D text) (hc : c.txn.isSome) (hD : D c.db.app) :
    (migrationStatements X c texts).1.file = c.file ∧
      ((migrationStatements X c texts).2 = .ok () → (migrationStatements X c texts).1.txn.isSome ∧
        D (migrationStatements X c texts).1.db.app ∧
        table (migrationStatements X c texts).1.db.app = table c.db.app) := by
  induction texts generalizing c with
  | nil => exact ⟨rfl, fun _ => ⟨hc, hD, rfl⟩⟩
  | cons text texts ih =>
    unfold migrationStatements
    cases hprep : c.prepare X text with
    | error e => exact ⟨rfl, fun h => by cases h⟩
    | ok st =>
      have hst : X.prepare c.db.app c.loc text = .ok st := by
        unfold prepare at hprep
        cases hp : X.prepare c.db.app c.loc text with
        | error f =>
          rw [hp] at hprep
          cases hprep
        | ok st' =>
          rw [hp] at hprep
          cases hprep
          rfl
      obtain ⟨hcontrol, htable⟩ := htexts text mem_cons_self _ _ _ hD hst
      obtain ⟨hfile, hok⟩ := scriptStatement_spec hX hc hcontrol htable
      dsimp only
      rcases hrun : c.executeStmt X st [] with ⟨c1, e | n⟩ <;> rw [hrun] at hfile hok
      · exact ⟨hfile, fun h => by cases h⟩
      · obtain ⟨hopen, hD', hsame⟩ := hok n rfl
        obtain ⟨hfile', hok'⟩ :=
          ih (fun text' h => htexts text' (mem_cons_of_mem _ h)) hopen hD'
        refine ⟨hfile'.trans hfile, fun h => ?_⟩
        obtain ⟨hopen', hD'', hsame'⟩ := hok' h
        exact ⟨hopen', hD'', hsame'.trans hsame⟩

theorem orderedInsert_last {r : MigrationRow} (h : ∀ x ∈ rows, x.id < r.id) :
    rows.orderedInsert (·.id ≤ ·.id) r = rows ++ [r] := by
  induction rows with
  | nil => rfl
  | cons x rows ih =>
    have hx : ¬ r.id ≤ x.id := UInt32.not_le.mpr (h x mem_cons_self)
    rw [orderedInsert_cons, if_neg hx, ih fun y hy => h y (mem_cons_of_mem _ hy)]
    rfl

theorem applyMigration_cases (hX : ReportsUndo X) (hT : ServesMigrations X table D)
    (hm : PlainScripts X table D [m]) (hc : c.txn.isSome) (hD : D c.db.app)
    (hrows : table c.db.app = some rows)
    (hlt : ∀ r ∈ rows, r.id < m.id) (ts : ℕ) : ∃ c', c'.txn = none ∧
      ((∃ e, applyMigration X c m ts = (c', .error e) ∧ c'.file = c.file) ∨
        applyMigration X c m ts = (c', .ok ()) ∧ D c'.file.app ∧
          table c'.file.app = some (rows ++ [m.row ts])) := by
  obtain ⟨hfile, hok⟩ := migrationStatements_spec hX (hm m mem_cons_self) hc hD
  unfold applyMigration
  rcases hrun : migrationStatements X c (X.split m.content) with ⟨c1, e | _⟩ <;>
    rw [hrun] at hfile hok
  · exact ⟨_, finish_txn, .inl ⟨_, rfl, finish_file.trans hfile⟩⟩
  · obtain ⟨hopen, hD1, hsame⟩ := hok rfl
    dsimp only at hopen hD1 hsame hfile ⊢
    rcases execute_own_cases (X := X) (c := c1) .insertMigration (m.row ts).values with
      ⟨e, heq⟩ | ⟨s, hs, hins⟩
    · rw [show [Value.integer m.id.toNat, .text m.name, .integer ts, .text m.hash] =
        (m.row ts).values from rfl, heq]
      exact ⟨_, finish_txn, .inl ⟨_, rfl, finish_file.trans hfile⟩⟩
    · have hplain : (Stmt.plain s).control = false := rfl
      obtain ⟨hfile2, hopen2⟩ := exec_file hX hopen hplain (m.row ts).values
      rw [show [Value.integer m.id.toNat, .text m.name, .integer ts, .text m.hash] =
        (m.row ts).values from rfl]
      rcases hins with ⟨e, heq⟩ | ⟨hnone, n, heq⟩
      · rw [heq]
        exact ⟨_, finish_txn, .inl ⟨_, rfl, (finish_file.trans hfile2).trans hfile⟩⟩
      · rw [heq]
        dsimp only
        obtain ⟨happ, herr⟩ := exec_plain_db hX hopen s _ (congrArg Out.err hnone)
        obtain ⟨hinserted, hD2⟩ := hT.insert _ _ _ _ _ rows hD1 hs (hsame.trans hrows) herr
        rw [orderedInsert_last hlt, ← happ] at hinserted
        rw [← happ] at hD2
        obtain ⟨t, ht⟩ := isSome_iff_exists.mp (hopen2 (congrArg Out.err hnone))
        rcases exec_commit (X := X) ht with ⟨f, -, hfault, hfile3⟩ | ⟨-, hcommit, hdb, -⟩
        · rcases hend : (c1.exec X (.plain s) (m.row ts).values).1.exec X .commit [] with
            ⟨c3, ⟨rs, _ | e⟩⟩ <;> rw [hend] at hfault hfile3
          · cases hfault
          · exact ⟨_, finish_txn, .inl ⟨_, rfl,
              ((finish_file.trans hfile3).trans hfile2).trans hfile⟩⟩
        · rcases hend : (c1.exec X (.plain s) (m.row ts).values).1.exec X .commit [] with
            ⟨c3, ⟨rs, _ | e⟩⟩ <;> rw [hend] at hcommit hdb
          · refine ⟨_, finish_txn, .inr ⟨rfl, ?_⟩⟩
            rw [finish_file, hdb]
            exact ⟨hD2, hinserted⟩
          · cases hcommit

end Scripts

/-! ## The loop -/

section Loop

variable {X : Engine A L E S} {table : A → Option (List MigrationRow)} {D : A → Prop}
  {c c' : Conn A M L E} {rows : List MigrationRow} {ms : List Migration}

theorem PlainScripts.mono {ms' : List Migration} (h : PlainScripts X table D ms) (hsub : ms' ⊆ ms) :
    PlainScripts X table D ms' := fun m hm => h m (hsub hm)

/-- **The loop of `migrate`** runs complete scripts, one after the other, and stops at the first one
that fails. -/
theorem migrateLoop_cases (hX : ReportsUndo X) (hT : ServesMigrations X table D)
    (hms : PlainScripts X table D ms) (hc : c.txn = none) (hD : D c.file.app)
    (hrows : table c.file.app = some rows)
    (hnum : NumberedFrom MigrationRow.id 1 rows) {last : UInt32} (hlast : last.toNat = rows.length)
    (hnext : NumberedFrom Migration.id (rows.length + 1) ms) (ts : ℕ) :
    ∃ done c1, done <+: ms ∧ c1.txn = none ∧ D c1.file.app ∧
      Path (ScriptStep X) c.file done c1.file ∧
      table c1.file.app = some (rows ++ done.map (Migration.row ts)) ∧
      (done = ms ∧ migrateLoop X ts c last ms = some (c1, .ok ()) ∨
        ∃ c' e, migrateLoop X ts c last ms = some (c', .error e) ∧ c'.file = c1.file) := by
  induction ms generalizing c rows last with
  | nil => exact ⟨[], c, nil_prefix, hc, hD, .nil, by simpa using hrows, .inl ⟨rfl, rfl⟩⟩
  | cons m ms ih =>
    obtain ⟨hid, hnext⟩ := numberedFrom_cons.mp hnext
    have hlt := m.id.toNat_lt
    have hm : ¬ m.id ≠ last + 1 := by
      rw [not_not, ← UInt32.toNat_inj, UInt32.toNat_add, hlast, hid]
      exact (Nat.mod_eq_of_lt (by simpa using (show rows.length + 1 < 2 ^ 32 by omega))).symm
    rw [migrateLoop, if_neg hm]
    rcases exec_begin (X := X) (c := c) hc with ⟨f, hb⟩ | hb <;> rw [hb]
    · exact ⟨[], c, nil_prefix, hc, hD, .nil, by simpa using hrows, .inr ⟨_, _, rfl, rfl⟩⟩
    · dsimp only
      have hbelow : ∀ r ∈ rows, r.id < m.id := fun r hr => by
        rw [UInt32.lt_iff_toNat_lt, hid]
        have := (hnum.bounds hr).2
        omega
      obtain ⟨c1, htxn, ⟨e, heq, hfile⟩ | ⟨heq, hD1, htable⟩⟩ :=
        applyMigration_cases (c := { c.tick with txn := some ⟨c.file, c.loc, [], false⟩ })
          hX hT (hms.mono (by simp)) rfl hD hrows hbelow ts
      · rw [heq]
        exact ⟨[], c, nil_prefix, hc, hD, .nil, by simpa using hrows, .inr ⟨_, _, rfl, hfile⟩⟩
      · rw [heq]
        dsimp only
        have hstep : ScriptStep X c.file m c1.file := by
          refine ⟨ts, c, c1, hc, rfl, ?_, rfl⟩
          rw [runScript, hb]
          dsimp only
          rw [heq]
        have hnum' : NumberedFrom MigrationRow.id 1 (rows ++ [m.row ts]) := by
          refine numberedFrom_append.mpr ⟨hnum, numberedFrom_cons.mpr ⟨?_, trivial⟩⟩
          rw [Nat.add_comm, ← hid]
          rfl
        have hlen : m.id.toNat = (rows ++ [m.row ts]).length := by simp [hid]
        obtain ⟨done, c2, hfirsts, htxn2, hD2, hpath, htable2, hend⟩ :=
          ih (hms.mono (by simp)) htxn hD1 htable hnum' hlen (by simpa using hnext)
        refine ⟨m :: done, c2, cons_prefix_cons.mpr ⟨rfl, hfirsts⟩, htxn2, hD2,
          (Path.single hstep).trans hpath, ?_, ?_⟩
        · rw [htable2, append_assoc]
          rfl
        · rcases hend with ⟨rfl, hend⟩ | hend
          · exact .inl ⟨rfl, hend⟩
          · exact .inr hend

end Loop

end Hiqlite.Sqlite
