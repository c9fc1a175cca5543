import Hiqlite.Sqlite.Migrate

/-!
# Q7 — migrations run once, in order and as a whole

* **`migrates_iff`**: a request does what it is for, except that a list from id 0 is skipped on an
  empty table; `list_from_zero_is_skipped`.
-/

namespace Hiqlite.Sqlite

open List Option
open Migration (row)

variable {A M L E S : Type}

/-! ## What a request is for -/

def migrationTs (id : Option LogId) : ℕ := (id.map LogId.index).getD 0

def created (X : Engine A L E S) (c : Conn A M L E) : Db A M :=
  (c.execute X .createMigrations []).1.file

def pending (rows : List MigrationRow) (ms : List Migration) : List Migration :=
  ms.filter fun m => rows.length + 1 ≤ m.id.toNat

/-- **The scripts run once, in order and as a whole.** -/
structure Migrates (X : Engine A L E S) (table : A → Option (List MigrationRow))
    (c : Conn A M L E) (rows : List MigrationRow) (ms : List Migration) (id : Option LogId) :
    Prop where
  /-- The pending scripts have run, and the same request does nothing more. -/
  ok : ∀ c', migrate X c ms id = some (c', .ok ()) →
    (∀ r ∈ rows, ∀ m ∈ ms, r.id = m.id → r.applied = m.applied) ∧
    Path (ScriptStep X) (created X c) (pending rows ms) c'.file ∧
    table c'.file.app = some (rows ++ (pending rows ms).map (row (migrationTs id))) ∧
    NumberedFrom MigrationRow.id 1
      (rows ++ (pending rows ms).map (row (migrationTs id))) ∧
    (∀ m, ms.getLast? = some m → m.id.toNat = rows.length + (pending rows ms).length) ∧
    ∀ id', ∃ c'' r, migrate X c' ms id' = some (c'', r) ∧ c''.file = c'.file
  error : ∀ c' e, migrate X c ms id = some (c', .error e) →
    ∃ done, done <+: pending rows ms ∧ Path (ScriptStep X) (created X c) done c'.file ∧
      (table c'.file.app).getD [] = rows ++ done.map (row (migrationTs id)) ∧
      NumberedFrom MigrationRow.id 1 (rows ++ done.map (row (migrationTs id)))
  panic : migrate X c ms id = none →
    lastAppliedMigration X (c.execute X .createMigrations []).1 ms = none
  created : (table (created X c).app).getD [] = rows ∧
    ((table c.file.app).isSome → created X c = c.file)

/-- SQLite serves the statements of the validation of a list from id 0. -/
def Served (X : Engine A L E S) (c : Conn A M L E) : Prop :=
  (∃ n, (c.execute X .createMigrations []).2 = .ok n) ∧
    ∃ out, ((c.execute X .createMigrations []).1.query X .listMigrations [.integer 0]).2 = .ok out

section Request

variable {X : Engine A L E S} {table : A → Option (List MigrationRow)} {D : A → Prop}
  {c c' : Conn A M L E} {rows : List MigrationRow} {ms : List Migration}

theorem filter_gt_eq {last : UInt32} (hlast : last.toNat = rows.length) :
    (ms.filter fun m => decide (m.id > last)) = pending rows ms :=
  filter_congr fun m _ => decide_eq_decide.mpr (by
    rw [gt_iff_lt, UInt32.lt_iff_toNat_lt, hlast, Nat.lt_iff_add_one_le])

variable {first : Migration} {rest : List Migration}

theorem pending_eq_drop (hms : NumberedFrom Migration.id first.id.toNat ms) :
    pending rows ms = ms.drop (rows.length + 1 - first.id.toNat) := hms.filter_ge _

structure Fits (rows : List MigrationRow) (first : Migration) (ms : List Migration) : Prop where
  pos : 1 ≤ first.id.toNat
  le : first.id.toNat ≤ rows.length + 1
  applied : (rows.drop (first.id.toNat - 1)).map MigrationRow.applied <+: ms.map Migration.applied

section

variable (h : Fits rows first ms)
include h

theorem Fits.length_le : rows.length + 1 ≤ ms.length + first.id.toNat := by
  have hlen := h.applied.length_le
  rw [length_map, length_map, length_drop] at hlen
  have := h.pos
  omega

theorem Fits.numbered (hms : NumberedFrom Migration.id first.id.toNat ms) :
    NumberedFrom Migration.id (rows.length + 1) (pending rows ms) := by
  have hlen := h.length_le
  have hle := h.le
  have hdrop := hms.drop (rows.length + 1 - first.id.toNat) (by omega)
  rwa [← pending_eq_drop hms, show first.id.toNat + (rows.length + 1 - first.id.toNat) =
    rows.length + 1 by omega] at hdrop

theorem Fits.agree (hnum : NumberedFrom MigrationRow.id 1 rows)
    (hms : NumberedFrom Migration.id first.id.toNat ms) {r : MigrationRow} (hr : r ∈ rows)
    {m : Migration} (hm : m ∈ ms) (hid : r.id = m.id) : r.applied = m.applied := by
  have hpos := h.pos
  obtain ⟨i, hi, rfl⟩ := getElem_of_mem hr
  obtain ⟨j, hj, rfl⟩ := getElem_of_mem hm
  have hri : rows[i].id.toNat = 1 + i := hnum.getElem hi
  have hmj : ms[j].id.toNat = first.id.toNat + j := hms.getElem hj
  rw [hid, hmj] at hri
  obtain ⟨tail, htail⟩ := h.applied
  have hget := congrArg (·[j]?) htail
  have hlen : j < ((rows.drop (first.id.toNat - 1)).map MigrationRow.applied).length := by
    rw [length_map, length_drop]
    omega
  rw [getElem?_append_left hlen, getElem?_map, getElem?_drop, getElem?_map,
    show first.id.toNat - 1 + j = i by omega, getElem?_eq_getElem hi,
    getElem?_eq_getElem hj] at hget
  exact some.inj hget

theorem Fits.again (hms : NumberedFrom Migration.id first.id.toNat ms) (ts : ℕ) :
    Fits (rows ++ (pending rows ms).map (row ts)) first ms := by
  have hlen := h.length_le
  have hpos := h.pos
  have hle := h.le
  refine ⟨h.pos, by rw [length_append]; omega, ?_⟩
  have hrow : ∀ l : List Migration,
      (l.map (row ts)).map MigrationRow.applied = l.map Migration.applied :=
    fun l => by rw [List.map_map]; rfl
  have htake : (rows.drop (first.id.toNat - 1)).map MigrationRow.applied =
      (ms.map Migration.applied).take (rows.length + 1 - first.id.toNat) := by
    have := prefix_iff_eq_take.mp h.applied
    rwa [length_map, length_drop,
      show rows.length - (first.id.toNat - 1) = rows.length + 1 - first.id.toNat by omega] at this
  rw [drop_append_of_le_length (by omega), map_append, hrow, htake, pending_eq_drop hms,
    map_drop, take_append_drop]

theorem Fits.pending_again (hms : NumberedFrom Migration.id first.id.toNat ms) (ts : ℕ) :
    pending (rows ++ (pending rows ms).map (row ts)) ms = [] := by
  have hlen := h.length_le
  have hle := h.le
  rw [pending_eq_drop hms, length_append, length_map, pending_eq_drop hms,
    length_drop]
  exact drop_of_length_le (by omega)

end

theorem NumberedFrom.append_row (hnum : NumberedFrom MigrationRow.id 1 rows) {done : List Migration}
    (hdone : NumberedFrom Migration.id (rows.length + 1) done) (ts : ℕ) :
    NumberedFrom MigrationRow.id 1 (rows ++ done.map (row ts)) := by
  refine numberedFrom_append.mpr ⟨hnum, ?_⟩
  rw [Nat.add_comm]
  exact (numberedFrom_map fun _ => rfl).mpr hdone

section

variable (hT : ServesMigrations X table D) (hc : c.txn = none) (hD : D c.file.app)
  (hrows : (table c.file.app).getD [] = rows) (hnum : NumberedFrom MigrationRow.id 1 rows)
include hT hc hD hrows hnum

theorem migrate_cases (ms : List Migration) (id : Option LogId) :
    ∃ c0, c0.txn = none ∧ D c0.file.app ∧ c0.file = created X c ∧
      ((∃ e, migrate X c ms id = some (c0, .error e)) ∨
        table c0.file.app = some rows ∧
          lastAppliedMigration X (c.execute X .createMigrations []).1 ms =
            (validated rows ms).map (fun last => (c0, .ok last)) ∧
          migrate X c ms id = (validated rows ms).bind fun last =>
            migrateLoop X (migrationTs id) c0 last (ms.filter fun m => m.id > last)) := by
  obtain ⟨hget, -, hD1, hsome⟩ := create_spec hT hc hD
  have htxn : (c.execute X .createMigrations []).1.txn = none := Conn.execute_txn_eq_none hc _
  unfold migrate created
  rcases hrun : c.execute X .createMigrations [] with ⟨c1, e | n⟩ <;>
    rw [hrun] at hget hsome hD1 htxn
  · exact ⟨c1, htxn, hD1, rfl, .inl ⟨_, rfl⟩⟩
  · obtain ⟨rows', hrows'⟩ := isSome_iff_exists.mp (hsome n rfl)
    dsimp only at hget hrows' hD1 htxn ⊢
    obtain rfl : rows' = rows := by
      rw [hrows', getD_some] at hget
      exact hget.trans hrows
    cases ms with
    | nil => exact ⟨c1, htxn, hD1, rfl, .inl ⟨_, rfl⟩⟩
    | cons first rest =>
      obtain ⟨c0, hfile, htxn0, ⟨e, heq⟩ | heq⟩ :=
        lastAppliedMigration_cases hT htxn hD1 hrows' hnum first rest
      · exact ⟨c0, htxn0, hfile ▸ hD1, hfile, .inl ⟨e, by rw [heq]⟩⟩
      · refine ⟨c0, htxn0, hfile ▸ hD1, hfile, .inr ⟨hfile ▸ hrows', heq, ?_⟩⟩
        rw [heq]
        cases validated rows' (first :: rest) <;> rfl

theorem Fits.migrate_cases (h : Fits rows first (first :: rest)) (hX : ReportsUndo X)
    (hms : NumberedFrom Migration.id first.id.toNat (first :: rest))
    (hscripts : PlainScripts X table D (first :: rest)) (id : Option LogId) :
    ∃ done c1, done <+: pending rows (first :: rest) ∧ c1.txn = none ∧ D c1.file.app ∧
      Path (ScriptStep X) (created X c) done c1.file ∧
      (table c1.file.app).getD [] = rows ++ done.map (row (migrationTs id)) ∧
      (done = pending rows (first :: rest) ∧ (table c1.file.app).isSome ∧
          migrate X c (first :: rest) id = some (c1, .ok ()) ∨
        ∃ c' e, migrate X c (first :: rest) id = some (c', .error e) ∧ c'.file = c1.file) := by
  obtain ⟨c0, htxn, hD0, hfile, ⟨e, heq⟩ | ⟨htable, -, heq⟩⟩ :=
    Sqlite.migrate_cases hT hc hD hrows hnum (first :: rest) id
  · have hget : (table c0.file.app).getD [] = rows := by
      rw [hfile, created, (create_spec hT hc hD).1, hrows]
    exact ⟨[], c0, nil_prefix, htxn, hD0, hfile ▸ .nil, by simpa using hget,
      .inr ⟨_, _, heq, rfl⟩⟩
  · have hlen := h.length_le
    have hfits : rows.length < UInt32.size := by
      have := hms.length_lt (by simp)
      omega
    have hlast : (UInt32.ofNat rows.length).toNat = rows.length := UInt32.toNat_ofNat_of_lt' hfits
    have hvalid : validated rows (first :: rest) = some (UInt32.ofNat rows.length) :=
      (validated_eq_some_iff hnum).mpr (.inr ⟨h.pos, h.le, h.applied, hlast⟩)
    rw [hvalid, bind_some, filter_gt_eq hlast] at heq
    obtain ⟨done, c1, hfirsts, htxn1, hD1, hpath, htable1, hend⟩ :=
      migrateLoop_cases hX hT (hscripts.mono (filter_subset_self _)) htxn hD0 htable hnum hlast
        (h.numbered hms) (migrationTs id)
    refine ⟨done, c1, hfirsts, htxn1, hD1, hfile ▸ hpath, by rw [htable1]; rfl, ?_⟩
    rcases hend with ⟨hdone, hend⟩ | ⟨c', e, hend, hfile'⟩
    · exact .inl ⟨hdone, by rw [htable1]; rfl, heq.trans hend⟩
    · exact .inr ⟨c', e, heq.trans hend, hfile'⟩

theorem Fits.migrates (h : Fits rows first (first :: rest)) (hX : ReportsUndo X)
    (hms : NumberedFrom Migration.id first.id.toNat (first :: rest))
    (hscripts : PlainScripts X table D (first :: rest)) (id : Option LogId) :
    Migrates X table c rows (first :: rest) id := by
  obtain ⟨done, c1, hfirsts, htxn, hD1, hpath, htable, hend⟩ :=
    h.migrate_cases hT hc hD hrows hnum hX hms hscripts id
  have hdone : NumberedFrom Migration.id (rows.length + 1) done := by
    rw [prefix_iff_eq_take.mp hfirsts]
    exact (h.numbered hms).take _
  have hcreate := create_spec hT hc hD
  refine ⟨fun c' hok => ?_, fun c' e herr => ?_, fun hnone => ?_, hcreate.1.trans hrows, hcreate.2.1⟩
  · rcases hend with ⟨rfl, hsome, heq⟩ | ⟨c2, e, heq, -⟩
    · rw [heq] at hok
      cases hok
      obtain ⟨rows', hrows'⟩ := isSome_iff_exists.mp hsome
      have hfull : rows' = rows ++ (pending rows (first :: rest)).map
          (row (migrationTs id)) := by rwa [hrows', getD_some] at htable
      refine ⟨fun r hr m hm => h.agree hnum hms hr hm, hpath, hfull ▸ hrows',
        hnum.append_row hdone _, fun m hm => ?_, fun id' => ?_⟩
      · obtain ⟨l, hl⟩ := getLast?_eq_some_iff.mp hm
        have hsplit := hms
        rw [hl] at hsplit
        have hlast := (numberedFrom_cons.mp (numberedFrom_append.mp hsplit).2).1
        have hlen : rest.length + 1 = l.length + 1 := by simpa using congrArg length hl
        have hle := h.length_le
        have hpos := h.pos
        have hfirst := h.le
        rw [hlast, pending_eq_drop hms, length_drop, length_cons]
        rw [length_cons] at hle
        omega
      · -- the list fits the new table, and nothing is pending
        obtain ⟨done', c2, hfirsts', -, -, hpath', -, hend'⟩ :=
          (h.again hms (migrationTs id)).migrate_cases hT htxn hD1 htable
            (hnum.append_row hdone _) hX hms hscripts id'
        rw [h.pending_again hms] at hfirsts' hend'
        obtain rfl := prefix_nil.mp hfirsts'
        have hsame : c2.file = c1.file :=
          hpath'.of_nil.trans ((create_spec hT htxn hD1).2.1 (by rw [hrows']; rfl))
        rcases hend' with ⟨-, -, heq'⟩ | ⟨c3, e, heq', hfile⟩
        · exact ⟨c2, _, heq', hsame⟩
        · exact ⟨c3, _, heq', hfile.trans hsame⟩
    · rw [heq] at hok
      cases hok
  · rcases hend with ⟨-, -, heq⟩ | ⟨c2, e', heq, hfile⟩
    · rw [heq] at herr
      cases herr
    · rw [heq] at herr
      cases herr
      exact ⟨done, hfirsts, hfile ▸ hpath, hfile ▸ htable, hnum.append_row hdone _⟩
  · rcases hend with ⟨-, -, heq⟩ | ⟨c2, e', heq, -⟩ <;> rw [heq] at hnone <;> cases hnone

theorem migrates_of_stopped {id : Option LogId} (hok : ∀ c', migrate X c ms id ≠ some (c', .ok ()))
    (hloop : ∀ last, validated rows ms = some last → (ms.filter fun m => m.id > last) = []) :
    Migrates X table c rows ms id := by
  have hcreate := create_spec hT hc hD
  have hget : (table (created X c).app).getD [] = rows := hcreate.1.trans hrows
  obtain ⟨c0, htxn, -, hfile, hcases⟩ := migrate_cases hT hc hD hrows hnum ms id
  refine ⟨fun c' h => absurd h (hok c'), fun c' e herr => ?_, fun hnone => ?_, hget, hcreate.2.1⟩
  · refine ⟨[], nil_prefix, ?_⟩
    have hsame : c'.file = created X c := by
      rcases hcases with ⟨e', heq⟩ | ⟨-, -, heq⟩
      · rw [heq] at herr
        cases herr
        exact hfile
      · rw [heq] at herr
        obtain ⟨last, hlast, herr⟩ := bind_eq_some_iff.mp herr
        rw [hloop last hlast] at herr
        cases herr
    rw [hsame, hget]
    exact ⟨.nil, by simp, by simpa using hnum⟩
  · rcases hcases with ⟨e', heq⟩ | ⟨-, hvalid, heq⟩
    · rw [heq] at hnone
      cases hnone
    · cases hlast : validated rows ms with
      | none => rw [hvalid, hlast, map_none]
      | some last =>
        rw [heq, hlast, bind_some, hloop last hlast] at hnone
        cases hnone

end

/-! ## Lists from id 0 -/

theorem filter_gt_max (ms : List Migration) : (ms.filter fun m => decide (m.id > 0 - 1)) = [] := by
  refine filter_eq_nil_iff.mpr fun m _ => ?_
  have hlt := m.id.toNat_lt
  rw [decide_eq_true_eq, gt_iff_lt, UInt32.lt_iff_toNat_lt, show (0 - 1 : UInt32).toNat = 2 ^ 32 - 1
    from rfl]
  omega

theorem lastAppliedMigration_zero (h : first.id = 0) : lastAppliedMigration X c (first :: rest) =
      match c.query X .listMigrations [.integer 0] with
      | (c, .error e) => some (c, .error (.ofSql e))
      | (_, .ok ⟨_, some _⟩) => none
      | (c, .ok ⟨rows, none⟩) => (rows.mapM AppliedMigration.ofRow).bind fun applied =>
        (checkApplied (first :: rest) (0 - 1 : UInt32).toUInt64 (0 - 1) applied).map fun last =>
          (c, .ok last) := by
  rw [lastAppliedMigration, countApplied, h, if_neg (by decide)]
  dsimp only
  rw [if_neg (by decide), show ((0 : UInt32).toNat : ℤ) = 0 from rfl]
  rcases c.query X .listMigrations [.integer 0] with ⟨c1, e | ⟨rs, _ | e⟩⟩
  · rfl
  · cases hrs : rs.mapM AppliedMigration.ofRow with
    | none => simp only [hrs, bind_eq_bind, bind_none]
    | some applied =>
      simp only [hrs, bind_eq_bind, bind_some]
      cases checkApplied (first :: rest) (0 - 1 : UInt32).toUInt64 (0 - 1) applied <;> rfl
  · rfl

section

variable (hT : ServesMigrations X table D) (hc : c.txn = none) (hD : D c.file.app)
  (hrows : (table c.file.app).getD [] = []) (h : first.id = 0)
include hT hc hD hrows h

theorem zero_ok_iff_served (id : Option LogId) :
    (∃ c', migrate X c (first :: rest) id = some (c', .ok ())) ↔ Served X c := by
  obtain ⟨hget, -, hD1, hsome⟩ := create_spec hT hc hD
  have htxn : (c.execute X .createMigrations []).1.txn = none := Conn.execute_txn_eq_none hc _
  unfold migrate Served
  rcases hrun : c.execute X .createMigrations [] with ⟨c1, e | n⟩ <;>
    rw [hrun] at hget hD1 hsome htxn
  · simp
  · dsimp only at hget hD1 hsome htxn ⊢
    obtain ⟨rows', hrows'⟩ := isSome_iff_exists.mp (hsome n rfl)
    obtain rfl : rows' = [] := by
      rw [hrows', getD_some] at hget
      exact hget.trans hrows
    obtain ⟨-, hread⟩ := list_spec hT htxn hD1 hrows' 0
    rw [lastAppliedMigration_zero h]
    have hzero : ((0 : UInt32).toNat : ℤ) = 0 := rfl
    rw [hzero] at hread
    rcases hq : c1.query X .listMigrations [.integer 0] with ⟨c2, e | rs⟩ <;> rw [hq] at hread
    · simp
    · obtain rfl := hread rs rfl
      refine iff_of_true ⟨c2, ?_⟩ ⟨⟨n, rfl⟩, _, rfl⟩
      change migrateLoop X _ c2 (0 - 1) ((first :: rest).filter fun m => m.id > 0 - 1) = _
      rw [filter_gt_max, migrateLoop]

theorem zero_migrates_iff (hms : NumberedFrom Migration.id first.id.toNat (first :: rest))
    (id : Option LogId) :
    Migrates X table c [] (first :: rest) id ↔ ¬ (rest ≠ [] ∧ Served X c) := by
  have hnum : NumberedFrom MigrationRow.id 1 [] := trivial
  have hvalid : validated [] (first :: rest) = some (0 - 1) :=
    (validated_eq_some_iff hnum).mpr (.inl ⟨h, rfl, rfl⟩)
  have hpending : pending [] (first :: rest) = rest := by
    rw [pending_eq_drop hms, h]
    rfl
  have hcreate := create_spec hT hc hD
  constructor
  · rintro hmigrates ⟨hne, hserved⟩
    obtain ⟨c', hok⟩ := (zero_ok_iff_served hT hc hD hrows h id).mpr hserved
    obtain ⟨-, -, htable, -⟩ := hmigrates.ok c' hok
    obtain ⟨c0, -, -, -, ⟨e, heq⟩ | ⟨htable0, -, heq⟩⟩ :=
      migrate_cases hT hc hD hrows hnum (first :: rest) id
    · rw [heq] at hok
      cases hok
    · rw [heq, hvalid, bind_some, filter_gt_max] at hok
      cases hok
      rw [htable0, hpending] at htable
      exact hne (by simpa using htable.symm)
  · intro hnot
    by_cases hrest : rest = []
    · subst hrest
      refine ⟨fun c' hok => ?_, fun c' e herr => ?_, fun hnone => ?_, hcreate.1.trans hrows,
        hcreate.2.1⟩
      all_goals
        obtain ⟨c0, htxn, hD0, hfile, hcases⟩ := migrate_cases hT hc hD hrows hnum [first] id
        rw [hvalid, bind_some, filter_gt_max] at hcases
      · rcases hcases with ⟨e, heq⟩ | ⟨htable, -, heq⟩
        · rw [heq] at hok
          cases hok
        · rw [heq] at hok
          cases hok
          rw [hpending]
          refine ⟨by simp, hfile ▸ .nil, by simpa using htable, trivial, ?_, fun id' => ?_⟩
          · intro m hm
            obtain rfl : first = m := by simpa using hm
            rw [h]
            rfl
          · have hget : (table c'.file.app).getD [] = [] := by rw [htable]; rfl
            have hsame : created X c' = c'.file := (create_spec hT htxn hD0).2.1 (by rw [htable]; rfl)
            obtain ⟨c1, -, -, hfile1, ⟨e, heq1⟩ | ⟨-, -, heq1⟩⟩ :=
              migrate_cases hT htxn hD0 hget hnum [first] id'
            · exact ⟨c1, _, heq1, hfile1.trans hsame⟩
            · rw [hvalid, bind_some, filter_gt_max] at heq1
              exact ⟨c1, _, heq1, hfile1.trans hsame⟩
      · rcases hcases with ⟨e', heq⟩ | ⟨-, -, heq⟩
        · rw [heq] at herr
          cases herr
          refine ⟨[], nil_prefix, hfile ▸ .nil, ?_, trivial⟩
          rw [hfile]
          exact (hcreate.1.trans hrows).trans (by simp)
        · rw [heq] at herr
          cases herr
      · rcases hcases with ⟨e', heq⟩ | ⟨-, -, heq⟩ <;> rw [heq] at hnone <;> cases hnone
    · refine migrates_of_stopped hT hc hD hrows hnum (fun c' hok => ?_) fun last hlast => ?_
      · exact hnot ⟨hrest, (zero_ok_iff_served hT hc hD hrows h id).mp ⟨c', hok⟩⟩
      · rw [hvalid] at hlast
        cases hlast
        exact filter_gt_max _

end

end Request

/-- **Migrations run once, in order and as a whole**, for every table with ids from 1 on, every list
with consecutive ids and all scripts that are plain in the databases `D` of the run. The one
exception is a list of several migrations from id 0 on an empty table: SQLite serves its validation,
and its scripts are skipped. -/
theorem migrates_iff (X : Engine A L E S) (hX : ReportsUndo X)
    (table : A → Option (List MigrationRow)) (D : A → Prop) (hT : ServesMigrations X table D)
    (c : Conn A M L E) (hc : c.txn = none) (hD : D c.file.app) (rows : List MigrationRow)
    (hrows : (table c.file.app).getD [] = rows) (hnum : NumberedFrom MigrationRow.id 1 rows)
    (k : ℕ) (ms : List Migration) (hms : NumberedFrom Migration.id k ms) (hscripts : PlainScripts X table D ms)
    (id : Option LogId) : Migrates X table c rows ms id ↔
      ¬ (k = 0 ∧ 2 ≤ ms.length ∧ rows = [] ∧ Served X c) := by
  cases ms with
  | nil =>
    refine iff_of_true ?_ (by simp)
    refine migrates_of_stopped hT hc hD hrows hnum (fun c' hok => ?_) fun last hlast => by cases hlast
    obtain ⟨c0, -, -, -, ⟨e, heq⟩ | ⟨-, -, heq⟩⟩ := migrate_cases hT hc hD hrows hnum [] id <;>
      rw [heq] at hok <;> cases hok
  | cons first rest =>
    obtain rfl : first.id.toNat = k := hms.1
    have hzero : first.id.toNat = 0 ↔ first.id = 0 := by rw [← UInt32.toNat_inj]; rfl
    by_cases hfits : Fits rows first (first :: rest)
    · refine iff_of_true (hfits.migrates hT hc hD hrows hnum hX hms hscripts id) fun hand => ?_
      have := hfits.pos
      omega
    · by_cases hskip : first.id = 0 ∧ rows = []
      · obtain ⟨hid, rfl⟩ := hskip
        rw [zero_migrates_iff hT hc hD hrows hid hms, hzero]
        have hlen : 2 ≤ (first :: rest).length ↔ rest ≠ [] := by
          cases rest <;> simp
        rw [hlen]
        tauto
      · have hnone : validated rows (first :: rest) = none := by
          rw [eq_none_iff_forall_ne_some]
          intro last hlast
          rcases (validated_eq_some_iff hnum).mp hlast with ⟨hid, hnil, -⟩ | ⟨hpos, hle, happlied, -⟩
          · exact hskip ⟨hid, hnil⟩
          · exact hfits ⟨hpos, hle, happlied⟩
        refine iff_of_true ?_ fun hand => hskip ⟨hzero.mp hand.1, hand.2.2.1⟩
        refine migrates_of_stopped hT hc hD hrows hnum (fun c' hok => ?_) fun last hlast => ?_
        · obtain ⟨c0, -, -, -, ⟨e, heq⟩ | ⟨-, -, heq⟩⟩ :=
            migrate_cases hT hc hD hrows hnum (first :: rest) id
          · rw [heq] at hok
            cases hok
          · rw [heq, hnone] at hok
            cases hok
        · rw [hnone] at hlast
          cases hlast

/-! ## A small database -/

/-- Statements on `_migrations` and on a table `t` of numbers. -/
inductive ScriptStmt
  | own (o : Own)
  | insert (n : ℕ)
  /-- `DELETE FROM _migrations` -/
  | clear

/-- A database with `_migrations` and a table of numbers. -/
def scripts : Engine (Option (List MigrationRow) × List ℕ) Unit Unit ScriptStmt where
  empty := (none, [])
  fresh := ()
  trim := id
  split sql := (pieces sql.toList).map String.ofList
  parse text :=
    if text = "INSERT INTO t VALUES (7)" then .ok (.plain (.insert 7))
    else if text = "INSERT INTO t VALUES (8)" then .ok (.plain (.insert 8))
    else if text = "DELETE FROM _migrations" then .ok (.plain .clear)
    else .error (.other "syntax error")
  check _ _ _ := none
  own _ _ o := .ok (.own o)
  paramCount
    | .own .insertMigration => 4
    | .own .countMigrations | .own .listMigrations => 1
    | _ => 0
  bind _ _ _ := none
  columns _ _ _ := []
  readonly _ := false
  calls _ _ _ := []
  run _ _ a _
    | .own .createMigrations, _ => ⟨(some (a.1.getD []), a.2), (), [], none, false⟩
    | .own .countMigrations, [.integer i] =>
      ⟨a, (), [[.integer ((a.1.getD []).countP (·.id < UInt32.ofNat i.toNat))]], none, false⟩
    | .own .listMigrations, [.integer i] =>
      ⟨a, (), ((a.1.getD []).filter (UInt32.ofNat i.toNat ≤ ·.id)).map MigrationRow.values, none, false⟩
    | .own .insertMigration, [.integer id, .text name, .integer ts, .text hash] =>
      ⟨(a.1.map (orderedInsert (·.id ≤ ·.id) ⟨UInt32.ofNat id.toNat, name, ts, hash⟩), a.2), (),
        [], none, false⟩
    | .own _, _ => ⟨a, (), [], some (.other "bind or column index out of range"), false⟩
    | .insert n, _ => ⟨(a.1, a.2 ++ [n]), (), [], none, false⟩
    | .clear, _ => ⟨(some [], a.2), (), [], none, false⟩
  refuse _ _ := none
  changes _ := 0
  undo _ l := l

theorem scripts_reportsUndo : ReportsUndo scripts := by
  intro e a l s ps hundo
  simp only [scripts] at hundo
  split at hundo <;> cases hundo

theorem scripts_servesMigrations : ServesMigrations scripts Prod.fst fun _ => True where
  create := by
    rintro e ⟨table, app⟩ l s - ⟨⟩
    refine ⟨fun _ => ⟨rfl, rfl, trivial⟩, fun h => ?_⟩
    cases table with
    | none => simp [scripts] at h
    | some rows => rfl
  count := by
    rintro e ⟨table, app⟩ l s id - ⟨⟩
    refine ⟨rfl, fun rows hrows row hrow => ?_⟩
    cases hrows
    simpa [scripts] using hrow
  list := by
    rintro e ⟨table, app⟩ l s id - ⟨⟩
    refine ⟨rfl, fun rows hrows => ⟨rfl, rfl, ?_⟩⟩
    cases hrows
    simp [scripts]
  insert := by
    rintro e ⟨table, app⟩ l s r rows - ⟨⟩ hrows -
    cases hrows
    simp [scripts, MigrationRow.values]

def newScripts : Conn (Option (List MigrationRow) × List ℕ) Unit Unit Unit :=
  ⟨⟨(none, []), none⟩, (), none, fun _ => (), ⟨1024, []⟩⟩

def sevenEight (k : UInt32) : List Migration :=
  [⟨k, "seven", "h7", "INSERT INTO t VALUES (7)"⟩, ⟨k + 1, "eight", "h8", "INSERT INTO t VALUES (8)"⟩]

theorem sevenEight_plain (k : UInt32) : PlainScripts scripts Prod.fst (fun _ => True) (sevenEight k) := by
  have h7 : scripts.split "INSERT INTO t VALUES (7)" = ["INSERT INTO t VALUES (7)"] := by
    decide +kernel
  have h8 : scripts.split "INSERT INTO t VALUES (8)" = ["INSERT INTO t VALUES (8)"] := by
    decide +kernel
  intro m hm text htext a l st _ hst
  have hins : ∃ n, st = .plain (.insert n) := by
    simp only [sevenEight, mem_cons, not_mem_nil, or_false] at hm
    rcases hm with rfl | rfl
    · rw [h7, mem_singleton] at htext
      subst htext
      exact ⟨7, by cases hst; rfl⟩
    · rw [h8, mem_singleton] at htext
      subst htext
      exact ⟨8, by cases hst; rfl⟩
  obtain ⟨n, rfl⟩ := hins
  refine ⟨rfl, fun s hs e auto ps => ?_⟩
  cases hs
  exact ⟨rfl, fun _ => trivial⟩

/-- Two migrations on a new database, and on a table that has the first one already. -/
theorem migrates_iff_scripts : Migrates scripts Prod.fst newScripts [] (sevenEight 1) none ∧
      Migrates scripts Prod.fst
        { newScripts with file := ⟨(some [⟨1, "seven", 0, "h7"⟩], [7]), none⟩ }
        [⟨1, "seven", 0, "h7"⟩] (sevenEight 1) none :=
  ⟨(migrates_iff scripts scripts_reportsUndo Prod.fst _ scripts_servesMigrations newScripts rfl
      trivial [] rfl trivial 1 (sevenEight 1) (by decide) (sevenEight_plain 1) none).mpr (by simp),
    (migrates_iff scripts scripts_reportsUndo Prod.fst _ scripts_servesMigrations _ rfl trivial _ rfl
      (by decide) 1 (sevenEight 1) (by decide) (sevenEight_plain 1) none).mpr (by simp)⟩

/-- A list whose second script empties `_migrations`. -/
def clearing : List Migration :=
  [⟨1, "seven", "h7", "INSERT INTO t VALUES (7)"⟩, ⟨2, "clear", "h", "DELETE FROM _migrations"⟩]

/-- **A list from id 0 is acknowledged and skipped**, although its second migration is not in the table.
And a script that empties `_migrations` makes the same list panic the next time. -/
theorem list_from_zero_is_skipped :
    ((migrate scripts newScripts (sevenEight 0) none).map fun r => (r.2.isOk, r.1.file.app)) =
        some (true, some [], []) ∧
      ¬ Migrates scripts Prod.fst newScripts [] (sevenEight 0) none ∧
      ((migrate scripts newScripts clearing none).map fun r => (r.2.isOk, r.1.file.app)) =
        some (true, some [⟨2, "clear", 0, "h"⟩], [7]) ∧
      ((migrate scripts newScripts clearing none).bind fun r =>
        migrate scripts r.1 clearing none).isNone := by
  refine ⟨by decide +kernel, fun h => ?_, by decide +kernel, by decide +kernel⟩
  have hok : ((migrate scripts newScripts (sevenEight 0) none).map fun r => (r.2.isOk, r.1.file.app)) =
      some (true, some [], []) := by decide +kernel
  obtain ⟨⟨c', r⟩, hrun, hres⟩ := map_eq_some_iff.mp hok
  cases r with
  | error e => cases hres
  | ok u =>
    obtain ⟨-, -, htable, -⟩ := h.ok c' hrun
    rw [(Prod.mk.inj hres).2] at htable
    exact absurd htable (by decide)

end Hiqlite.Sqlite
