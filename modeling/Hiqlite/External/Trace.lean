import Hiqlite.External.Window

/-!
# G8 — what a failed operation leaves behind

A statement with a conflict clause `OR ROLLBACK` ends the transaction when it fails, and the authorizer
is not asked. What the operation does afterwards is committed statement by statement.

* **`apply_traceless_iff`**; `counter_or_rollback`.
-/

namespace Hiqlite.External

open Exec

variable {A C Out R E : Type} [DecidableEq C] {k : Codec C Out} {o : ExternalSqliteOptions}
  {h : List (Entry k)} {db : Db A} {state : StoredState C} {commit : ExternalCommit C}
  {faults : Faults} {op : Operation A E Out} {app : A} {p : Program (Statement A R) R E Out}

/-- The operation is run: the commit is new and the transaction is opened. -/
def Executes (k : Codec C Out) (faults : Faults) (commit : ExternalCommit C) (w : Writer A C) :
    Prop :=
  classifyCommit k w.conn.view w.state commit .operation k.receiptCodec = .ok .new ∧
    faults.begin = none ∧ faults.authorizer = none

def Stored (k : Codec C Out) (faults : Faults) (commit : ExternalCommit C) (op : Operation A E Out)
    (w : Writer A C) : Prop :=
  faults.unauthorizer = none ∧ faults.insert = none ∧
    ∃ e, Stores k w.state commit (op.apply ⟨w.conn.file, some w.conn.file⟩).1 e

/-- **A call that fails changes nothing**, and one that is applied has all effects of its statements
together with its receipt. -/
structure Traceless (k : Codec C Out) (o : ExternalSqliteOptions) (h : List (Entry k))
    (faults : Faults) (commit : ExternalCommit C) (p : Program (Statement A R) R E Out)
    (w : Writer A C) : Prop where
  failed : ∀ err, (applyCommitted k faults commit (.ofProgram p) w).result = .error err →
    (applyCommitted k faults commit (.ofProgram p) w).writer = w
  applied : ∀ out, (applyCommitted k faults commit (.ofProgram p) w).result = .ok (.applied out) →
    ∃ db' e state', (applyCommitted k faults commit (.ofProgram p) w).writer = .idle db' state' ∧
      e.commit = commit ∧ e.output = some out ∧ Exact o (h ++ [e]) db' state' ∧
      ∃ d, Program.Took Statement.run w.conn.file
        (p.log Statement.run ⟨w.conn.file, some w.conn.file⟩) d ∧ db'.app = d.app

/-! ## Operations that have ended their transaction -/

theorem applyOperation_ended (hk : k.Lawful) (hx : Exact o h db state)
    (hex : Executes k faults commit (.idle db state))
    (hended : (op.apply ⟨db, some db⟩).2 = ⟨{ db with app := app }, none⟩) :
    ∃ err db', applyOperation k faults commit op (.idle db state) =
        (.error err, .idle db' state) ∧
      ((¬ Stored k faults commit op (.idle db state) ∧ db' = { db with app := app }) ∨
      Stored k faults commit op (.idle db state) ∧ db' ≠ db) := by
  obtain ⟨hc, hbegin, hauth⟩ := hex
  have hnew := hx.sequence_of_new hk hc
  have hexec : (op.exec : Exec _ (ExternalApplyError E) _) ⟨db, some db⟩ =
      (.ok (op.apply ⟨db, some db⟩).1, ⟨{ db with app := app }, none⟩) := by
    rw [← hended]
    rfl
  -- It is enough to look inside the transaction.
  suffices hin : ∃ err db', applyInside k faults state commit op ⟨db, some db⟩ =
      (.error err, ⟨db', none⟩) ∧
      ((¬ Stored k faults commit op (.idle db state) ∧ db' = { db with app := app }) ∨
      Stored k faults commit op (.idle db state) ∧ db' ≠ db) by
    obtain ⟨err, db', hin, hcases⟩ := hin
    refine ⟨err, db', applyOperation_failed _ hc ?_, hcases⟩
    rw [hbegin, withTransaction_idle, hin]
    rfl
  unfold applyInside
  simp only [hauth, permit, lift_ok, engine_pure, pure_bind]
  rw [bind_ok hexec]
  cases hun : faults.unauthorizer with
  | some m =>
    refine ⟨.engine (.sqlite m), _, rfl, .inl ⟨fun hs => ?_, rfl⟩⟩
    rw [hs.1] at hun
    cases hun
  | none =>
    simp only [lift_ok, engine_pure, pure_bind]
    by_cases hst : ∃ e, Stores k state commit (op.apply ⟨db, some db⟩).1 e
    · obtain ⟨e, hst⟩ := hst
      obtain ⟨table', hne, happend, hcases⟩ := storeResult_cases faults hk hx hnew hst
        (Session.view_idle { db with app := app })
      rcases hcases with ⟨err, hf, hs⟩ | ⟨err, d, hi, -, -, hrec, hs⟩ | ⟨out, hi, -, hs⟩
      · refine ⟨err, _, hs, .inl ⟨fun hstored => ?_, rfl⟩⟩
        rw [hstored.2.1] at hf
        cases hf
      · exact ⟨err, d, hs, .inr ⟨⟨hun, hi, e, hst⟩, fun heq => hne (by rw [← heq, hrec])⟩⟩
      · have hne' := hx.append_ne (happend app)
        rw [hs, Session.write_idle]
        cases faults.commit with
        | some | none => exact ⟨_, _, rfl, .inr ⟨⟨hun, hi, e, hst⟩, hne'⟩⟩
    · obtain ⟨err, hs⟩ := storeResult_rejected faults ⟨{ db with app := app }, none⟩
        (not_exists.mp hst)
      exact ⟨err, _, hs, .inl ⟨fun hstored => hst hstored.2.2, rfl⟩⟩

theorem thunk_error_file {ε T : Type} {apply : Exec (Writer A C) ε (ApplyOutcome T)}
    (wrap : ExternalError → ε) {w : Writer A C} {err : ε} {state' : StoredState C}
    (happly : apply w = (.error err, .idle db state')) :
    (∃ err', (thunk k apply wrap w).result = .error err') ∧
      (thunk k apply wrap w).writer.conn.file = db := by
  rw [thunk, happly]
  simp only [Except.toOption, Option.isNone_none, reconcileAfterApply, Session.rollback_mk,
    modify_bind, if_true, get_bind, Session.view_idle]
  cases hload : loadState k db with
  | error e => exact ⟨⟨_, rfl⟩, rfl⟩
  | ok st =>
    rw [lift_ok, pure_bind]
    cases hval : validateReceipts k db st with
    | error | ok => exact ⟨⟨_, rfl⟩, rfl⟩

theorem not_executes (op : Operation A E Out) (hk : k.Lawful) (hx : Exact o h db state)
    (hex : ¬ Executes k faults commit (.idle db state)) :
    ∃ r, applyCommitted k faults commit op (.idle db state) = ⟨r, none, .idle db state⟩ ∧
      ∀ out, r ≠ .ok (.applied out) := by
  by_cases heq : commit.sequence.toNat = o.initialSequence.toNat + h.length
  · have hc : classifyCommit k db state commit .operation k.receiptCodec = .ok .new :=
      hx.classify_new _ _ heq
    cases hb : faults.begin with
    | some m =>
      refine ⟨.error (.engine (.sqlite m)), thunk_error hk (applyOperation_failed _ hc ?_) hx, nofun⟩
      rw [hb]
      exact withTransaction_fault m _ _ _
    | none =>
      cases ha : faults.authorizer with
      | some m =>
        refine ⟨.error (.engine (.sqlite m)), thunk_error hk (applyOperation_failed _ hc ?_) hx, nofun⟩
        rw [hb, withTransaction_idle, applyInside, ha]
        rfl
      | none => exact absurd ⟨hc, hb, ha⟩ hex
  · exact applyCommitted_other faults op hk hx heq

theorem traceless_of_kept (hk : k.Lawful) (hx : Exact o h db state)
    (hkept : (p.run Statement.run ⟨db, some db⟩).2.txn.isSome) :
    Traceless k o h faults commit p (.idle db state) := by
  refine ⟨fun err hres => by rw [hx.apply_failed hk hkept hres], fun out hres => ?_⟩
  by_cases hex : Executes k faults commit (.idle db state)
  · have hnew := hx.sequence_of_new hk hex.1
    obtain ⟨app, hconf⟩ | ⟨app, hconf⟩ := (Operation.ofProgram p).confined db
    · rcases applyCommitted_kept faults hk hx hnew hconf with
        ⟨err, hrun, -⟩ | ⟨e, out', db', state', hst, hout, happ, hrun, hx'⟩
      · rw [hrun] at hres
        cases hres
      · rw [hrun] at hres
        cases hres
        obtain ⟨out', hout', hsome⟩ := hst.1
        obtain rfl : out = out' := Except.ok.inj (hout.symm.trans hout')
        refine ⟨db', e, state', by rw [hrun], hst.2.1, hsome, hx', _,
          Program.run_took p db db (congrArg Session.txn hconf), happ⟩
    · have hnone : (p.run Statement.run ⟨db, some db⟩).2 = ⟨{ db with app := app }, none⟩ := hconf
      rw [hnone] at hkept
      cases hkept
  · obtain ⟨r, hrun, hr⟩ := not_executes _ hk hx hex
    rw [hrun] at hres
    exact absurd hres (hr _)

/-- **When a call is traceless**: the operation is not run, or it keeps its transaction, or it has
changed nothing since it ended it and leaves no receipt. -/
theorem apply_traceless_iff (hk : k.Lawful) (hx : Exact o h db state) (faults : Faults)
    (commit : ExternalCommit C) (p : Program (Statement A R) R E Out) :
    Traceless k o h faults commit p (.idle db state) ↔
      (Executes k faults commit (.idle db state) →
        (p.run Statement.run ⟨db, some db⟩).2.txn.isSome ∨
        (p.run Statement.run ⟨db, some db⟩).2.file = db ∧
          ¬ Stored k faults commit (.ofProgram p) (.idle db state)) := by
  by_cases hkept : (p.run Statement.run ⟨db, some db⟩).2.txn.isSome
  · exact ⟨fun _ _ => .inl hkept, fun _ => traceless_of_kept hk hx hkept⟩
  by_cases hex : Executes k faults commit (.idle db state)
  swap
  · obtain ⟨r, hrun, hr⟩ := not_executes (.ofProgram p) hk hx hex
    refine ⟨fun _ hex' => absurd hex' hex, fun _ => ⟨fun _ _ => by rw [hrun], fun out hres => ?_⟩⟩
    rw [hrun] at hres
    exact absurd hres (hr _)
  -- The operation has ended its transaction.
  obtain ⟨app, hconf⟩ | ⟨app, hended⟩ := (Operation.ofProgram p).confined db
  · exact absurd (by rw [show (p.run Statement.run ⟨db, some db⟩).2 = _ from hconf]; rfl) hkept
  have hfile : (p.run Statement.run ⟨db, some db⟩).2.file = { db with app := app } :=
    congrArg Session.file hended
  obtain ⟨err, db', hrun, hcases⟩ := applyOperation_ended hk hx hex hended
  rw [hfile]
  constructor
  · intro htrace _
    obtain ⟨⟨err', hres⟩, hleft⟩ := thunk_error_file (k := k) .engine hrun
    have hsame : db' = db := by
      rw [← hleft]
      exact congrArg (fun w => w.conn.file) (htrace.failed err' hres)
    rcases hcases with ⟨hno, hdb⟩ | ⟨-, hne⟩
    · exact .inr ⟨hdb.symm.trans hsame, hno⟩
    · exact absurd hsame hne
  · intro hcond
    obtain hopen | ⟨hdb, hno⟩ := hcond hex
    · exact absurd hopen hkept
    obtain ⟨-, rfl⟩ | ⟨hstored, -⟩ := hcases
    · rw [hdb] at hrun
      have hthunk : applyCommitted k faults commit (.ofProgram p) (.idle db state) = _ :=
        thunk_error hk hrun hx
      refine ⟨fun _ _ => congrArg Applied.writer hthunk, fun out hres => ?_⟩
      have hres' := (congrArg Applied.result hthunk).symm.trans hres
      cases hres'
    · exact absurd hstored hno

/-- An insert with `OR ROLLBACK` that fails, and an update after it. -/
def orRollback : Program (Statement ℕ ℕ) ℕ String UInt8 :=
  .exec ⟨[.insert "t"], fun _ => .ended "UNIQUE constraint failed: t.id"⟩ fun _ =>
    .exec ⟨[.update "t" "n"], fun n => .done (n + 1) 0⟩ fun _ => .finish (.ok 7)

theorem apply_traceless_iff_counter :
    ¬ Traceless oneByte keepOne [] {} (commitAt 5 0) orRollback (newCounter keepOne 0) := by
  have hiff := apply_traceless_iff oneByte_lawful
    (exact_created (k := oneByte) (o := keepOne) rfl 0) {} (commitAt 5 0) orRollback
  rw [newCounter, hiff]
  intro h
  obtain h | ⟨h, -⟩ := h ⟨rfl, rfl, rfl⟩
  · cases h
  · exact absurd (congrArg Db.app h) (by decide)

/-- **The call fails, and the counter and the frontier have moved.** -/
theorem counter_or_rollback :
    let after :=
      applyCommitted oneByte {} (commitAt 5 0) (.ofProgram orRollback) (newCounter keepOne 0)
    (newCounter keepOne 0).conn.file.app = 0 ∧ (newCounter keepOne 0).state.lastApplied = none ∧
      after.result = .error (.engine (.sqlite "cannot commit - no transaction is active")) ∧
      after.writer.conn.file.app = 1 ∧
      after.writer.state.lastApplied.map (fun a => a.commit.sequence) = some 5 := by
  refine ⟨rfl, rfl, ?_, ?_, ?_⟩
  · rfl
  · rfl
  · rfl

end Hiqlite.External
