import Hiqlite.External.Exact

/-!
# G4 — the calls of the external engine

What a call does to tables that are those after some entries.

* **`applyCommitted_kept`**: an operation that keeps its transaction;
* **`applyCommitted_free`**: every operation, if SQLite does not fail;
* **`advanceCommitted_new`**: the same for an advance.
-/

namespace Hiqlite.External

open Exec


variable {A C Out E ε : Type} {k : Codec C Out} {o : ExternalSqliteOptions}
  {h : List (Entry k)} {db : Db A} {state : StoredState C} {commit : ExternalCommit C}
  {faults : Faults} {op : Operation A E Out} {s : Session (Db A)} {app : A} {e : Entry k}
  {r : Except E Out}

/-! ## After an operation -/

/-- The result `r` of an operation is going to be stored as the entry `e`. -/
def Stores (k : Codec C Out) (state : StoredState C) (commit : ExternalCommit C) (r : Except E Out)
    (e : Entry k) : Prop :=
  (∃ out, r = .ok out ∧ e.output = some out) ∧ e.commit = commit ∧
    e.receipt.length ≤ state.maxReceiptBytes.toNat

theorem Entry.output_of_kind (e : Entry k) (hkind : e.kind = .operation) :
    ∃ out, e.output = some out ∧ k.encodeReceipt out = .ok e.receipt := by
  have henc := e.encoded
  cases hout : e.output with
  | none =>
    rw [Entry.kind, hout] at hkind
    cases hkind
  | some out =>
    rw [hout] at henc
    exact ⟨out, rfl, henc⟩

theorem Stores.kind (hst : Stores k state commit r e) : e.kind = .operation := by
  obtain ⟨⟨out, -, hsome⟩, -⟩ := hst
  rw [Entry.kind, hsome]
  rfl

theorem storeResult_rejected (faults : Faults) (s : Session (Db A))
    (hno : ∀ e, ¬ Stores k state commit r e) :
    ∃ err, storeResult k faults state commit r s = (.error err, s) := by
  unfold storeResult
  cases r with
  | error err => exact ⟨_, rfl⟩
  | ok out =>
    simp only [Except.mapError, lift_ok, pure_bind]
    cases henc : k.encodeReceipt out with
    | error err => exact ⟨_, rfl⟩
    | ok receipt =>
      simp only [lift_ok, engine_pure, pure_bind]
      by_cases hfits : receipt.length ≤ state.maxReceiptBytes.toNat
      · rw [ensure_of hfits, lift_ok, engine_pure, pure_bind]
        cases hser : k.serialize commit.coordinate with
        | error err => exact ⟨_, bind_error (engine_eq (persist_serialize_error hser))⟩
        | ok coordinate =>
          exact absurd ⟨⟨out, rfl, rfl⟩, rfl, hfits⟩
            (hno ⟨commit, coordinate, some out, receipt, hser, henc⟩)
      · rw [ensure_not hfits]
        exact ⟨_, rfl⟩

theorem storeResult_stores {out : Out} (hst : Stores k state commit r e) (hout : r = .ok out) :
    storeResult k faults state commit r s = (do
      engine (persistNewCommit k faults state e.commit e.kind e.codec e.receipt (k.sha256 e.receipt))
      engine (commitTransaction faults.commit)
      pure (out, k.sha256 e.receipt) : Exec (Session (Db A)) (ExternalApplyError E) _) s := by
  obtain ⟨⟨out', hout', hsome⟩, rfl, hfits⟩ := hst
  obtain rfl : out = out' := Except.ok.inj (hout.symm.trans hout')
  have henc : k.encodeReceipt out = .ok e.receipt := by
    have := e.encoded
    rwa [hsome] at this
  have hkind : e.kind = .operation := by rw [Entry.kind, hsome]; rfl
  have hcodec : e.codec = k.receiptCodec := by rw [Entry.codec, hsome]; rfl
  unfold storeResult
  rw [hout, hkind, hcodec]
  simp only [Except.mapError, lift_ok, engine_pure, pure_bind, henc, ensure_of hfits]

theorem commit_open (f d : Db A) : commitTransaction none ⟨f, some d⟩ = (.ok (), ⟨d, none⟩) := rfl

theorem commit_idle (f : Db A) : commitTransaction none ⟨f, none⟩ =
    (.error (.sqlite "cannot commit - no transaction is active"), ⟨f, none⟩) := rfl

theorem commit_fault (m : String) (s : Session (Db A)) :
    commitTransaction (some m) s = (.error (.sqlite m), s) := rfl

theorem withTransaction_fault {α : Type} (m : String) (body : Exec (Session (Db A)) ε α)
    (wrap : ExternalError → ε) (s : Session (Db A)) :
    withTransaction (some m) body wrap s = (.error (wrap (.sqlite m)), s) := by
  rw [withTransaction]
  rfl

theorem withTransaction_idle {α : Type} (body : Exec (Session (Db A)) ε α)
    (wrap : ExternalError → ε) (db : Db A) : withTransaction none body wrap ⟨db, none⟩ =
      ((body ⟨db, some db⟩).1, (body ⟨db, some db⟩).2.rollback) := rfl

section

variable (faults) (hk : k.Lawful) (hx : Exact o h db state)
  (hnew : commit.sequence.toNat = o.initialSequence.toNat + h.length)
include hk hx hnew

theorem storeResult_cases (hst : Stores k state commit r e) (hview : s.view = { db with app := app }) :
    ∃ table', db.receipts ≠ some table' ∧ (∀ app : A, Exact o (h ++ [e])
      (persisted state commit e.coordinate e.kind (k.sha256 e.receipt) table'
        { db with app := app })
      (updateStateAfterCommit state commit e.kind (k.sha256 e.receipt))) ∧
      ((∃ err, faults.insert.isSome ∧ storeResult k faults state commit r s = (.error err, s)) ∨
      (∃ err d, faults.insert = none ∧ (faults.update.isSome ∨ faults.delete.isSome) ∧ d.app = app ∧
        d.receipts = some table' ∧ storeResult k faults state commit r s = (.error err, s.write d)) ∨
      ∃ out, faults.insert = none ∧ r = .ok out ∧ storeResult k faults state commit r s =
        (engine (commitTransaction faults.commit) >>= fun _ => pure (out, k.sha256 e.receipt))
          (s.write (persisted state commit e.coordinate e.kind (k.sha256 e.receipt) table'
            { db with app := app }))) := by
  obtain ⟨out, hout, hsome⟩ := hst.1
  obtain rfl : e.commit = commit := hst.2.1
  have hfits := hst.2.2
  rw [hx.maxReceiptBytes] at hfits
  obtain ⟨table, table', htable, hinsert, happend⟩ := hx.append hk hnew hfits
  refine ⟨table', fun heq => ?_, happend, ?_⟩
  · exact Rows.insert_ne hinsert (Option.some.inj (heq.symm.trans htable))
  rw [storeResult_stores hst hout]
  have hviewTable : s.view.receipts = some table := by rw [hview]; exact htable
  have hviewMeta : s.view.metadata.isSome := by rw [hview]; exact hx.metadata_isSome
  rcases persist_cases faults state e.serialized hviewTable hinsert
    hviewMeta with ⟨m, hi, hp⟩ | ⟨m, d, hi, hf, happ, hrec, hp⟩ | ⟨hi, -, -, hp⟩
  · exact .inl ⟨_, by rw [hi]; rfl, bind_error (engine_eq hp)⟩
  · refine .inr (.inl ⟨_, d, hi, ?_, by rw [happ, hview], hrec, bind_error (engine_eq hp)⟩)
    rcases hf with hf | hf
    · exact .inl (by rw [hf]; rfl)
    · exact .inr (by rw [hf]; rfl)
  · refine .inr (.inr ⟨out, hi, hout, ?_⟩)
    rw [bind_ok (engine_eq hp), hview]

/-! ## Inside the transaction -/

theorem applyInside_kept (hkept : (op.apply ⟨db, some db⟩).2 = ⟨db, some { db with app := app }⟩) :
    (∃ err d, applyInside k faults state commit op ⟨db, some db⟩ = (.error err, ⟨db, some d⟩) ∧
      (faults = {} → ∀ e, ¬ Stores k state commit (op.apply ⟨db, some db⟩).1 e)) ∨
    ∃ e out db', Stores k state commit (op.apply ⟨db, some db⟩).1 e ∧
      (op.apply ⟨db, some db⟩).1 = .ok out ∧ db'.app = app ∧
      applyInside k faults state commit op ⟨db, some db⟩ =
        (.ok (out, k.sha256 e.receipt), ⟨db', none⟩) ∧
      Exact o (h ++ [e]) db' (updateStateAfterCommit state commit e.kind (k.sha256 e.receipt)) := by
  unfold applyInside
  cases hau : faults.authorizer with
  | some m => exact .inl ⟨_, _, rfl, fun hf => by rw [hf] at hau; cases hau⟩
  | none =>
    have hexec : (op.exec : Exec _ (ExternalApplyError E) _) ⟨db, some db⟩ =
        (.ok (op.apply ⟨db, some db⟩).1, ⟨db, some { db with app := app }⟩) := by
      rw [← hkept]
      rfl
    simp only [permit, lift_ok, engine_pure, pure_bind]
    rw [bind_ok hexec]
    cases hun : faults.unauthorizer with
    | some m => exact .inl ⟨_, _, rfl, fun hf => by rw [hf] at hun; cases hun⟩
    | none =>
      simp only [lift_ok, engine_pure, pure_bind]
      by_cases hst : ∃ e, Stores k state commit (op.apply ⟨db, some db⟩).1 e
      · obtain ⟨e, hst⟩ := hst
        obtain ⟨table', -, happend, hcases⟩ := storeResult_cases faults hk hx hnew hst
          (Session.view_open db { db with app := app })
        rcases hcases with ⟨err, hf, hs⟩ | ⟨err, d, -, hf, -, -, hs⟩ | ⟨out, -, hout, hs⟩
        · exact .inl ⟨err, _, hs, fun hfree => by rw [hfree] at hf; cases hf⟩
        · refine .inl ⟨err, d, hs, fun hfree => ?_⟩
          rw [hfree] at hf
          rcases hf with hf | hf <;> cases hf
        · rw [hs, Session.write_open]
          cases hco : faults.commit with
          | some m => exact .inl ⟨_, _, rfl, fun hf => by rw [hf] at hco; cases hco⟩
          | none => exact .inr ⟨e, out, _, hst, hout, rfl, rfl, happend app⟩
      · obtain ⟨err, hs⟩ := storeResult_rejected faults ⟨db, some { db with app := app }⟩
          (not_exists.mp hst)
        exact .inl ⟨err, _, hs, fun _ => not_exists.mp hst⟩

/-- **An operation that has ended its transaction** fails, but what it did later stays, and so does
its entry. -/
theorem applyInside_ended (hended : (op.apply ⟨db, some db⟩).2 = ⟨{ db with app := app }, none⟩) :
    ∃ err db', applyInside k {} state commit op ⟨db, some db⟩ = (.error err, ⟨db', none⟩) ∧
      db'.app = app ∧ ((∃ e, Stores k state commit (op.apply ⟨db, some db⟩).1 e ∧
        Exact o (h ++ [e]) db'
          (updateStateAfterCommit state commit e.kind (k.sha256 e.receipt))) ∨
      (∀ e, ¬ Stores k state commit (op.apply ⟨db, some db⟩).1 e) ∧
        db' = { db with app := app }) := by
  have hexec : (op.exec : Exec _ (ExternalApplyError E) _) ⟨db, some db⟩ =
      (.ok (op.apply ⟨db, some db⟩).1, ⟨{ db with app := app }, none⟩) := by
    rw [← hended]
    rfl
  unfold applyInside
  simp only [permit, lift_ok, engine_pure, pure_bind]
  rw [bind_ok hexec]
  by_cases hst : ∃ e, Stores k state commit (op.apply ⟨db, some db⟩).1 e
  · obtain ⟨e, hst⟩ := hst
    obtain ⟨table', -, happend, hcases⟩ := storeResult_cases {} hk hx hnew hst
      (Session.view_idle { db with app := app })
    rcases hcases with ⟨err, hf, -⟩ | ⟨err, d, -, hf, -⟩ | ⟨out, -, hout, hs⟩
    · cases hf
    · rcases hf with hf | hf <;> cases hf
    · rw [hs, Session.write_idle]
      exact ⟨_, _, rfl, rfl, .inl ⟨e, hst, happend app⟩⟩
  · have hno := not_exists.mp hst
    obtain ⟨err, hs⟩ := storeResult_rejected {} ⟨{ db with app := app }, none⟩ hno
    exact ⟨err, _, hs, rfl, .inr ⟨hno, rfl⟩⟩

theorem advanceInside_cases :
    (∃ err d, advanceInside k faults state commit ⟨db, some db⟩ = (.error err, ⟨db, some d⟩) ∧
      (faults = {} → ∀ e : Entry k, ¬ (e.commit = commit ∧ e.output = none))) ∨
    ∃ (e : Entry k) (db' : Db A), e.commit = commit ∧ e.output = none ∧ db'.app = db.app ∧
      advanceInside k faults state commit ⟨db, some db⟩ = (.ok (), ⟨db', none⟩) ∧
      Exact o (h ++ [e]) db'
        (updateStateAfterCommit state commit .advance (k.sha256 unitReceipt)) := by
  unfold advanceInside
  cases hser : k.serialize commit.coordinate with
  | error err =>
    refine .inl ⟨_, _, bind_error (persist_serialize_error hser), fun _ e he => ?_⟩
    have hok := e.serialized
    rw [he.1, hser] at hok
    cases hok
  | ok coordinate =>
    let e : Entry k := ⟨commit, coordinate, none, unitReceipt, hser, rfl⟩
    obtain ⟨table, table', htable, hinsert, happend⟩ := hx.append (e := e) hk hnew (Nat.zero_le _)
    rcases persist_cases faults state (s := ⟨db, some db⟩) hser htable
      hinsert hx.metadata_isSome with ⟨m, hi, hp⟩ | ⟨m, d, -, hf, -, -, hp⟩ | ⟨-, -, -, hp⟩
    · exact .inl ⟨_, _, bind_error hp, fun hfree => by rw [hfree] at hi; cases hi⟩
    · refine .inl ⟨_, _, bind_error hp, fun hfree => ?_⟩
      rw [hfree] at hf
      rcases hf with hf | hf <;> cases hf
    · cases hco : faults.commit with
      | some m =>
        exact .inl ⟨_, _, (bind_ok hp).trans (commit_fault m _),
          fun hf => by rw [hf] at hco; cases hco⟩
      | none =>
        exact .inr ⟨e, persisted state commit coordinate .advance (k.sha256 unitReceipt) table' db,
          rfl, rfl, rfl, (bind_ok hp).trans (commit_open _ _), happend db.app⟩

end

variable [DecidableEq C]

theorem thunk_ok {T : Type} {apply : Exec (Writer A C) ε (ApplyOutcome T)}
    {wrap : ExternalError → ε} {w : Writer A C} {state : StoredState C} {out : ApplyOutcome T}
    (happly : apply w = (.ok out, .idle db state)) :
    thunk k apply wrap w = ⟨.ok out, none, .idle db state⟩ := by
  rw [thunk, happly]
  rfl

theorem thunk_error {T : Type} {apply : Exec (Writer A C) ε (ApplyOutcome T)}
    {wrap : ExternalError → ε} {w : Writer A C} {err : ε} {state' : StoredState C} (hk : k.Lawful)
    (happly : apply w = (.error err, .idle db state')) (hx : Exact o h db state) :
    thunk k apply wrap w = ⟨.error err, none, .idle db state⟩ := by
  have hrec : reconcileAfterApply k true (.idle db state' : Writer A C) =
      (.ok (), .idle db state) := by
    simp [reconcileAfterApply, hx.loads, hx.validateReceipts hk]
  rw [thunk, happly]
  simp [Except.toOption, hrec]

/-! ## Operations -/

section Operations

variable (w : Writer A C)

theorem applyOperation_error {err : ExternalError}
    (hc : classifyCommit k w.conn.view w.state commit .operation k.receiptCodec = .error err) :
    applyOperation k faults commit op w = (.error (.engine err), w) := by
  unfold applyOperation
  rw [get_bind, hc]
  rfl

theorem applyOperation_retry {receipt : StoredReceipt C} {out : Out}
    (hc : classifyCommit k w.conn.view w.state commit .operation k.receiptCodec =
      .ok (.retry receipt)) (hdec : k.decodeReceipt receipt.receipt = .ok out) :
    applyOperation k faults commit op w = (.ok (.recovered out), w) := by
  unfold applyOperation
  rw [get_bind, hc]
  simp only [lift_ok, engine_pure, pure_bind, hdec, Except.mapError]
  rfl

theorem applyOperation_undecoded {receipt : StoredReceipt C} {e : String}
    (hc : classifyCommit k w.conn.view w.state commit .operation k.receiptCodec =
      .ok (.retry receipt)) (hdec : k.decodeReceipt receipt.receipt = .error e) :
    applyOperation k faults commit op w = (.error (.engine (.serialization e)), w) := by
  unfold applyOperation
  rw [get_bind, hc]
  simp only [lift_ok, engine_pure, pure_bind, hdec, Except.mapError]
  rfl

theorem applyOperation_failed {err : ExternalApplyError E}
    (hc : classifyCommit k w.conn.view w.state commit .operation k.receiptCodec = .ok .new)
    (hin : withTransaction faults.begin (applyInside k faults w.state commit op) .engine w.conn =
      (.error err, s)) : applyOperation k faults commit op w = (.error err, ⟨s, w.state⟩) := by
  unfold applyOperation
  rw [get_bind, hc]
  simp only [lift_ok, engine_pure, pure_bind]
  refine bind_error ?_
  rw [onConn, zoom_apply, hin]

theorem applyOperation_applied {out : Out} {digest : Sha256Digest}
    (hc : classifyCommit k w.conn.view w.state commit .operation k.receiptCodec = .ok .new)
    (hin : withTransaction faults.begin (applyInside k faults w.state commit op) .engine w.conn =
      (.ok (out, digest), s)) : applyOperation k faults commit op w = (.ok (.applied out),
      ⟨s, updateStateAfterCommit w.state commit .operation digest⟩) := by
  have hz : onConn (withTransaction faults.begin (applyInside k faults w.state commit op)
      ExternalApplyError.engine) w = (.ok (out, digest), { w with conn := s }) := by
    rw [onConn, zoom_apply, hin]
  unfold applyOperation
  rw [get_bind, hc]
  simp only [lift_ok, engine_pure, pure_bind]
  rw [bind_ok hz]
  rfl

end Operations

section Advances

variable (w : Writer A C)

theorem applyAdvance_error {err : ExternalError}
    (hc : classifyCommit k w.conn.view w.state commit .advance advanceReceiptCodec = .error err) :
    applyAdvance k faults commit w = (.error err, w) := by
  unfold applyAdvance
  rw [get_bind, hc]
  rfl

theorem applyAdvance_retry {receipt : StoredReceipt C}
    (hc : classifyCommit k w.conn.view w.state commit .advance advanceReceiptCodec =
      .ok (.retry receipt)) : applyAdvance k faults commit w = (.ok (.recovered ()), w) := by
  unfold applyAdvance
  rw [get_bind, hc]
  rfl

theorem applyAdvance_new {r : Except ExternalError Unit}
    (hc : classifyCommit k w.conn.view w.state commit .advance advanceReceiptCodec = .ok .new)
    (hin : withTransaction faults.begin (advanceInside k faults w.state commit) id w.conn =
      (r, s)) : applyAdvance k faults commit w =
      match r with
      | .ok _ => (.ok (.applied ()),
          ⟨s, updateStateAfterCommit w.state commit .advance (k.sha256 unitReceipt)⟩)
      | .error err => (.error err, ⟨s, w.state⟩) := by
  have hz : onConn (withTransaction faults.begin (advanceInside k faults w.state commit) id) w =
      (r, { w with conn := s }) := by
    rw [onConn, zoom_apply, hin]
  unfold applyAdvance
  rw [get_bind, hc]
  simp only [lift_ok, pure_bind]
  cases r with
  | ok u => exact bind_ok hz
  | error err => exact bind_error hz

end Advances

/-! ## Calls -/

section

variable (faults) (op : Operation A E Out) (hk : k.Lawful) (hx : Exact o h db state)
include hk hx

/-- **An earlier commit** is answered from its receipt, or refused; nothing changes. -/
theorem applyCommitted_old (hseq : commit.sequence.toNat < o.initialSequence.toNat + h.length) :
    (∃ e ∈ window o h, e.commit = commit ∧ e.kind = .operation ∧ e.codec = k.receiptCodec ∧
      ∃ out, e.output = some out ∧ applyCommitted k faults commit op (.idle db state) =
        ⟨.ok (.recovered out), none, .idle db state⟩) ∨
    (¬ ∃ e ∈ window o h, e.commit = commit ∧ e.kind = .operation ∧ e.codec = k.receiptCodec) ∧
      ∃ err, applyCommitted k faults commit op (.idle db state) =
        ⟨.error err, none, .idle db state⟩ := by
  rcases hx.classify_old hk .operation k.receiptCodec hseq with
    ⟨e, hmem, hcommit, hkind, hcodec, hc⟩ | ⟨hno, err, hc⟩
  · obtain ⟨out, hout, henc⟩ := e.output_of_kind hkind
    exact .inl ⟨e, hmem, hcommit, hkind, hcodec, out, hout,
      thunk_ok (applyOperation_retry _ hc (hk.receipt henc))⟩
  · exact .inr ⟨hno, _, thunk_error hk (applyOperation_error _ hc) hx⟩

theorem advanceCommitted_old (hseq : commit.sequence.toNat < o.initialSequence.toNat + h.length) :
    ((∃ e ∈ window o h, e.commit = commit ∧ e.kind = .advance ∧ e.codec = advanceReceiptCodec) ∧
      advanceCommitted k faults commit (.idle db state) =
        ⟨.ok (.recovered ()), none, .idle db state⟩) ∨
    (¬ ∃ e ∈ window o h, e.commit = commit ∧ e.kind = .advance ∧ e.codec = advanceReceiptCodec) ∧
      ∃ err, advanceCommitted k faults commit (.idle db state) =
        ⟨.error err, none, .idle db state⟩ := by
  rcases hx.classify_old hk .advance advanceReceiptCodec hseq with
    ⟨e, hmem, hcommit, hkind, hcodec, hc⟩ | ⟨hno, err, hc⟩
  · exact .inl ⟨⟨e, hmem, hcommit, hkind, hcodec⟩, thunk_ok (applyAdvance_retry _ hc)⟩
  · exact .inr ⟨hno, _, thunk_error hk (applyAdvance_error _ hc) hx⟩

/-- **A commit that is not the next one** leaves everything as it is. -/
theorem applyCommitted_other (hne : commit.sequence.toNat ≠ o.initialSequence.toNat + h.length) :
    ∃ r, applyCommitted k faults commit op (.idle db state) = ⟨r, none, .idle db state⟩ ∧
      ∀ out, r ≠ .ok (.applied out) := by
  rcases hne.lt_or_gt with hlt | hgt
  · rcases applyCommitted_old faults op hk hx hlt with
      ⟨_, -, -, -, -, out, -, hrun⟩ | ⟨-, err, hrun⟩ <;> exact ⟨_, hrun, nofun⟩
  · obtain ⟨expected, hc⟩ := hx.classify_gap .operation k.receiptCodec hgt
    exact ⟨_, thunk_error hk (applyOperation_error _ hc) hx, nofun⟩

theorem advanceCommitted_other (hne : commit.sequence.toNat ≠ o.initialSequence.toNat + h.length) :
    ∃ r, advanceCommitted k faults commit (.idle db state) = ⟨r, none, .idle db state⟩ ∧
      ∀ out, r ≠ .ok (.applied out) := by
  rcases hne.lt_or_gt with hlt | hgt
  · rcases advanceCommitted_old faults hk hx hlt with ⟨-, hrun⟩ | ⟨-, err, hrun⟩ <;>
      exact ⟨_, hrun, nofun⟩
  · obtain ⟨expected, hc⟩ := hx.classify_gap .advance advanceReceiptCodec hgt
    exact ⟨_, thunk_error hk (applyAdvance_error _ hc) hx, nofun⟩

variable (hnew : commit.sequence.toNat = o.initialSequence.toNat + h.length)
include hnew

variable {op} in
/-- **The next commit with an operation that keeps its transaction** is refused without a trace, or
applied and stored. -/
theorem applyCommitted_kept
    (hkept : (op.apply ⟨db, some db⟩).2 = ⟨db, some { db with app := app }⟩) :
    (∃ err, applyCommitted k faults commit op (.idle db state) =
      ⟨.error err, none, .idle db state⟩ ∧
      (faults = {} → ∀ e, ¬ Stores k state commit (op.apply ⟨db, some db⟩).1 e)) ∨
    ∃ e out db' state', Stores k state commit (op.apply ⟨db, some db⟩).1 e ∧
      (op.apply ⟨db, some db⟩).1 = .ok out ∧ db'.app = app ∧
      applyCommitted k faults commit op (.idle db state) =
        ⟨.ok (.applied out), none, .idle db' state'⟩ ∧ Exact o (h ++ [e]) db' state' := by
  have hc := hx.classify_new .operation k.receiptCodec hnew
  cases hb : faults.begin with
  | some m =>
    refine .inl ⟨.engine (.sqlite m), thunk_error hk (applyOperation_failed _ hc ?_) hx,
      fun hf => by rw [hf] at hb; cases hb⟩
    rw [hb]
    exact withTransaction_fault m _ _ _
  | none =>
    rcases applyInside_kept faults hk hx hnew hkept with
      ⟨err, d, hin, hno⟩ | ⟨e, out, db', hst, hout, happ, hin, hx'⟩
    · refine .inl ⟨err, thunk_error hk (applyOperation_failed _ hc ?_) hx, hno⟩
      rw [hb, withTransaction_idle, hin]
      rfl
    · rw [hst.kind] at hx'
      refine .inr ⟨e, out, db', _, hst, hout, happ, thunk_ok (applyOperation_applied _ hc ?_), hx'⟩
      rw [hb, withTransaction_idle, hin]
      rfl

/-- **The next commit when SQLite does not fail**: the tables are those of one more entry exactly if
there is one to store. -/
theorem applyCommitted_free :
    ∃ result db' state', applyCommitted k {} commit op (.idle db state) =
      ⟨result, none, .idle db' state'⟩ ∧
      ((∃ e, Stores k state commit (op.apply ⟨db, some db⟩).1 e ∧ Exact o (h ++ [e]) db' state') ∨
      (∀ e, ¬ Stores k state commit (op.apply ⟨db, some db⟩).1 e) ∧ Exact o h db' state') := by
  have hc := hx.classify_new .operation k.receiptCodec hnew
  rcases op.confined db with ⟨app, hkept⟩ | ⟨app, hended⟩
  · rcases applyCommitted_kept {} hk hx hnew hkept with
      ⟨err, hrun, hno⟩ | ⟨e, out, db', state', hst, -, -, hrun, hx'⟩
    · exact ⟨_, _, _, hrun, .inr ⟨hno rfl, hx⟩⟩
    · exact ⟨_, _, _, hrun, .inl ⟨e, hst, hx'⟩⟩
  · obtain ⟨err, db', hin, happ, hcases⟩ := applyInside_ended hk hx hnew hended
    have hrun : applyOperation k {} commit op (.idle db state) =
        (.error err, .idle db' state) := by
      refine applyOperation_failed _ hc ?_
      rw [show ({} : Faults).begin = none from rfl, withTransaction_idle, hin]
      rfl
    rcases hcases with ⟨e, hst, hx'⟩ | ⟨hno, rfl⟩
    · exact ⟨_, _, _, thunk_error hk hrun hx', .inl ⟨e, hst, hx'⟩⟩
    · exact ⟨_, _, _, thunk_error hk hrun (hx.of_app app), .inr ⟨hno, hx.of_app app⟩⟩

theorem advanceCommitted_new :
    (∃ err, advanceCommitted k faults commit (.idle db state) =
      ⟨.error err, none, .idle db state⟩ ∧
      (faults = {} → ∀ e : Entry k, ¬ (e.commit = commit ∧ e.output = none))) ∨
    ∃ (e : Entry k) (db' : Db A) (state' : StoredState C), e.commit = commit ∧ e.output = none ∧
      db'.app = db.app ∧ advanceCommitted k faults commit (.idle db state) =
        ⟨.ok (.applied ()), none, .idle db' state'⟩ ∧ Exact o (h ++ [e]) db' state' := by
  have hc := hx.classify_new .advance advanceReceiptCodec hnew
  cases hb : faults.begin with
  | some m =>
    refine .inl ⟨.sqlite m, thunk_error hk (applyAdvance_new _ hc
      (r := .error (.sqlite m)) ?_) hx, fun hf => by rw [hf] at hb; cases hb⟩
    rw [hb]
    exact withTransaction_fault m _ _ _
  | none =>
    rcases advanceInside_cases faults hk hx hnew with
      ⟨err, d, hin, hno⟩ | ⟨e, db', hcommit, hout, happ, hin, hx'⟩
    · refine .inl ⟨err, thunk_error hk (applyAdvance_new _ hc (r := .error err) ?_) hx, hno⟩
      rw [hb, withTransaction_idle, hin]
      rfl
    · refine .inr ⟨e, db', _, hcommit, hout, happ,
        thunk_ok (applyAdvance_new _ hc (r := .ok ()) ?_), hx'⟩
      rw [hb, withTransaction_idle, hin]
      rfl

end

end Hiqlite.External
