import Hiqlite.External.Install

/-!
# G10 — the frontier of an engine

What a request does to the frontier of any database whose metadata can be read, whatever else is in
it. Unless the writer is poisoned the state is still what is read, and the frontier has not moved back:
**`applyCommitted_forward`**, **`advanceCommitted_forward`**, **`snapshotRequest_forward`**.
-/

namespace Hiqlite.External

open Exec


variable {A C E Out ε : Type} {k : Codec C Out} {faults : Faults} {state : StoredState C}
  {commit : ExternalCommit C} {kind : ExternalEntryKind} {s : Session (Db A)}
  {m m' : Option (Except String MetadataRow)} {db : Db A}

/-- **The state in memory is what is read from the tables**. -/
structure Sound (k : Codec C Out) (w : Writer A C) : Prop where
  idle : w.conn.txn = none
  loads : loadState k w.conn.file = .ok w.state

/-- The metadata `m'` is `m` with the commit as its frontier. -/
def Marks (k : Codec C Out) (state : StoredState C) (commit : ExternalCommit C)
    (kind : ExternalEntryKind) (digest : Sha256Digest) (m m' : Option (Except String MetadataRow)) :
    Prop :=
  ∃ coordinate, k.serialize commit.coordinate = .ok coordinate ∧
    m' = m.map (·.map (withLastApplied commit coordinate kind digest
      (floorOf commit.sequence state.receiptRetention state.initialSequence)))

/-! ## What is written to the metadata -/

theorem execute_cases (fault : Option String) (stmt : Db A → Except String (Db A))
    (s : Session (Db A)) : (∃ e, execute fault stmt s = (.error e, s)) ∨
      ∃ d, stmt s.view = .ok d ∧ execute fault stmt s = (.ok (), s.write d) := by
  cases fault with
  | some e => exact .inl ⟨_, execute_fault e stmt s⟩
  | none =>
    cases hstmt : stmt s.view with
    | error e => exact .inl ⟨.sqlite e, by simp [execute, permit, hstmt, Except.mapError]⟩
    | ok d => exact .inr ⟨d, rfl, execute_ok stmt hstmt⟩

theorem insertReceipt_metadata {row : ReceiptRow} {db d : Db A} (h : insertReceipt row db = .ok d) :
    d.metadata = db.metadata := by
  unfold insertReceipt at h
  split at h
  · cases h
  · split at h <;> cases h
    rfl

theorem updateMetadata_metadata {f : MetadataRow → MetadataRow} {db d : Db A}
    (h : updateMetadata f db = .ok d) : d.metadata = db.metadata.map (·.map f) := by
  unfold updateMetadata at h
  split at h
  · cases h
  · next hm =>
    cases h
    rw [hm]
    rfl

theorem deleteReceipts_metadata {floor : Bytes} {db d : Db A} (h : deleteReceipts floor db = .ok d) :
    d.metadata = db.metadata := by
  unfold deleteReceipts at h
  split at h <;> cases h
  rfl

theorem persist_marks (faults : Faults) (state : StoredState C) (commit : ExternalCommit C)
    (kind : ExternalEntryKind) (codec : String) (receipt : Bytes) (digest : Sha256Digest)
    (s : Session (Db A)) :
    ∃ r d, persistNewCommit k faults state commit kind codec receipt digest s = (r, s.write d) ∧
      (d.metadata = s.view.metadata ∨
        Marks k state commit kind digest s.view.metadata d.metadata) ∧
      (r = .ok () → Marks k state commit kind digest s.view.metadata d.metadata) := by
  cases hser : k.serialize commit.coordinate with
  | error e =>
    refine ⟨.error (.serialization e), s.view, ?_, .inl rfl, nofun⟩
    rw [persist_serialize_error hser, Session.write_view]
  | ok coordinate =>
    unfold persistNewCommit
    simp only [hser, Except.mapError, lift_ok, pure_bind]
    rcases execute_cases faults.insert
        (insertReceipt (receiptRow commit coordinate kind codec receipt digest)) s with
      ⟨e, h1⟩ | ⟨d1, hd1, h1⟩
    · exact ⟨.error e, s.view, by rw [bind_error h1, Session.write_view], .inl rfl, nofun⟩
    have hm1 := insertReceipt_metadata hd1
    rw [bind_ok h1]
    rcases execute_cases faults.update (updateMetadata (withLastApplied commit coordinate kind digest
        (floorOf commit.sequence state.receiptRetention state.initialSequence))) (s.write d1) with
      ⟨e, h2⟩ | ⟨d2, hd2, h2⟩
    · exact ⟨_, d1, bind_error h2, .inl hm1, nofun⟩
    have hm2 := updateMetadata_metadata hd2
    rw [Session.view_write, hm1] at hm2
    have hmarks : Marks k state commit kind digest s.view.metadata d2.metadata :=
      ⟨coordinate, hser, hm2⟩
    rw [bind_ok h2, Session.write_write]
    rcases execute_cases faults.delete (deleteReceipts (encodeU64
        (floorOf commit.sequence state.receiptRetention state.initialSequence))) (s.write d2) with
      ⟨e, h3⟩ | ⟨d3, hd3, h3⟩
    · exact ⟨_, d2, h3, .inr hmarks, nofun⟩
    have hm3 := deleteReceipts_metadata hd3
    rw [Session.view_write] at hm3
    rw [← hm3] at hmarks
    exact ⟨_, d3, by rw [h3, Session.write_write], .inr hmarks, fun _ => hmarks⟩

theorem commit_cases (fault : Option String) (s : Session (Db A)) :
    (∃ e, commitTransaction fault s = (.error e, s)) ∨
      ∃ d, s.txn = some d ∧ commitTransaction fault s = (.ok (), ⟨d, none⟩) := by
  cases fault with
  | some e => exact .inl ⟨_, commit_fault e s⟩
  | none =>
    obtain ⟨f, t⟩ := s
    cases t with
    | none => exact .inl ⟨_, commit_idle f⟩
    | some d => exact .inr ⟨d, rfl, commit_open f d⟩

theorem persist_commit_marks (faults : Faults) (state : StoredState C) (commit : ExternalCommit C)
    (kind : ExternalEntryKind) (codec : String) (receipt : Bytes) (digest : Sha256Digest)
    (hview : s.view.metadata = m) (hfile : s.file.metadata = m) : ∃ r s', (do
        persistNewCommit k faults state commit kind codec receipt digest
        commitTransaction faults.commit : Exec (Session (Db A)) ExternalError Unit) s = (r, s') ∧
      (s'.file.metadata = m ∨ Marks k state commit kind digest m s'.file.metadata) ∧
      (r = .ok () → Marks k state commit kind digest m s'.file.metadata) := by
  obtain ⟨r, d, hp, hmoved, hmarks⟩ :=
    persist_marks (k := k) faults state commit kind codec receipt digest s
  rw [hview] at hmoved hmarks
  -- The file has the new metadata where no transaction is open.
  have hwrite : (s.write d).file.metadata = m ∨
      Marks k state commit kind digest m (s.write d).file.metadata := by
    obtain ⟨f, t⟩ := s
    cases t with
    | none => exact hmoved
    | some x => exact .inl hfile
  cases r with
  | error e => exact ⟨_, _, bind_error hp, hwrite, nofun⟩
  | ok u =>
    rcases commit_cases faults.commit (s.write d) with ⟨e, hc⟩ | ⟨x, hx, hc⟩
    · exact ⟨_, _, (bind_ok hp).trans hc, hwrite, nofun⟩
    · have hd : x = d := by
        obtain ⟨f, t⟩ := s
        cases t with
        | none => cases hx
        | some y => exact (Option.some.inj hx).symm
      subst hd
      exact ⟨_, _, (bind_ok hp).trans hc, .inr (hmarks rfl), fun _ => hmarks rfl⟩

theorem storeResult_marks (faults : Faults) (result : Except E Out) (hview : s.view.metadata = m)
    (hfile : s.file.metadata = m) : ∃ r s', storeResult k faults state commit result s = (r, s') ∧
      (s'.file.metadata = m ∨ ∃ digest, Marks k state commit .operation digest m s'.file.metadata) ∧
      ∀ out digest, r = .ok (out, digest) →
        Marks k state commit .operation digest m s'.file.metadata := by
  by_cases hst : ∃ e, Stores k state commit result e
  · obtain ⟨e, hst⟩ := hst
    obtain ⟨out, hout, -⟩ := hst.1
    have hkind := hst.kind
    obtain rfl : e.commit = commit := hst.2.1
    rw [storeResult_stores hst hout, hkind]
    obtain ⟨r, s', hrun, hmoved, hmarks⟩ := persist_commit_marks (k := k) faults state e.commit
      .operation e.codec e.receipt (k.sha256 e.receipt) hview hfile
    have hengine := engine_eq (E := E) hrun
    rw [engine_bind] at hengine
    rw [← bind_assoc']
    cases r with
    | error err => exact ⟨_, _, bind_error hengine, hmoved.imp id fun h => ⟨_, h⟩, nofun⟩
    | ok u =>
      refine ⟨_, _, bind_ok hengine, hmoved.imp id fun h => ⟨_, h⟩, fun out' digest hr => ?_⟩
      cases hr
      exact hmarks rfl
  · obtain ⟨err, hs⟩ := storeResult_rejected faults s (not_exists.mp hst)
    exact ⟨_, s, hs, .inl hfile, nofun⟩

theorem applyInside_marks (faults : Faults) (state : StoredState C) (commit : ExternalCommit C)
    (op : Operation A E Out) (db : Db A) :
    ∃ r s', applyInside k faults state commit op ⟨db, some db⟩ = (r, s') ∧
      (s'.file.metadata = db.metadata ∨
        ∃ digest, Marks k state commit .operation digest db.metadata s'.file.metadata) ∧
      ∀ out digest, r = .ok (out, digest) →
        Marks k state commit .operation digest db.metadata s'.file.metadata := by
  unfold applyInside
  cases faults.authorizer with
  | some e => exact ⟨_, _, rfl, .inl rfl, nofun⟩
  | none =>
    simp only [permit, lift_ok, engine_pure, pure_bind]
    -- The operation leaves the metadata alone.
    have hkept : (op.apply ⟨db, some db⟩).2.view.metadata = db.metadata ∧
        (op.apply ⟨db, some db⟩).2.file.metadata = db.metadata := by
      rcases op.confined db with ⟨app, h⟩ | ⟨app, h⟩ <;> rw [h] <;> exact ⟨rfl, rfl⟩
    have hexec : (op.exec : Exec _ (ExternalApplyError E) _) ⟨db, some db⟩ =
        (.ok (op.apply ⟨db, some db⟩).1, (op.apply ⟨db, some db⟩).2) := rfl
    rw [bind_ok hexec]
    cases faults.unauthorizer with
    | some e => exact ⟨_, _, rfl, .inl hkept.2, nofun⟩
    | none => exact storeResult_marks faults _ hkept.1 hkept.2

/-! ## What a call leaves behind -/

/-- What a call with `commit` can leave of a writer, and whether it has failed. -/
inductive Leaves (k : Codec C Out) (commit : ExternalCommit C) (kind : ExternalEntryKind)
    (w : Writer A C) : Bool → Writer A C → Prop
  | same (failed : Bool) : Leaves k commit kind w failed w
  | failed (db : Db A)
      (hnew : ∀ a, w.state.lastApplied = some a → a.commit.sequence.toNat < commit.sequence.toNat)
      (hm : db.metadata = w.conn.file.metadata ∨
        ∃ digest, Marks k w.state commit kind digest w.conn.file.metadata db.metadata) :
      Leaves k commit kind w true ⟨⟨db, none⟩, w.state⟩
  | applied (db : Db A) (digest : Sha256Digest)
      (hnew : ∀ a, w.state.lastApplied = some a → a.commit.sequence.toNat < commit.sequence.toNat)
      (hm : Marks k w.state commit kind digest w.conn.file.metadata db.metadata) :
      Leaves k commit kind w false ⟨⟨db, none⟩, updateStateAfterCommit w.state commit kind digest⟩

theorem loadState_metadata {db' : Db A} (h : db'.metadata = db.metadata) :
    loadState k db' = loadState k db := by
  unfold loadState selectMetadata
  rw [h]

theorem Marks.loads {db' : Db A} {digest : Sha256Digest} (hk : k.Lawful)
    (hm : Marks k state commit kind digest db.metadata db'.metadata)
    (hload : loadState k db = .ok state) :
    loadState k db' = .ok (updateStateAfterCommit state commit kind digest) := by
  obtain ⟨coordinate, hser, hm⟩ := hm
  exact loadState_withLastApplied hk hload hser db' _ hm

variable [DecidableEq C] {w : Writer A C}

theorem classifyCommit_new {codec : String}
    (h : classifyCommit k db state commit kind codec = .ok .new) {a : ExternalApplied C}
    (ha : state.lastApplied = some a) : a.commit.sequence.toNat < commit.sequence.toNat := by
  unfold classifyCommit at h
  rw [ha] at h
  dsimp only at h
  split_ifs at h with hle
  · obtain ⟨r, -, h⟩ := bind_eq_ok.mp h
    cases r with
    | none => cases h
    | some r =>
      obtain ⟨_, -, h⟩ := bind_eq_ok.mp h
      cases h
  · rw [UInt64.le_iff_toNat_le] at hle
    omega

theorem reconcile_kept {w' : Writer A C}
    (h : reconcileAfterApply k false w = (.ok (), w')) : w' = { w with conn := w.conn.rollback } := by
  unfold reconcileAfterApply at h
  rw [modify_bind] at h
  exact (Prod.mk.inj h).2.symm

theorem reconcile_read {w' : Writer A C} (h : reconcileAfterApply k true w = (.ok (), w')) :
    w'.conn = w.conn.rollback ∧ loadState k w.conn.file = .ok w'.state := by
  obtain ⟨⟨f, t⟩, state⟩ := w
  unfold reconcileAfterApply at h
  simp only [Session.rollback_mk, modify_bind, if_true, get_bind, Session.view_idle] at h
  cases hload : loadState k f with
  | error e =>
    rw [hload] at h
    cases h
  | ok stored =>
    rw [hload, lift_ok, pure_bind] at h
    cases hval : validateReceipts k f stored with
    | error e =>
      rw [hval] at h
      cases h
    | ok u =>
      rw [hval, lift_ok, pure_bind] at h
      cases h
      exact ⟨rfl, rfl⟩

/-- **After a call the state is what is read, and the frontier has not moved back.** -/
theorem Leaves.reconciled {failed : Bool} {w' w'' : Writer A C} (hk : k.Lawful) (hs : Sound k w)
    (hleaves : Leaves k commit kind w failed w')
    (h : reconcileAfterApply k failed w' = (.ok (), w'')) :
    Sound k w'' ∧ Behind w.state.lastApplied w''.state.lastApplied := by
  have hahead (hnew : ∀ a, w.state.lastApplied = some a →
      a.commit.sequence.toNat < commit.sequence.toNat) (digest : Sha256Digest) :
      Behind w.state.lastApplied
        (updateStateAfterCommit w.state commit kind digest).lastApplied :=
    fun a ha => ⟨_, rfl, .inl (hnew a ha)⟩
  cases hleaves with
  | same failed =>
    have hidle : w.conn.rollback = w.conn := by
      rw [Session.rollback, ← hs.idle]
    cases failed with
    | false =>
      rw [reconcile_kept h, hidle]
      exact ⟨hs, Behind.refl _⟩
    | true =>
      obtain ⟨hconn, hload⟩ := reconcile_read h
      rw [hidle] at hconn
      have hstate : w.state = w''.state := Except.ok.inj (hs.loads.symm.trans hload)
      refine ⟨⟨by rw [hconn, hs.idle], by rw [hconn, hload]⟩, ?_⟩
      rw [← hstate]
      exact Behind.refl _
  | failed db hnew hm =>
    obtain ⟨hconn, hload⟩ := reconcile_read h
    refine ⟨⟨by rw [hconn]; rfl, by rw [hconn]; exact hload⟩, ?_⟩
    rcases hm with hm | ⟨digest, hm⟩
    · rw [loadState_metadata hm, hs.loads] at hload
      rw [← Except.ok.inj hload]
      exact Behind.refl _
    · rw [hm.loads hk hs.loads] at hload
      rw [← Except.ok.inj hload]
      exact hahead hnew digest
  | applied db digest hnew hm =>
    rw [reconcile_kept h]
    exact ⟨⟨rfl, hm.loads hk hs.loads⟩, hahead hnew digest⟩

theorem thunk_writer {T : Type} {apply : Exec (Writer A C) ε (ApplyOutcome T)}
    {wrap : ExternalError → ε} (hpoison : (thunk k apply wrap w).poison = none) :
    reconcileAfterApply k (apply w).1.toOption.isNone (apply w).2 =
      (.ok (), (thunk k apply wrap w).writer) := by
  unfold thunk at hpoison ⊢
  dsimp only at hpoison ⊢
  split at hpoison
  · next hr => rw [hr]
  · cases hpoison

theorem applyOperation_leaves (faults : Faults) (commit : ExternalCommit C)
    (op : Operation A E Out) (hidle : w.conn.txn = none) :
    Leaves k commit .operation w (applyOperation k faults commit op w).1.toOption.isNone
      (applyOperation k faults commit op w).2 := by
  obtain ⟨⟨f, t⟩, state⟩ := w
  obtain rfl : t = none := hidle
  cases hc : classifyCommit k f state commit .operation k.receiptCodec with
  | error e =>
    rw [applyOperation_error ⟨⟨f, none⟩, state⟩ hc]
    exact .same _
  | ok c =>
    cases c with
    | retry receipt =>
      cases hdec : k.decodeReceipt receipt.receipt with
      | ok out =>
        rw [applyOperation_retry ⟨⟨f, none⟩, state⟩ hc hdec]
        exact .same _
      | error e =>
        rw [applyOperation_undecoded ⟨⟨f, none⟩, state⟩ hc hdec]
        exact .same _
    | new =>
      have hnew : ∀ a, state.lastApplied = some a →
          a.commit.sequence.toNat < commit.sequence.toNat := fun a => classifyCommit_new hc
      cases hb : faults.begin with
      | some m =>
        rw [applyOperation_failed ⟨⟨f, none⟩, state⟩ hc
          (by rw [hb]; exact withTransaction_fault m _ _ _)]
        exact .same _
      | none =>
        obtain ⟨r, s', hin, hm, hmarks⟩ := applyInside_marks (k := k) faults state commit op f
        have htxn : withTransaction faults.begin (applyInside k faults state commit op) .engine
            ⟨f, none⟩ = (r, ⟨s'.file, none⟩) := by
          rw [hb, withTransaction_idle, hin]
          rfl
        cases r with
        | error e =>
          rw [applyOperation_failed ⟨⟨f, none⟩, state⟩ hc htxn]
          exact .failed _ hnew hm
        | ok p =>
          rw [applyOperation_applied ⟨⟨f, none⟩, state⟩ hc htxn]
          exact .applied _ _ hnew (hmarks p.1 p.2 rfl)

theorem applyAdvance_leaves (faults : Faults) (commit : ExternalCommit C)
    (hidle : w.conn.txn = none) :
    Leaves k commit .advance w (applyAdvance k faults commit w).1.toOption.isNone
      (applyAdvance k faults commit w).2 := by
  obtain ⟨⟨f, t⟩, state⟩ := w
  obtain rfl : t = none := hidle
  cases hc : classifyCommit k f state commit .advance advanceReceiptCodec with
  | error e =>
    rw [applyAdvance_error ⟨⟨f, none⟩, state⟩ hc]
    exact .same _
  | ok c =>
    cases c with
    | retry receipt =>
      rw [applyAdvance_retry ⟨⟨f, none⟩, state⟩ hc]
      exact .same _
    | new =>
      have hnew : ∀ a, state.lastApplied = some a →
          a.commit.sequence.toNat < commit.sequence.toNat := fun a => classifyCommit_new hc
      cases hb : faults.begin with
      | some m =>
        rw [applyAdvance_new ⟨⟨f, none⟩, state⟩ hc (r := .error (.sqlite m))
          (by rw [hb]; exact withTransaction_fault m _ _ _)]
        exact .same _
      | none =>
        obtain ⟨r, s', hin, hm, hmarks⟩ := persist_commit_marks (k := k) (s := ⟨f, some f⟩) faults
          state commit .advance advanceReceiptCodec unitReceipt (k.sha256 unitReceipt) rfl rfl
        have htxn : withTransaction faults.begin (advanceInside k faults state commit) id
            ⟨f, none⟩ = (r, ⟨s'.file, none⟩) := by
          rw [hb, withTransaction_idle, advanceInside, hin]
          rfl
        rw [applyAdvance_new ⟨⟨f, none⟩, state⟩ hc htxn]
        cases r with
        | error e => exact .failed _ hnew (hm.imp id fun h => ⟨_, h⟩)
        | ok u => exact .applied _ _ hnew (hmarks rfl)

theorem applyCommitted_forward (hk : k.Lawful) (hs : Sound k w) (faults : Faults)
    (commit : ExternalCommit C) (op : Operation A E Out)
    (hpoison : (applyCommitted k faults commit op w).poison = none) :
    Sound k (applyCommitted k faults commit op w).writer ∧
      Behind w.state.lastApplied (applyCommitted k faults commit op w).writer.state.lastApplied :=
  (applyOperation_leaves faults commit op hs.idle).reconciled hk hs (thunk_writer hpoison)

theorem advanceCommitted_forward (hk : k.Lawful) (hs : Sound k w) (faults : Faults)
    (commit : ExternalCommit C) (hpoison : (advanceCommitted k faults commit w).poison = none) :
    Sound k (advanceCommitted k faults commit w).writer ∧
      Behind w.state.lastApplied (advanceCommitted k faults commit w).writer.state.lastApplied :=
  (applyAdvance_leaves faults commit hs.idle).reconciled hk hs (thunk_writer hpoison)

omit [DecidableEq C] in
theorem snapshotRequest_forward (hs : Sound k w) (faults : SnapshotFaults) (snapshotId : String) :
    Sound k (snapshotRequest faults snapshotId w).2 ∧
      (snapshotRequest faults snapshotId w).2.state.lastApplied = w.state.lastApplied := by
  obtain ⟨⟨f, t⟩, state⟩ := w
  obtain ⟨rfl, hload⟩ := hs
  rcases snapshotRequest_ok hload faults snapshotId with ⟨e, hrun⟩ | ⟨r, db', hrun, -, -, hload', -⟩
  · rw [hrun]
    exact ⟨⟨rfl, hload⟩, rfl⟩
  · rw [hrun]
    exact ⟨⟨rfl, hload'⟩, rfl⟩

end Hiqlite.External
