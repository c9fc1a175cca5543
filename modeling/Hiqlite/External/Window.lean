import Hiqlite.External.Snapshot

/-!
# G6 — the receipts of every reachable engine

* `Reach.exact`: the tables are those after the entries that were accepted on the way;
* **`reach_window`**: the receipts are exactly those of the latest entries, the state is what is read
  from the tables, and the tables pass the checks of a start.
-/

namespace Hiqlite.External

open List Option

variable {A C Out E : Type} [DecidableEq C] {k : Codec C Out}

def Accepts (k : Codec C Out) (w : Writer A C) (commit : ExternalCommit C) (op : Operation A E Out)
    (e : Entry k) : Prop :=
  classifyCommit k w.conn.view w.state commit .operation k.receiptCodec = .ok .new ∧
    Stores k w.state commit (op.apply ⟨w.conn.file, some w.conn.file⟩).1 e

def Advances (k : Codec C Out) (w : Writer A C) (commit : ExternalCommit C) (e : Entry k) : Prop :=
  classifyCommit k w.conn.view w.state commit .advance advanceReceiptCodec = .ok .new ∧
    e.commit = commit ∧ e.output = none

/-- **The writers that can be reached**, with their options and the entries they have accepted. -/
inductive Reach (k : Codec C Out) :
    ExternalSqliteOptions → List (Entry k) → Writer A C → Prop
  /-- `open` without a database, or `adopt_existing_projection` of the tables `app`. -/
  | opened {o : ExternalSqliteOptions} {w : Writer A C} (app : A) (hvalid : o.validate = .ok ())
      (hopen : openWriter k o (createMetadataTables k o ⟨app, none, none⟩) = .ok w) : Reach k o [] w
  | applied {o : ExternalSqliteOptions} {h : List (Entry k)} {w : Writer A C} {E : Type}
      {e : Entry k} (hr : Reach k o h w) (commit : ExternalCommit C) (op : Operation A E Out)
      (hacc : Accepts k w commit op e) :
      Reach k o (h ++ [e]) (applyCommitted k {} commit op w).writer
  | refused {o : ExternalSqliteOptions} {h : List (Entry k)} {w : Writer A C} {E : Type}
      (hr : Reach k o h w) (commit : ExternalCommit C) (op : Operation A E Out)
      (hno : ∀ e, ¬ Accepts k w commit op e) : Reach k o h (applyCommitted k {} commit op w).writer
  | advanced {o : ExternalSqliteOptions} {h : List (Entry k)} {w : Writer A C} {e : Entry k}
      (hr : Reach k o h w) (commit : ExternalCommit C) (hacc : Advances k w commit e) :
      Reach k o (h ++ [e]) (advanceCommitted k {} commit w).writer
  | stayed {o : ExternalSqliteOptions} {h : List (Entry k)} {w : Writer A C}
      (hr : Reach k o h w) (commit : ExternalCommit C) (hno : ∀ e, ¬ Advances k w commit e) :
      Reach k o h (advanceCommitted k {} commit w).writer
  | failed {o : ExternalSqliteOptions} {h : List (Entry k)} {w : Writer A C} {E : Type}
      (hr : Reach k o h w) (faults : Faults) (commit : ExternalCommit C) (op : Operation A E Out)
      (hkept : (op.apply ⟨w.conn.file, some w.conn.file⟩).2.txn.isSome)
      {err : ExternalApplyError E} (hres : (applyCommitted k faults commit op w).result = .error err) :
      Reach k o h (applyCommitted k faults commit op w).writer
  | notAdvanced {o : ExternalSqliteOptions} {h : List (Entry k)} {w : Writer A C}
      (hr : Reach k o h w) (faults : Faults) (commit : ExternalCommit C) {err : ExternalError}
      (hres : (advanceCommitted k faults commit w).result = .error err) :
      Reach k o h (advanceCommitted k faults commit w).writer
  | snapshot {o : ExternalSqliteOptions} {h : List (Entry k)} {w : Writer A C} (hr : Reach k o h w)
      (faults : SnapshotFaults) (snapshotId : String) :
      Reach k o h (snapshotRequest faults snapshotId w).2
  | restored {o o' : ExternalSqliteOptions} {h h' : List (Entry k)} {w w' : Writer A C}
      (hr : Reach k o h w) (hr' : Reach k o' h' w') (validated : Option (SnapshotFile A))
      (file : SnapshotFile A) (evidence : ExternalSnapshotEvidence C) (hfile : file.db = w'.conn.file)
      (faults : RestoreFaults A) {ev : ExternalSnapshotEvidence C}
      (hres : (restoreRequest k faults validated (some file) evidence w).result = .ok ev) :
      Reach k o h' (restoreRequest k faults validated (some file) evidence w).writer
  | notRestored {o : ExternalSqliteOptions} {h : List (Entry k)} {w : Writer A C}
      (hr : Reach k o h w) (faults : RestoreFaults A) (validated restored : Option (SnapshotFile A))
      (evidence : ExternalSnapshotEvidence C) {err : ExternalError}
      (hok : (restoreRequest k faults validated restored evidence w).poison = none)
      (hres : (restoreRequest k faults validated restored evidence w).result = .error err) :
      Reach k o h (restoreRequest k faults validated restored evidence w).writer
  /-- `shutdown`, and `open` with any options that are accepted. -/
  | reopened {o o' : ExternalSqliteOptions} {h : List (Entry k)} {w w' : Writer A C}
      (hr : Reach k o h w) (hopen : openWriter k o' w.conn.file = .ok w') : Reach k o' h w'

variable {o o' : ExternalSqliteOptions} {h : List (Entry k)} {w : Writer A C} {db : Db A}
  {state : StoredState C} {commit : ExternalCommit C}

/-! ## The tables of a reachable writer -/

omit [DecidableEq C] in
theorem Stores.unique {r : Except E Out} {e e' : Entry k} (he : Stores k state commit r e)
    (he' : Stores k state commit r e') : e = e' := by
  obtain ⟨⟨out, hr, hout⟩, hcommit, -⟩ := he
  obtain ⟨⟨out', hr', hout'⟩, hcommit', -⟩ := he'
  obtain rfl : out = out' := Except.ok.inj (hr.symm.trans hr')
  exact Entry.eq_of (hcommit.trans hcommit'.symm) (hout.trans hout'.symm)

theorem openWriter_ok (hopen : openWriter k o db = .ok w) : ∃ state, loadState k db = .ok state ∧
    validateConfiguration k state o = .ok () ∧ validateReceipts k db state = .ok () ∧
      w = .idle db state := by
  unfold openWriter at hopen
  obtain ⟨state, hload, hopen⟩ := bind_eq_ok.mp hopen
  obtain ⟨_, hconf, hopen⟩ := bind_eq_ok.mp hopen
  obtain ⟨_, hval, hopen⟩ := bind_eq_ok.mp hopen
  exact ⟨state, hload, hconf, hval, (Except.ok.inj hopen).symm⟩

section

omit [DecidableEq C]

theorem validateConfiguration_iff : validateConfiguration k state o = .ok () ↔
    state.applicationId = o.applicationId ∧ state.initialSequence = o.initialSequence ∧
    state.initialStateSchema = o.initialStateSchema ∧ state.receiptCodec = k.receiptCodec ∧
    state.receiptRetention = o.receiptRetention ∧ state.maxReceiptBytes = o.maxReceiptBytes := by
  unfold validateConfiguration
  simp [append_eq_nil_iff]

theorem Exact.of_options (hx : Exact o h db state) (hconf : validateConfiguration k state o' = .ok ()) :
    Exact o' h db state := by
  obtain ⟨happ, hinit, hschema, -, hret, hmax⟩ := validateConfiguration_iff.mp hconf
  have hinit' : o'.initialSequence = o.initialSequence := by rw [← hinit, hx.initialSequence]
  have hret' : o'.receiptRetention = o.receiptRetention := by rw [← hret, hx.receiptRetention]
  have hmax' : o'.maxReceiptBytes = o.maxReceiptBytes := by rw [← hmax, hx.maxReceiptBytes]
  have hstate : stateOf o' h state.snapshotId = stateOf o h state.snapshotId := by
    have happ' : o'.applicationId = o.applicationId := by rw [← happ, hx.state_eq]; rfl
    have hschema' : o'.initialStateSchema = o.initialStateSchema := by
      rw [← hschema, hx.state_eq]
      rfl
    rw [stateOf, stateOf, happ', hinit', hschema', hret', hmax']
  have hwindow : window o' h = window o h := by rw [window, window, hret']
  refine ⟨by rw [hret']; exact hx.retention, hx.loads, by rw [hstate]; exact hx.state_eq, ?_,
    by rw [hinit']; exact hx.numbered, by rw [hmax']; exact hx.fits⟩
  rw [hwindow]
  exact hx.receipts

theorem exact_created (hvalid : o.validate = .ok ()) (app : A) :
    Exact (k := k) o [] (createMetadataTables k o ⟨app, none, none⟩)
      (stateOf (k := k) o [] none) := by
  unfold ExternalSqliteOptions.validate at hvalid
  obtain ⟨_, -, hvalid⟩ := bind_eq_ok.mp hvalid
  obtain ⟨_, -, hvalid⟩ := bind_eq_ok.mp hvalid
  obtain ⟨_, hret, hvalid⟩ := bind_eq_ok.mp hvalid
  obtain ⟨_, hmax, -⟩ := bind_eq_ok.mp hvalid
  have hret := ensure_eq_ok.mp hret
  have hmax := ensure_eq_ok.mp hmax
  refine ⟨UInt64.le_iff_toNat_le.mp hret.1, ?_, rfl, ⟨.empty, rfl, by simp [window, Rows.empty]⟩,
    fun i e hi => by simp at hi, nofun⟩
  refine loadState_eq_ok.mpr ⟨_, stateOf (k := k) o [] none, none, none, rfl, ?_, rfl, rfl⟩
  simp [loadOptions, ensure_of, hret, hmax, externalFormatVersion, stateOf]

end

section

variable (hk : k.Lawful) (hx : Exact o h db state)
include hk hx

theorem Exact.sequence_of_new {kind : ExternalEntryKind} {codec : String}
    (hc : classifyCommit k db state commit kind codec = .ok .new) :
    commit.sequence.toNat = o.initialSequence.toNat + h.length := by
  rcases Nat.lt_trichotomy commit.sequence.toNat (o.initialSequence.toNat + h.length) with
    hlt | heq | hgt
  · rcases hx.classify_old hk kind codec hlt with
      ⟨_, -, -, -, -, hc'⟩ | ⟨-, _, hc'⟩ <;> rw [hc] at hc' <;> cases hc'
  · exact heq
  · obtain ⟨_, hc'⟩ := hx.classify_gap kind codec hgt
    rw [hc] at hc'
    cases hc'

theorem Exact.apply (commit : ExternalCommit C) (op : Operation A E Out) :
    ∃ db' state', (applyCommitted k {} commit op (.idle db state)).writer = .idle db' state' ∧
      ((∃ e, Accepts k (.idle db state) commit op e ∧ Exact o (h ++ [e]) db' state') ∨
      (∀ e, ¬ Accepts k (.idle db state) commit op e) ∧ Exact o h db' state') := by
  by_cases heq : commit.sequence.toNat = o.initialSequence.toNat + h.length
  · obtain ⟨result, db', state', hrun, hcases⟩ := applyCommitted_free op hk hx heq
    refine ⟨db', state', by rw [hrun], ?_⟩
    rcases hcases with ⟨e, hst, hx'⟩ | ⟨hno, hx'⟩
    · exact .inl ⟨e, ⟨hx.classify_new _ _ heq, hst⟩, hx'⟩
    · exact .inr ⟨fun e hacc => hno e hacc.2, hx'⟩
  · obtain ⟨r, hrun, -⟩ := applyCommitted_other {} op hk hx heq
    exact ⟨db, state, by rw [hrun], .inr ⟨fun e hacc => heq (hx.sequence_of_new hk hacc.1), hx⟩⟩

theorem Exact.advance (commit : ExternalCommit C) :
    ∃ db' state', (advanceCommitted k {} commit (.idle db state)).writer =
        (.idle db' state' : Writer A C) ∧
      ((∃ e, Advances k (.idle db state) commit e ∧ Exact o (h ++ [e]) db' state') ∨
      (∀ e, ¬ Advances k (.idle db state) commit e) ∧ Exact o h db' state') := by
  by_cases heq : commit.sequence.toNat = o.initialSequence.toNat + h.length
  · rcases advanceCommitted_new {} hk hx heq with
      ⟨err, hrun, hno⟩ | ⟨e, db', state', hcommit, hout, -, hrun, hx'⟩
    · exact ⟨db, state, by rw [hrun], .inr ⟨fun e hacc => hno rfl e hacc.2, hx⟩⟩
    · exact ⟨db', state', by rw [hrun], .inl ⟨e, ⟨hx.classify_new _ _ heq, hcommit, hout⟩, hx'⟩⟩
  · obtain ⟨r, hrun, -⟩ := advanceCommitted_other {} hk hx heq
    exact ⟨db, state, by rw [hrun], .inr ⟨fun e hacc => heq (hx.sequence_of_new hk hacc.1), hx⟩⟩

theorem Exact.apply_failed {faults : Faults} {op : Operation A E Out}
    (hkept : (op.apply ⟨db, some db⟩).2.txn.isSome) {err : ExternalApplyError E}
    (hres : (applyCommitted k faults commit op (.idle db state)).result = .error err) :
    applyCommitted k faults commit op (.idle db state) =
      ⟨.error err, none, .idle db state⟩ := by
  suffices hrun : ∃ r, applyCommitted k faults commit op (.idle db state) =
      ⟨r, none, .idle db state⟩ by
    obtain ⟨r, hrun⟩ := hrun
    rw [hrun] at hres
    cases hres
    exact hrun
  by_cases heq : commit.sequence.toNat = o.initialSequence.toNat + h.length
  · obtain ⟨app, hconf⟩ | ⟨app, hconf⟩ := op.confined db
    · rcases applyCommitted_kept faults hk hx heq hconf with
        ⟨err', hrun, -⟩ | ⟨_, _, _, _, -, -, -, hrun, -⟩
      · exact ⟨_, hrun⟩
      · rw [hrun] at hres
        cases hres
    · rw [hconf] at hkept
      cases hkept
  · exact (applyCommitted_other faults op hk hx heq).imp fun _ => And.left

theorem Exact.advance_failed {faults : Faults} {err : ExternalError}
    (hres : (advanceCommitted k faults commit (.idle db state)).result = .error err) :
    (advanceCommitted k faults commit (.idle db state)).writer = .idle db state := by
  by_cases heq : commit.sequence.toNat = o.initialSequence.toNat + h.length
  · rcases advanceCommitted_new faults hk hx heq with
      ⟨err', hrun, -⟩ | ⟨_, _, _, -, -, -, hrun, -⟩
    · rw [hrun]
    · rw [hrun] at hres
      cases hres
  · obtain ⟨r, hrun, -⟩ := advanceCommitted_other faults hk hx heq
    rw [hrun]

end

omit [DecidableEq C] in
theorem Exact.snapshot (hx : Exact o h db state) (faults : SnapshotFaults) (snapshotId : String) :
    ∃ db' state', (snapshotRequest faults snapshotId (.idle db state)).2 =
      .idle db' state' ∧ Exact o h db' state' := by
  rcases snapshotRequest_ok hx.loads faults snapshotId with
    ⟨e, hrun⟩ | ⟨r, db', hrun, -, -, hload, -, hrec⟩
  · exact ⟨db, state, by rw [hrun], hx⟩
  · refine ⟨db', _, by rw [hrun], hx.retention, hload, ?_, by rw [hrec]; exact hx.receipts,
      hx.numbered, hx.fits⟩
    rw [hx.state_eq]
    rfl

theorem Reach.exact (hk : k.Lawful) (hr : Reach k o h w) :
    ∃ db state, w = .idle db state ∧ Exact o h db state := by
  induction hr with
  | @opened o w app hvalid hopen =>
    have hx := exact_created (k := k) hvalid app
    obtain ⟨state, hload, -, -, rfl⟩ := openWriter_ok hopen
    rw [hx.loads] at hload
    cases hload
    exact ⟨_, _, rfl, hx⟩
  | applied hr commit op hacc ih =>
    obtain ⟨db, state, rfl, hx⟩ := ih
    obtain ⟨db', state', hrun, ⟨e, hacc', hx'⟩ | ⟨hno, -⟩⟩ := hx.apply hk commit op
    · obtain rfl := hacc.2.unique hacc'.2
      exact ⟨db', state', hrun, hx'⟩
    · exact absurd hacc (hno _)
  | refused hr commit op hno ih =>
    obtain ⟨db, state, rfl, hx⟩ := ih
    obtain ⟨db', state', hrun, ⟨e, hacc, -⟩ | ⟨-, hx'⟩⟩ := hx.apply hk commit op
    · exact absurd hacc (hno e)
    · exact ⟨db', state', hrun, hx'⟩
  | advanced hr commit hacc ih =>
    obtain ⟨db, state, rfl, hx⟩ := ih
    obtain ⟨db', state', hrun, ⟨e, hacc', hx'⟩ | ⟨hno, -⟩⟩ := hx.advance hk commit
    · obtain rfl := Entry.eq_of (hacc.2.1.trans hacc'.2.1.symm) (hacc.2.2.trans hacc'.2.2.symm)
      exact ⟨db', state', hrun, hx'⟩
    · exact absurd hacc (hno _)
  | stayed hr commit hno ih =>
    obtain ⟨db, state, rfl, hx⟩ := ih
    obtain ⟨db', state', hrun, ⟨e, hacc, -⟩ | ⟨-, hx'⟩⟩ := hx.advance hk commit
    · exact absurd hacc (hno e)
    · exact ⟨db', state', hrun, hx'⟩
  | failed hr faults commit op hkept hres ih =>
    obtain ⟨db, state, rfl, hx⟩ := ih
    exact ⟨db, state, by rw [hx.apply_failed hk hkept hres], hx⟩
  | notAdvanced hr faults commit hres ih =>
    obtain ⟨db, state, rfl, hx⟩ := ih
    exact ⟨db, state, hx.advance_failed hk hres, hx⟩
  | snapshot hr faults snapshotId ih =>
    obtain ⟨db, state, rfl, hx⟩ := ih
    exact hx.snapshot faults snapshotId
  | restored hr hr' validated file evidence hfile faults hres ih ih' =>
    obtain ⟨db, state, rfl, hx⟩ := ih
    obtain ⟨db', state', rfl, hx'⟩ := ih'
    rcases restoreRequest_cases k faults validated (some file) evidence (.idle db state) with
      ⟨e, hrun⟩ | ⟨e, w', hrun⟩ | ⟨f, st, hpre, hsome, hload, -, hev, hrun⟩
    · rw [hrun] at hres
      cases hres
    · rw [hrun] at hres
      cases hres
    · obtain rfl : file = f := some.inj hsome
      rw [hfile] at hload
      obtain rfl : state' = st := Except.ok.inj (hx'.loads.symm.trans hload)
      refine ⟨file.db, state', by rw [hrun], ?_⟩
      rw [hfile]
      refine hx'.of_options (validateConfiguration_iff.mpr ?_)
      -- The evidence has the values of the restored state, and those of the live one.
      obtain ⟨h1, h2, h3, h4, h5, h6⟩ := validateSnapshotCompatibility_ok (preflight_ok hpre).1
      rw [← hev] at h1 h2 h3 h4 h5 h6
      rw [hx.state_eq] at h1 h2 h3 h4 h5 h6
      exact ⟨h1, h2, h3, h4, h5, h6⟩
  | notRestored hr faults validated restored evidence hok hres ih =>
    obtain ⟨db, state, rfl, hx⟩ := ih
    rcases restoreRequest_cases k faults validated restored evidence (.idle db state) with
      ⟨e, hrun⟩ | ⟨e, w', hrun⟩ | ⟨f, st, -, -, -, -, -, hrun⟩
    · exact ⟨db, state, by rw [hrun], hx⟩
    · rw [hrun] at hok
      cases hok
    · rw [hrun] at hres
      cases hres
  | reopened hr hopen ih =>
    obtain ⟨db, state, rfl, hx⟩ := ih
    obtain ⟨st, hload, hconf, -, rfl⟩ := openWriter_ok hopen
    obtain rfl : state = st := Except.ok.inj (hx.loads.symm.trans hload)
    exact ⟨db, state, rfl, hx.of_options hconf⟩

/-! ## The window -/

/-- The sequences from `max(initial, last - (retention - 1))` to `last`. -/
def Kept (o : ExternalSqliteOptions) (last sequence : CommitSequence) : Prop :=
  max o.initialSequence.toNat (last.toNat - (o.receiptRetention.toNat - 1)) ≤ sequence.toNat ∧
    sequence.toNat ≤ last.toNat

omit [DecidableEq C] in
theorem Exact.mem_window_iff_kept (hx : Exact o h db state) {e : Entry k} : e ∈ window o h ↔
    e ∈ h ∧ ∃ last ∈ h.getLast?, Kept o last.commit.sequence e.commit.sequence := by
  rw [hx.mem_window_iff, and_congr_right_iff]
  intro he
  obtain ⟨last, hlast⟩ := ne_none_iff_exists'.mp
    (mt getLast?_eq_none_iff.mp (ne_nil_of_mem he))
  have hnum := hx.last_sequence hlast
  have hret := hx.retention
  have hlt := hx.mem_lt he
  simp only [hlast, mem_def, some.injEq, exists_eq_left', Kept]
  omega

omit [DecidableEq C] in
theorem Exact.exists_of_kept (hx : Exact o h db state) {last : Entry k} (hlast : last ∈ h.getLast?)
    {sequence : CommitSequence} (hkept : Kept o last.commit.sequence sequence) :
    ∃ e ∈ window o h, e.commit.sequence = sequence := by
  have hnum := hx.last_sequence hlast
  have hle : o.initialSequence.toNat ≤ sequence.toNat := le_trans (le_max_left _ _) hkept.1
  have hi : sequence.toNat - o.initialSequence.toNat < h.length := by
    have := hkept.2
    omega
  have hseq := hx.numbered _ _ (getElem?_eq_getElem hi)
  have heq : h[sequence.toNat - o.initialSequence.toNat].commit.sequence = sequence :=
    UInt64.toNat_inj.mp (by omega)
  refine ⟨h[sequence.toNat - o.initialSequence.toNat], hx.mem_window_iff_kept.mpr
    ⟨getElem_mem hi, last, hlast, ?_⟩, heq⟩
  rw [heq]
  exact hkept

/-- **The receipts of a reachable engine** are those of the entries whose sequences are kept. What
is read from the tables is the state in memory, and a start on them succeeds. -/
theorem reach_window (hk : k.Lawful) (hr : Reach k o h w) :
    (∀ i e, h[i]? = some e → e.commit.sequence.toNat = o.initialSequence.toNat + i) ∧
    w.state.lastApplied = h.getLast?.map Entry.applied ∧
    (∃ table, w.conn.file.receipts = some table ∧
      (∀ row, row ∈ table.rows ↔ ∃ e ∈ h, row = e.row ∧
        ∃ last ∈ h.getLast?, Kept o last.commit.sequence e.commit.sequence) ∧
      (∀ sequence, (∃ row ∈ table.rows, row.sequence = encodeU64 sequence) ↔
        ∃ last ∈ h.getLast?, Kept o last.commit.sequence sequence)) ∧
    (∀ e ∈ h, ∀ last ∈ h.getLast?, Kept o last.commit.sequence e.commit.sequence →
      loadReceipt k w.conn.file e.commit.sequence w.state.maxReceiptBytes = .ok (some e.stored) ∧
      ∀ out ∈ e.output, k.decodeReceipt e.receipt = .ok out) ∧
    w.conn.txn = none ∧ loadState k w.conn.file = .ok w.state ∧
    validateReceipts k w.conn.file w.state = .ok () ∧ openWriter k o w.conn.file = .ok w := by
  obtain ⟨db, state, rfl, hx⟩ := hr.exact hk
  obtain ⟨table, htable, hrows⟩ := hx.receipts
  have hval := hx.validateReceipts hk
  have hconf : validateConfiguration k state o = .ok () := by
    rw [hx.state_eq]
    exact validateConfiguration_iff.mpr ⟨rfl, rfl, rfl, rfl, rfl, rfl⟩
  have hmem : ∀ row, row ∈ table.rows ↔ ∃ e ∈ h, row = e.row ∧
      ∃ last ∈ h.getLast?, Kept o last.commit.sequence e.commit.sequence := by
    intro row
    rw [hrows, List.mem_map]
    constructor
    · rintro ⟨e, he, rfl⟩
      obtain ⟨he, hkept⟩ := hx.mem_window_iff_kept.mp he
      exact ⟨e, he, rfl, hkept⟩
    · rintro ⟨e, he, rfl, hkept⟩
      exact ⟨e, hx.mem_window_iff_kept.mpr ⟨he, hkept⟩, rfl⟩
  refine ⟨hx.numbered, hx.lastApplied, ⟨table, htable, hmem, fun sequence => ⟨?_, ?_⟩⟩, ?_, rfl,
    hx.loads, hval, ?_⟩
  · rintro ⟨row, hrow, hseq⟩
    obtain ⟨e, -, rfl, hkept⟩ := (hmem row).mp hrow
    rw [← encodeU64_injective hseq]
    exact hkept
  · rintro ⟨last, hlast, hkept⟩
    obtain ⟨e, he, rfl⟩ := hx.exists_of_kept hlast hkept
    exact ⟨e.row, by rw [hrows]; exact mem_map_of_mem he, rfl⟩
  · intro e he last hlast hkept
    refine ⟨hx.loadReceipt_mem hk (hx.mem_window_iff_kept.mpr ⟨he, last, hlast, hkept⟩), ?_⟩
    intro out hout
    have henc := e.encoded
    rw [hout] at henc
    exact hk.receipt henc
  · rw [openWriter, hx.loads, ok_bind, hconf, ok_bind, hval, ok_bind]
    rfl

/-! ## A counter -/

def oneByte : Codec UInt8 UInt8 where
  serialize c := .ok [c]
  deserialize b :=
    match b with
    | [] => .error "unexpected end"
    | c :: _ => .ok (c, 1)
  sha256 b := ⟨replicate 32 (b.headD 0), by simp⟩
  receiptCodec := "one-byte"
  encodeReceipt x := .ok [x]
  decodeReceipt b :=
    match b with
    | [x] => .ok x
    | _ => .error "not one byte"

theorem oneByte_lawful : oneByte.Lawful where
  coordinate h := by cases h; rfl
  receipt h := by cases h; rfl

def keepOne : ExternalSqliteOptions where
  applicationId := "counter"
  initialSequence := 5
  initialStateSchema := 1
  preparedStatementCacheCapacity := 128
  readPoolSize := 4
  receiptRetention := 1
  maxReceiptBytes := 64
  durability := .full

def commitAt (sequence : CommitSequence) (coordinate : UInt8) : ExternalCommit UInt8 :=
  ⟨sequence, coordinate, ⟨replicate 32 0, rfl⟩, 1, 1⟩

def count : Operation ℕ String UInt8 := .atomic fun n => .ok (n + 1, UInt8.ofNat (n + 1))

def entryAt (sequence : CommitSequence) (coordinate out : UInt8) : Entry oneByte :=
  ⟨commitAt sequence coordinate, [coordinate], some out, [out], rfl, rfl⟩

def newCounter (o : ExternalSqliteOptions) (n : ℕ) : Writer ℕ UInt8 :=
  ⟨⟨createMetadataTables oneByte o ⟨n, none, none⟩, none⟩, stateOf (k := oneByte) o [] none⟩

def counted (w : Writer ℕ UInt8) (sequence : CommitSequence) (coordinate : UInt8) :
    Writer ℕ UInt8 :=
  (applyCommitted oneByte {} (commitAt sequence coordinate) count w).writer

theorem counted_reach : Reach oneByte keepOne [entryAt 5 0 1, entryAt 6 0 2]
    (counted (counted (newCounter keepOne 0) 5 0) 6 0) := by
  have h0 : Reach oneByte keepOne [] (newCounter keepOne 0) := .opened 0 (by rfl) (by rfl)
  have h1 : Reach oneByte keepOne [entryAt 5 0 1] (counted (newCounter keepOne 0) 5 0) :=
    h0.applied (e := entryAt 5 0 1) _ count ⟨rfl, ⟨1, rfl, rfl⟩, rfl, by decide⟩
  exact h1.applied (e := entryAt 6 0 2) _ count ⟨by rfl, ⟨2, by rfl, rfl⟩, rfl, by decide⟩

theorem reach_window_counted : ∃ table,
    (counted (counted (newCounter keepOne 0) 5 0) 6 0).conn.file.receipts = some table ∧
      ∀ sequence, (∃ row ∈ table.rows, row.sequence = encodeU64 sequence) ↔
        ∃ last ∈ [entryAt 5 0 1, entryAt 6 0 2].getLast?,
          Kept keepOne last.commit.sequence sequence := by
  obtain ⟨-, -, ⟨table, htable, -, hkept⟩, -⟩ := reach_window oneByte_lawful counted_reach
  exact ⟨table, htable, hkept⟩

end Hiqlite.External
