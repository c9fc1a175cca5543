import Hiqlite.External.Engine

/-!
# G3 — the tables as a record of what was accepted

* **`Exact`**: the tables and the state are those after the accepted entries `h`;
* **`Exact.classify_new`**, **`Exact.classify_old`**: what a commit is taken for;
* **`Exact.append`**: what is stored for the next entry; `Exact.append_ne`.
-/

namespace Hiqlite.External

open List Option

variable {A C Out : Type}

structure Entry (k : Codec C Out) where
  commit : ExternalCommit C
  coordinate : Bytes
  output : Option Out
  receipt : Bytes
  serialized : k.serialize commit.coordinate = .ok coordinate
  encoded : output.elim (.ok unitReceipt) k.encodeReceipt = .ok receipt

namespace Entry

variable {k : Codec C Out}

def kind (e : Entry k) : ExternalEntryKind :=
  if e.output.isSome then .operation else .advance

def codec (e : Entry k) : String :=
  if e.output.isSome then k.receiptCodec else advanceReceiptCodec

def row (e : Entry k) : ReceiptRow :=
  receiptRow e.commit e.coordinate e.kind e.codec e.receipt (k.sha256 e.receipt)

def applied (e : Entry k) : ExternalApplied C := ⟨e.commit, e.kind, k.sha256 e.receipt⟩

def stored (e : Entry k) : StoredReceipt C :=
  ⟨e.commit, e.kind, e.codec, e.receipt, k.sha256 e.receipt⟩

theorem eq_of {e e' : Entry k} (hcommit : e.commit = e'.commit) (hout : e.output = e'.output) :
    e = e' := by
  obtain ⟨commit, coordinate, output, receipt, hser, henc⟩ := e
  obtain ⟨commit', coordinate', output', receipt', hser', henc'⟩ := e'
  obtain rfl : commit = commit' := hcommit
  obtain rfl : output = output' := hout
  obtain rfl : coordinate = coordinate' := Except.ok.inj (hser.symm.trans hser')
  obtain rfl : receipt = receipt' := Except.ok.inj (henc.symm.trans henc')
  rfl

@[simp] theorem row_sequence (e : Entry k) : e.row.sequence = encodeU64 e.commit.sequence := rfl

end Entry

def window {k : Codec C Out} (o : ExternalSqliteOptions) (h : List (Entry k)) : List (Entry k) :=
  h.drop (h.length - o.receiptRetention.toNat)

def stateOf {k : Codec C Out} (o : ExternalSqliteOptions) (h : List (Entry k))
    (snapshotId : Option String) : StoredState C where
  applicationId := o.applicationId
  initialSequence := o.initialSequence
  initialStateSchema := o.initialStateSchema
  receiptCodec := k.receiptCodec
  receiptRetention := o.receiptRetention
  maxReceiptBytes := o.maxReceiptBytes
  lastApplied := h.getLast?.map Entry.applied
  receiptFloor := h.getLast?.map fun e =>
    floorOf e.commit.sequence o.receiptRetention o.initialSequence
  snapshotId := snapshotId

/-- **The tables and the state are those after the entries `h`.** -/
structure Exact {k : Codec C Out} (o : ExternalSqliteOptions) (h : List (Entry k)) (db : Db A)
    (state : StoredState C) : Prop where
  retention : 1 ≤ o.receiptRetention.toNat
  loads : loadState k db = .ok state
  state_eq : state = stateOf o h state.snapshotId
  receipts : ∃ table, db.receipts = some table ∧ table.rows = (window o h).map Entry.row
  numbered : ∀ i e, h[i]? = some e → e.commit.sequence.toNat = o.initialSequence.toNat + i
  fits : ∀ e ∈ h, e.receipt.length ≤ o.maxReceiptBytes.toNat

namespace Exact

variable {k : Codec C Out} {o : ExternalSqliteOptions} {h : List (Entry k)} {db : Db A}
  {state : StoredState C} {commit : ExternalCommit C} {kind : ExternalEntryKind} {codec : String}
  {e : Entry k}

section

variable (hx : Exact o h db state)
include hx

theorem metadata_isSome : db.metadata.isSome := by
  obtain ⟨row, _, _, _, hrow, -⟩ := loadState_eq_ok.mp hx.loads
  rw [hrow]
  rfl

theorem lastApplied : state.lastApplied = h.getLast?.map Entry.applied := by
  rw [hx.state_eq]
  rfl

theorem receiptFloor : state.receiptFloor =
    h.getLast?.map fun e => floorOf e.commit.sequence o.receiptRetention o.initialSequence := by
  rw [hx.state_eq]
  rfl

theorem initialSequence : state.initialSequence = o.initialSequence := by
  rw [hx.state_eq]
  rfl

theorem receiptRetention : state.receiptRetention = o.receiptRetention := by
  rw [hx.state_eq]
  rfl

theorem maxReceiptBytes : state.maxReceiptBytes = o.maxReceiptBytes := by
  rw [hx.state_eq]
  rfl

theorem last_sequence (he : h.getLast? = some e) :
    e.commit.sequence.toNat + 1 = o.initialSequence.toNat + h.length := by
  have hpos : 0 < h.length := length_pos_of_mem (mem_of_getLast? he)
  rw [getLast?_eq_getElem?] at he
  rw [hx.numbered _ e he]
  omega

theorem mem_window_iff : e ∈ window o h ↔
    e ∈ h ∧ o.initialSequence.toNat + (h.length - o.receiptRetention.toNat) ≤
      e.commit.sequence.toNat := by
  constructor
  · intro he
    refine ⟨mem_of_mem_drop he, ?_⟩
    obtain ⟨i, hi⟩ := mem_iff_getElem?.mp he
    rw [window, getElem?_drop] at hi
    rw [hx.numbered _ e hi]
    omega
  · rintro ⟨he, hle⟩
    obtain ⟨i, hi⟩ := mem_iff_getElem?.mp he
    rw [hx.numbered i e hi] at hle
    refine mem_iff_getElem?.mpr ⟨i - (h.length - o.receiptRetention.toNat), ?_⟩
    rw [window, getElem?_drop, Nat.add_sub_cancel' (by omega), hi]

theorem eq_of_sequence {e' : Entry k} (he : e ∈ h) (he' : e' ∈ h)
    (hseq : e.commit.sequence = e'.commit.sequence) : e = e' := by
  obtain ⟨i, hi⟩ := mem_iff_getElem?.mp he
  obtain ⟨j, hj⟩ := mem_iff_getElem?.mp he'
  have hij : i = j := by
    have h1 := hx.numbered i e hi
    have h2 := hx.numbered j e' hj
    rw [hseq] at h1
    omega
  rw [hij, hj] at hi
  exact (some.inj hi).symm

theorem mem_lt (he : e ∈ h) : e.commit.sequence.toNat < o.initialSequence.toNat + h.length := by
  obtain ⟨i, hi⟩ := List.mem_iff_getElem?.mp he
  have hlt : i < h.length := (List.getElem?_eq_some_iff.mp hi).1
  rw [hx.numbered i e hi]
  omega

end

/-! ## The receipts -/

theorem find_eq {table : Rows ReceiptRow.sequence}
    (hrows : table.rows = (window o h).map Entry.row) (sequence : CommitSequence) :
    table.find (encodeU64 sequence) =
      ((window o h).find? (·.commit.sequence = sequence)).map Entry.row := by
  rw [Rows.find, hrows, find?_map]
  congr 2
  funext e
  exact decide_eq_decide.mpr ⟨encodeU64_injective, fun heq => congrArg encodeU64 heq⟩

theorem find_window (hx : Exact o h db state) (he : e ∈ window o h) :
    (window o h).find? (·.commit.sequence = e.commit.sequence) = some e := by
  cases hf : (window o h).find? (·.commit.sequence = e.commit.sequence) with
  | none => exact absurd (decide_eq_true rfl) (find?_eq_none.mp hf e he)
  | some e' =>
    have hseq : e'.commit.sequence = e.commit.sequence := by simpa using find?_some hf
    have hmem : e' ∈ window o h := mem_of_find?_eq_some hf
    rw [hx.eq_of_sequence (mem_of_mem_drop hmem) (mem_of_mem_drop he) hseq]

theorem loadReceipt_mem (hk : k.Lawful) (hx : Exact o h db state) (he : e ∈ window o h) :
    loadReceipt k db e.commit.sequence state.maxReceiptBytes = .ok (some e.stored) := by
  obtain ⟨table, htable, hrows⟩ := hx.receipts
  have hfits : e.row.receipt.length ≤ o.maxReceiptBytes.toNat :=
    hx.fits e (mem_of_mem_drop he)
  have hfind : table.find (encodeU64 e.commit.sequence) = some e.row := by
    rw [find_eq hrows, hx.find_window he]
    rfl
  rw [loadReceipt, selectReceipts, htable, hx.maxReceiptBytes]
  simp only [ok_bind, hfind]
  rw [ensure_of hfits]
  simp [Entry.row, receiptRow, hk.deserializeExact e.serialized, ensure_of, Entry.stored]

theorem loadReceipt_none (hx : Exact o h db state) {sequence : CommitSequence}
    (hno : ∀ e ∈ window o h, e.commit.sequence ≠ sequence) (maximum : UInt64) :
    loadReceipt k db sequence maximum = .ok none := by
  obtain ⟨table, htable, hrows⟩ := hx.receipts
  have hfind : table.find (encodeU64 sequence) = none := by
    rw [find_eq hrows, find?_eq_none.mpr fun e he => by simpa using hno e he]
    rfl
  rw [loadReceipt, selectReceipts, htable]
  simp only [ok_bind, hfind]
  rfl

theorem validateReceipt (hk : k.Lawful) (hx : Exact o h db state) (he : e ∈ h)
    (sequence : CommitSequence) : validateReceipt k state sequence e.stored = .ok () := by
  have hcodec : state.receiptCodec = k.receiptCodec := by
    rw [hx.state_eq]
    rfl
  have hfits := hx.fits e he
  rw [← hx.maxReceiptBytes] at hfits
  have henc := e.encoded
  unfold External.validateReceipt
  cases hout : e.output with
  | none =>
    rw [hout] at henc
    have hunit : e.receipt = unitReceipt := (Except.ok.inj henc).symm
    rw [hunit] at hfits
    simp [Entry.stored, Entry.kind, Entry.codec, hout, ensure_of hfits, hunit, ensure_of]
  | some out =>
    rw [hout] at henc
    have hdec := hk.receipt (show k.encodeReceipt out = .ok e.receipt from henc)
    simp [Entry.stored, Entry.kind, Entry.codec, hout, hcodec, ensure_of hfits, hdec, ensure_of]

theorem validateEach (hk : k.Lawful) (hx : Exact o h db state) (floor : CommitSequence) (offset : ℕ)
    {l : List (Entry k)} (hl : ∀ e ∈ l, e ∈ window o h)
    (hnum : ∀ i e, l[i]? = some e → e.commit.sequence.toNat = floor.toNat + (offset + i)) :
    validateEach k db state floor offset (l.map fun e => encodeU64 e.commit.sequence) = .ok () := by
  induction l generalizing offset with
  | nil => rfl
  | cons e l ih =>
    have he : e ∈ window o h := hl e mem_cons_self
    have hseq : e.commit.sequence = floor + UInt64.ofNat offset := by
      have hn := hnum 0 e rfl
      have hlt := e.commit.sequence.toNat_lt
      refine UInt64.toNat_inj.mp ?_
      rw [UInt64.toNat_add, UInt64.toNat_ofNat', Nat.add_mod_mod, Nat.mod_eq_of_lt (by omega), hn]
      omega
    have hrest := ih (offset + 1) (fun e he => hl e (mem_cons_of_mem _ he))
      fun i e hi => by rw [hnum (i + 1) e hi]; omega
    rw [map_cons, External.validateEach, decodeU64_encodeU64, ok_bind, ensure_of hseq, ok_bind,
      hx.loadReceipt_mem hk he, ok_bind]
    dsimp only
    rw [hx.validateReceipt hk (mem_of_mem_drop he), ok_bind]
    exact hrest

theorem window_length (o : ExternalSqliteOptions) (h : List (Entry k)) :
    (window o h).length = min h.length o.receiptRetention.toNat := by
  rw [window, length_drop]
  omega

theorem window_numbered (hx : Exact o h db state) (i : ℕ) (e : Entry k)
    (hi : (window o h)[i]? = some e) : e.commit.sequence.toNat =
      o.initialSequence.toNat + (h.length - o.receiptRetention.toNat) + i := by
  rw [window, getElem?_drop] at hi
  rw [hx.numbered _ e hi]
  omega

theorem floor_toNat (hx : Exact o h db state) (he : h.getLast? = some e) :
    (floorOf e.commit.sequence o.receiptRetention o.initialSequence).toNat =
      o.initialSequence.toNat + (h.length - o.receiptRetention.toNat) := by
  have hlast := hx.last_sequence he
  have hret := hx.retention
  rw [floorOf_toNat]
  omega

/-! ## The next entry -/

theorem of_app (hx : Exact o h db state) (app : A) : Exact o h { db with app := app } state :=
  { hx with }

theorem window_append (o : ExternalSqliteOptions) (h : List (Entry k)) (e : Entry k) :
    window o h ++ [e] = ((h ++ [e]).drop (h.length - o.receiptRetention.toNat)).take
      (h.length + 1 - o.receiptRetention.toNat - (h.length - o.receiptRetention.toNat)) ++
        window o (h ++ [e]) := by
  have hdrop : window o (h ++ [e]) = ((h ++ [e]).drop (h.length - o.receiptRetention.toNat)).drop
      (h.length + 1 - o.receiptRetention.toNat - (h.length - o.receiptRetention.toNat)) := by
    rw [window, length_append, length_singleton, drop_drop]
    congr 1
    omega
  rw [hdrop, take_append_drop, window, drop_append_of_le_length (by omega)]

theorem append (hk : k.Lawful) (hx : Exact o h db state)
    (hseq : e.commit.sequence.toNat = o.initialSequence.toNat + h.length)
    (hfits : e.receipt.length ≤ o.maxReceiptBytes.toNat) :
    ∃ table table', db.receipts = some table ∧ table.insert e.row = some table' ∧ ∀ app : A,
      Exact o (h ++ [e])
        (persisted state e.commit e.coordinate e.kind (k.sha256 e.receipt) table'
          { db with app := app })
        (updateStateAfterCommit state e.commit e.kind (k.sha256 e.receipt)) := by
  obtain ⟨table, htable, hrows⟩ := hx.receipts
  have hret := hx.retention
  have hgreatest : ∀ row ∈ table.rows, row.sequence < e.row.sequence := by
    intro row hrow
    rw [hrows] at hrow
    obtain ⟨e', he', rfl⟩ := mem_map.mp hrow
    rw [Entry.row_sequence, Entry.row_sequence, encodeU64_lt_iff, hseq]
    exact hx.mem_lt (mem_of_mem_drop he')
  obtain ⟨table', hinsert, hrows'⟩ := Rows.rows_insert_last hgreatest
  -- The numbers of the old entries and of the new one.
  have hnum : ∀ i e', (h ++ [e])[i]? = some e' →
      e'.commit.sequence.toNat = o.initialSequence.toNat + i := by
    intro i e' hi
    rcases Nat.lt_or_ge i h.length with hlt | hge
    · rw [getElem?_append_left hlt] at hi
      exact hx.numbered i e' hi
    · rw [getElem?_append_right hge] at hi
      obtain ⟨hzero, rfl⟩ : i = h.length ∧ e = e' := by
        rcases hj : i - h.length with _ | j
        · rw [hj] at hi
          exact ⟨by omega, by simpa using hi⟩
        · rw [hj] at hi
          cases hi
      rw [hseq, hzero]
  refine ⟨table, table', htable, hinsert, fun app => ?_⟩
  have hfloor := floorOf_toNat e.commit.sequence o.receiptRetention o.initialSequence
  refine ⟨hret, ?_, ?_, ⟨_, rfl, ?_⟩, hnum, ?_⟩
  · exact loadState_withLastApplied hk hx.loads e.serialized _ _ rfl
  · rw [updateStateAfterCommit, hx.state_eq]
    simp [stateOf, Entry.applied]
  · have hsplit := congrArg (map Entry.row) (window_append o h e)
    rw [map_append, map_append, ← hrows] at hsplit
    refine Rows.rows_deleteBelow (hrows'.trans hsplit) ?_ ?_
    · intro row hrow
      obtain ⟨e', he', rfl⟩ := mem_map.mp hrow
      obtain ⟨i, hi⟩ := mem_iff_getElem?.mp he'
      rw [getElem?_take] at hi
      split_ifs at hi with hlt
      rw [getElem?_drop] at hi
      rw [Entry.row_sequence, encodeU64_lt_iff, hnum _ e' hi, hx.receiptRetention,
        hx.initialSequence, hfloor, hseq]
      omega
    · intro row hrow
      obtain ⟨e', he', rfl⟩ := mem_map.mp hrow
      obtain ⟨i, hi⟩ := mem_iff_getElem?.mp he'
      rw [window, getElem?_drop] at hi
      rw [Entry.row_sequence, encodeU64_lt_iff, hnum _ e' hi, hx.receiptRetention,
        hx.initialSequence, hfloor, hseq, length_append, length_singleton]
      omega
  · intro e' he'
    rcases mem_append.mp he' with he' | he'
    · exact hx.fits e' he'
    · rw [mem_singleton.mp he']
      exact hfits

theorem append_ne {db' : Db A} {state' : StoredState C} (hx : Exact o h db state)
    (hx' : Exact o (h ++ [e]) db' state') : db' ≠ db := by
  rintro rfl
  obtain rfl : state = state' := Except.ok.inj (hx.loads.symm.trans hx'.loads)
  have hlast := hx.lastApplied.symm.trans hx'.lastApplied
  rw [getLast?_concat] at hlast
  obtain ⟨last, hl, heq⟩ := map_eq_some_iff.mp hlast
  have hseq : last.commit = e.commit := congrArg ExternalApplied.commit heq
  have h1 := hx.last_sequence hl
  have h2 := hx'.last_sequence (getLast?_concat ..)
  rw [hseq] at h1
  rw [length_append, length_singleton] at h2
  omega

variable [DecidableEq C]

theorem validateReceipts (hk : k.Lawful) (hx : Exact o h db state) :
    validateReceipts k db state = .ok () := by
  obtain ⟨table, htable, hrows⟩ := hx.receipts
  have hkeys : table.rows.map ReceiptRow.sequence =
      (window o h).map fun e => encodeU64 e.commit.sequence := by
    rw [hrows, List.map_map]
    rfl
  have hlen : table.rows.length = min h.length o.receiptRetention.toNat := by
    rw [hrows, length_map, window_length]
  have hsel : selectReceipts db = .ok table := by rw [selectReceipts, htable]
  unfold External.validateReceipts
  rw [hx.lastApplied, hx.receiptFloor, hx.receiptRetention, hx.initialSequence, hsel]
  cases he : h.getLast? with
  | none =>
    obtain rfl : h = [] := getLast?_eq_none_iff.mp he
    have hzero : table.rows.length = 0 := by rw [hlen]; rfl
    exact ensure_of hzero
  | some e =>
    have hfloor := hx.floor_toNat he
    have hlast := hx.last_sequence he
    have hret := hx.retention
    have hpos : 0 < h.length := length_pos_of_mem (mem_of_getLast? he)
    have hle : floorOf e.commit.sequence o.receiptRetention o.initialSequence ≤
        e.commit.sequence := by
      rw [UInt64.le_iff_toNat_le, hfloor]
      omega
    have hmem : e ∈ window o h := by
      refine hx.mem_window_iff.mpr ⟨mem_of_getLast? he, ?_⟩
      omega
    -- The last sequence minus the floor plus one, which does not overflow.
    have hcount : (e.commit.sequence -
        floorOf e.commit.sequence o.receiptRetention o.initialSequence + 1).toNat =
          table.rows.length := by
      have hlt := o.receiptRetention.toNat_lt
      rw [UInt64.toNat_add, UInt64.toNat_sub_of_le _ _ hle, hfloor, hlen]
      change (_ + 1) % _ = _
      rw [Nat.mod_eq_of_lt (by omega)]
      omega
    have hle' : e.commit.sequence -
        floorOf e.commit.sequence o.receiptRetention o.initialSequence + 1 ≤
          o.receiptRetention := by
      rw [UInt64.le_iff_toNat_le, hcount, hlen]
      omega
    have hcount' : UInt64.ofNat table.rows.length = e.commit.sequence -
        floorOf e.commit.sequence o.receiptRetention o.initialSequence + 1 := by
      rw [← hcount, UInt64.ofNat_toNat]
    have heach := hx.validateEach hk
      (floorOf e.commit.sequence o.receiptRetention o.initialSequence) 0 (l := window o h)
      (fun _ h => h) fun i e' hi => by rw [hx.window_numbered i e' hi, hfloor]; omega
    have hload := hx.loadReceipt_mem hk hmem
    simp only [map_some, Entry.applied]
    rw [ensure_of hle, ok_bind, ensure_of hle', ok_bind, ensure_of trivial, ok_bind, ok_bind,
      ensure_of hcount', ok_bind, hkeys, heach, ok_bind, hload, ok_bind]
    exact ensure_of ⟨rfl, rfl, rfl⟩

/-! ## Commits -/

theorem classify_new (hx : Exact o h db state) (kind : ExternalEntryKind) (codec : String)
    (hseq : commit.sequence.toNat = o.initialSequence.toNat + h.length) :
    classifyCommit k db state commit kind codec = .ok .new := by
  unfold classifyCommit
  rw [hx.lastApplied, hx.initialSequence]
  cases he : h.getLast? with
  | none =>
    obtain rfl : h = [] := getLast?_eq_none_iff.mp he
    exact if_pos (UInt64.toNat_inj.mp hseq)
  | some e =>
    have hlast := hx.last_sequence he
    have hlt := commit.sequence.toNat_lt
    simp only [map_some, Entry.applied]
    rw [if_neg (by rw [UInt64.le_iff_toNat_le]; omega), checkedNext, if_pos (by omega), ok_bind,
      ensure_of]
    · rfl
    · refine UInt64.toNat_inj.mp ?_
      rw [UInt64.toNat_add]
      change _ = (_ + 1) % _
      rw [Nat.mod_eq_of_lt (by omega)]
      omega

theorem classify_gap (hx : Exact o h db state) (kind : ExternalEntryKind) (codec : String)
    (hseq : o.initialSequence.toNat + h.length < commit.sequence.toNat) :
    ∃ expected, classifyCommit k db state commit kind codec =
      .error (.sequenceGap expected commit.sequence) := by
  unfold classifyCommit
  rw [hx.lastApplied, hx.initialSequence]
  cases he : h.getLast? with
  | none =>
    obtain rfl : h = [] := getLast?_eq_none_iff.mp he
    rw [length_nil] at hseq
    have hne : commit.sequence ≠ o.initialSequence := fun heq => by
      rw [heq] at hseq
      omega
    refine ⟨o.initialSequence, ?_⟩
    simp only [map_none]
    rw [if_neg hne, if_pos (by rw [UInt64.lt_iff_toNat_lt]; omega)]
  | some e =>
    have hlast := hx.last_sequence he
    have hlt := commit.sequence.toNat_lt
    simp only [map_some, Entry.applied]
    rw [if_neg (by rw [UInt64.le_iff_toNat_le]; omega), checkedNext, if_pos (by omega), ok_bind]
    refine ⟨e.commit.sequence + 1, ?_⟩
    rw [ensure_not]
    · rfl
    · intro heq
      rw [heq, UInt64.toNat_add] at hseq
      change _ < (_ + 1) % _ at hseq
      rw [Nat.mod_eq_of_lt (by omega)] at hseq
      omega

theorem classify_old (hk : k.Lawful) (hx : Exact o h db state) (kind : ExternalEntryKind)
    (codec : String) (hseq : commit.sequence.toNat < o.initialSequence.toNat + h.length) :
    (∃ e ∈ window o h, e.commit = commit ∧ e.kind = kind ∧ e.codec = codec ∧
      classifyCommit k db state commit kind codec = .ok (.retry e.stored)) ∨
    (¬ ∃ e ∈ window o h, e.commit = commit ∧ e.kind = kind ∧ e.codec = codec) ∧
      ∃ err, classifyCommit k db state commit kind codec = .error err := by
  unfold classifyCommit
  rw [hx.lastApplied, hx.initialSequence]
  cases he : h.getLast? with
  | none =>
    obtain rfl : h = [] := getLast?_eq_none_iff.mp he
    rw [length_nil] at hseq
    have hne : commit.sequence ≠ o.initialSequence := fun heq => by
      rw [heq] at hseq
      omega
    refine .inr ⟨by simp [window], .sequenceBeforeInitial o.initialSequence commit.sequence, ?_⟩
    simp only [map_none]
    rw [if_neg hne, if_neg (by rw [UInt64.lt_iff_toNat_lt]; omega)]
  | some last =>
    have hlast := hx.last_sequence he
    simp only [map_some, Entry.applied]
    rw [if_pos (by rw [UInt64.le_iff_toNat_le]; omega)]
    by_cases hmem : ∃ e ∈ window o h, e.commit.sequence = commit.sequence
    · obtain ⟨e, hmem, heq⟩ := hmem
      rw [← heq, hx.loadReceipt_mem hk hmem, ok_bind]
      dsimp only
      by_cases hsame : e.commit = commit ∧ e.kind = kind ∧ e.codec = codec
      · refine .inl ⟨e, hmem, hsame.1, hsame.2.1, hsame.2.2, ?_⟩
        rw [ensure_of (show e.stored.commit = commit ∧ e.stored.kind = kind ∧
          e.stored.codec = codec from hsame)]
        rfl
      · refine .inr ⟨?_, _, by rw [ensure_not (show ¬ (e.stored.commit = commit ∧
          e.stored.kind = kind ∧ e.stored.codec = codec) from hsame)]; rfl⟩
        rintro ⟨e', hmem', hsame'⟩
        have heq' : e'.commit.sequence = e.commit.sequence := by rw [hsame'.1, heq]
        rw [hx.eq_of_sequence (mem_of_mem_drop hmem') (mem_of_mem_drop hmem) heq'] at hsame'
        exact hsame hsame'
    · have hno : ∀ e ∈ window o h, e.commit.sequence ≠ commit.sequence :=
        fun e hin heq => hmem ⟨e, hin, heq⟩
      rw [hx.loadReceipt_none hno, ok_bind]
      refine .inr ⟨?_, _, rfl⟩
      rintro ⟨e, hin, rfl, -⟩
      exact hmem ⟨e, hin, rfl⟩

end Exact

end Hiqlite.External
