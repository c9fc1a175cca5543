import Hiqlite.Sqlite.MigrateOnce

/-!
# N3 — migrations of several clients

Every client reads the applied migrations, drops those from its own list and sends the others. The
read may come from a replica that lags behind.

* `Inv.step`: the table stays a beginning of the longest list;
* **`rollout_migrates`**; `old_version_panics`.
-/

namespace Hiqlite.Client

open List Function
open Sqlite

/-! ## The client -/

/-- What `migrate_execute_dedup` does with what it has read. -/
inductive Dedup
  | done
  | panic
  | send (ms : List Migration)
  deriving DecidableEq

/-- How the applied migrations compare with the given ones. -/
inductive Compared
  | missing
  | mismatch
  | matching
  deriving DecidableEq

/-- The loop of `migrate_execute_dedup`. Names are not compared. -/
def compareApplied : List Migration → List AppliedMigration → Compared
  | _, [] => .matching
  | [], _ :: _ => .missing
  | m :: ms, a :: as =>
    if m.id ≠ a.id ∨ m.hash ≠ a.hash then .mismatch else compareApplied ms as

/-- `migrate_execute_dedup`, up to its request. -/
def dedup (migrations : List Migration) (applied : List AppliedMigration) : Dedup :=
  match compareApplied migrations applied with
  | .missing => .done
  | .mismatch => .panic
  | .matching =>
    let left :=
      match applied.getLast? with
      | some last => migrations.filter fun m => m.id > last.id
      | none => migrations
    if left.isEmpty then .done else .send left

/-! ## The clients and the writer -/

/-- A call of `migrate_execute_dedup`. -/
inductive CallState
  | idle
  | waiting (second : Bool)
  | ok
  | error
  | panicked
  deriving DecidableEq

variable {A M L E S ι : Type}

structure Sent (ι : Type) where
  client : ι
  second : Bool
  migrations : List Migration

structure Rollout (A M L E ι : Type) where
  /-- The write connection, unless the writer has panicked. -/
  writer : Option (Conn A M L E)
  /-- The applied migrations after each committed request. -/
  tables : List (List AppliedMigration)
  calls : ι → CallState
  sent : List (Sent ι)

inductive Move (ι : Type)
  /-- A client reads from a replica that has applied the first `n` requests. -/
  | read (i : ι) (n : ℕ)
  | readFails (i : ι)
  /-- A request is committed. Its answer may get lost. -/
  | commit (k : ℕ) (id : Option LogId) (heard : Bool)
  /-- The first request of a client is answered by a node that does not lead. -/
  | forward (i : ι)
  /-- A client gets some other error. Its request may still be committed. -/
  | fail (i : ι)

def appliedIn (table : A → Option (List MigrationRow)) (c : Conn A M L E) : List AppliedMigration :=
  ((table c.file.app).getD []).map MigrationRow.applied

namespace Rollout

variable [DecidableEq ι] (X : Engine A L E S) (table : A → Option (List MigrationRow))
  (lists : ι → List Migration)

def start (c : Conn A M L E) : Rollout A M L E ι :=
  ⟨some c, [appliedIn table c], fun _ => .idle, []⟩

def proceed (s : Rollout A M L E ι) (i : ι) (applied : List AppliedMigration) : Rollout A M L E ι :=
  match dedup (lists i) applied with
  | .done => { s with calls := update s.calls i .ok }
  | .panic => { s with calls := update s.calls i .panicked }
  | .send ms =>
    { s with
      calls := update s.calls i (.waiting false)
      sent := s.sent ++ [⟨i, false, ms⟩] }

def answer (s : Rollout A M L E ι) (r : Sent ι) (ok : Bool) : ι → CallState :=
  if s.calls r.client = .waiting r.second then
    update s.calls r.client (if ok then .ok else .error)
  else s.calls

def apply (s : Rollout A M L E ι) (r : Sent ι) (c : Conn A M L E) (id : Option LogId)
    (heard : Bool) : Rollout A M L E ι :=
  match migrate X c r.migrations id with
  | none => { s with writer := none }
  | some (c', res) =>
    { s with
      writer := some c'
      tables := s.tables ++ [appliedIn table c']
      calls := if heard then s.answer r res.isOk else s.calls }

def step (s : Rollout A M L E ι) : Move ι → Option (Rollout A M L E ι)
  | .read i n =>
    match s.calls i, s.tables[n]? with
    | .idle, some applied => some (s.proceed lists i applied)
    | _, _ => none
  | .readFails i =>
    match s.calls i with
    | .idle => some (s.proceed lists i [])
    | _ => none
  | .commit k id heard =>
    match s.sent[k]?, s.writer with
    | some r, some c => some ({ s with sent := s.sent.eraseIdx k }.apply X table r c id heard)
    | _, _ => none
  | .forward i =>
    match s.calls i with
    | .waiting false =>
      some { s with
        calls := update s.calls i (.waiting true)
        sent := s.sent ++ [⟨i, true, lists i⟩] }
    | _ => none
  | .fail i =>
    match s.calls i with
    | .waiting _ => some { s with calls := update s.calls i .error }
    | _ => none

/-- A request is committed while the table is no longer than the list of its client. -/
def covered (s : Rollout A M L E ι) : Move ι → Bool
  | .commit k _ _ =>
    match s.sent[k]?, s.writer with
    | some r, some c => ((table c.file.app).getD []).length ≤ (lists r.client).length
    | _, _ => true
  | _ => true

def Step (s : Rollout A M L E ι) (m : Move ι) (t : Rollout A M L E ι) : Prop :=
  s.step X table lists m = some t ∧ s.covered table lists m = true

end Rollout

/-! ## Beginnings of one list -/

section Lists

variable {full : List Migration}

theorem compareApplied_take (full : List Migration) (n k : ℕ) :
    compareApplied (full.take n) ((full.take k).map Migration.applied) =
      if min k full.length ≤ n then .matching else .missing := by
  induction full generalizing n k with
  | nil => simp [compareApplied]
  | cons m ms ih =>
    cases k with
    | zero => simp [compareApplied]
    | succ k =>
      cases n with
      | zero => simp [compareApplied]
      | succ n =>
        simp only [take_succ_cons, map_cons, compareApplied, Migration.applied, ne_eq,
          not_true_eq_false, or_self, ↓reduceIte]
        rw [ih n k, length_cons]
        split_ifs <;> first | rfl | omega

/-- **What a client does** with the first `k` migrations of the list of which its own is the first
`n`. -/
theorem dedup_take (hfull : NumberedFrom Migration.id 1 full) {n k : ℕ} (hn : n ≤ full.length)
    (hk : k ≤ full.length) : dedup (full.take n) ((full.take k).map Migration.applied) =
      if n ≤ k then .done else .send ((full.take n).drop k) := by
  rw [dedup, compareApplied_take, min_eq_left hk]
  have htake : NumberedFrom Migration.id 1 (full.take n) := hfull.take n
  by_cases hkn : k ≤ n
  · have hleft : (match ((full.take k).map Migration.applied).getLast? with
        | some last => (full.take n).filter fun m => decide (m.id > last.id)
        | none => full.take n) = (full.take n).drop k := by
      rcases Nat.eq_zero_or_pos k with rfl | hpos
      · simp
      · have hlt : k - 1 < full.length := by omega
        have hget : ((full.take k).map Migration.applied).getLast? = some (full[k - 1]).applied := by
          rw [getLast?_map, getLast?_take, if_neg (by omega)]
          simp [hlt]
        have hid : (full[k - 1]).id.toNat = k := (hfull.getElem hlt).trans (by omega)
        rw [hget]
        dsimp only
        have hge := htake.filter_ge (k + 1)
        rw [Nat.add_sub_cancel] at hge
        rw [← hge]
        exact filter_congr fun m _ => decide_eq_decide.mpr (by
          rw [gt_iff_lt, Migration.applied, UInt32.lt_iff_toNat_lt, hid, Nat.lt_iff_add_one_le])
    have hempty : ((full.take n).drop k).isEmpty = true ↔ n ≤ k := by
      rw [List.isEmpty_iff, List.drop_eq_nil_iff, List.length_take, min_eq_left hn]
    rw [if_pos hkn]
    dsimp only
    rw [hleft]
    simp only [hempty]
  · rw [if_neg hkn]
    exact (if_pos (show n ≤ k by omega)).symm

theorem take_add_of_prefix {done : List Migration} {n m : ℕ} (h : done <+: (full.take m).drop n) :
    done.length ≤ m - n ∧ full.take (n + done.length) = full.take n ++ done := by
  rw [drop_take] at h
  refine ⟨h.length_le.trans (length_take_le _ _), ?_⟩
  rw [take_add, ← prefix_iff_eq_take.mp (h.trans ( take_prefix _ _))]

end Lists

/-! ## The invariant -/

section Invariant

variable [DecidableEq ι] {X : Engine A L E S} {table : A → Option (List MigrationRow)} {D : A → Prop}
  {lists : ι → List Migration} {full : List Migration} {d0 : Db A M} {k0 n n' : ℕ}
  {s s' : Rollout A M L E ι} {c c' : Conn A M L E}

def Based (table : A → Option (List MigrationRow)) (d0 base : Db A M) : Prop :=
  (table base.app).getD [] = (table d0.app).getD [] ∧ ((table d0.app).isSome → base = d0)

/-- The first `n` migrations of the longest list are applied. -/
structure Rollout.Inv (X : Engine A L E S) (table : A → Option (List MigrationRow)) (D : A → Prop)
    (lists : ι → List Migration) (full : List Migration) (d0 : Db A M) (k0 : ℕ)
    (s : Rollout A M L E ι) (c : Conn A M L E) (n : ℕ) : Prop where
  writer : s.writer = some c
  idle : c.txn = none
  base : D c.file.app
  le : n ≤ full.length
  begun : k0 ≤ n
  applied : appliedIn table c = (full.take n).map Migration.applied
  ran : ∃ base, Based table d0 base ∧ Path (ScriptStep X) base ((full.take n).drop k0) c.file
  tables : ∀ t ∈ s.tables, ∃ k ≤ n, t = (full.take k).map Migration.applied
  sent : ∀ r ∈ s.sent, ∃ k ≤ n, k < (lists r.client).length ∧
    r.migrations = (lists r.client).drop k
  ok : ∀ i, s.calls i = .ok → (lists i).length ≤ n
  waiting : ∀ i b, s.calls i = .waiting b → 0 < (lists i).length
  calm : ∀ i, s.calls i ≠ .panicked

namespace Rollout

omit [DecidableEq ι] in
theorem Inv.start (hc : c.txn = none) (hD : D c.file.app)
    (hrows : appliedIn table c = (full.take n).map Migration.applied) (hn : n ≤ full.length) :
    (start table c : Rollout A M L E ι).Inv X table D lists full c.file n c n where
  writer := rfl
  idle := hc
  base := hD
  le := hn
  begun := le_rfl
  applied := hrows
  ran := ⟨c.file, ⟨rfl, fun _ => rfl⟩, by
    rw [drop_of_length_le (by simp)]
    exact .nil⟩
  tables t ht := ⟨n, le_rfl, by rw [mem_singleton.mp ht, hrows]⟩
  sent r hr := nomatch hr
  ok i hi := nomatch hi
  waiting i b hi := nomatch hi
  calm i hi := nomatch hi

section

variable (h : s.Inv X table D lists full d0 k0 c n)
include h

theorem Inv.setCall (i : ι) (v : CallState) (hok : v = .ok → (lists i).length ≤ n)
    (hwait : ∀ b, v = .waiting b → 0 < (lists i).length) (hcalm : v ≠ .panicked) :
    ({ s with calls := update s.calls i v } : Rollout A M L E ι).Inv X table D lists full d0 k0
      c n := by
  refine { h with ok := fun j hj => ?_, waiting := fun j b hj => ?_, calm := fun j hj => ?_ }
  all_goals
    dsimp only at hj
    rcases eq_or_ne j i with rfl | hne
    · rw [update_self] at hj
      first | exact hok hj | exact hwait b hj | exact hcalm hj
    · rw [update_of_ne hne] at hj
      first | exact h.ok j hj | exact h.waiting j b hj | exact h.calm j hj

omit [DecidableEq ι] in
theorem Inv.send (i : ι) (second : Bool) {k : ℕ} (hk : k ≤ n) (hlt : k < (lists i).length) :
    ({ s with sent := s.sent ++ [⟨i, second, (lists i).drop k⟩] } : Rollout A M L E ι).Inv X table D
      lists full d0 k0 c n := by
  refine { h with sent := fun r hr => ?_ }
  rcases mem_append.mp hr with hr | hr
  · exact h.sent r hr
  · obtain rfl := mem_singleton.mp hr
    exact ⟨k, hk, hlt, rfl⟩

theorem Inv.proceed (hfull : NumberedFrom Migration.id 1 full) (hlists : ∀ i, lists i <+: full)
    (i : ι) {k : ℕ} (hk : k ≤ n) :
    (s.proceed lists i ((full.take k).map Migration.applied)).Inv X table D lists full d0 k0 c n := by
  have hlist : lists i = full.take (lists i).length := prefix_iff_eq_take.mp (hlists i)
  have hlen : (lists i).length ≤ full.length := (hlists i).length_le
  have hdedup := dedup_take hfull hlen (hk.trans h.le)
  rw [← hlist] at hdedup
  unfold Rollout.proceed
  rw [hdedup]
  by_cases hle : (lists i).length ≤ k
  · rw [if_pos hle]
    exact h.setCall i .ok (fun _ => hle.trans hk) (by simp) (by simp)
  · rw [if_neg hle]
    exact (h.setCall i (.waiting false) (by simp) (fun _ _ => by omega) (by simp)).send i false hk
      (Nat.lt_of_not_le hle)

section

omit [DecidableEq ι]

theorem Inv.created (hT : ServesMigrations X table D) : ∃ base, Based table d0 base ∧
      Path (ScriptStep X) base ((full.take n).drop k0) (created X c) := by
  obtain ⟨hget, hsame, -, -⟩ := create_spec hT h.idle h.base
  obtain ⟨base, hbase, hpath⟩ := h.ran
  cases htable : table c.file.app with
  | some rows => exact ⟨base, hbase, by rwa [Sqlite.created, hsame (by rw [htable]; rfl)]⟩
  | none =>
    -- nothing is applied yet
    have hnil : full.take n = [] := by
      have happlied := h.applied
      rw [appliedIn, htable] at happlied
      simpa using happlied.symm
    rw [hnil, drop_nil] at hpath ⊢
    have heq := hpath.of_nil
    refine ⟨_, ⟨?_, fun hsome => ?_⟩, .nil⟩
    · rw [Sqlite.created, hget, heq]
      exact hbase.1
    · have hd0 : c.file = d0 := heq.trans (hbase.2 hsome)
      rw [← hd0, htable] at hsome
      cases hsome

theorem Inv.migrate (hX : ReportsUndo X) (hT : ServesMigrations X table D)
    (hfull : NumberedFrom Migration.id 1 full) (hlists : ∀ i, lists i <+: full)
    (hscripts : PlainScripts X table D full) {r : Sent ι} (hr : r ∈ s.sent)
    (hcover : n ≤ (lists r.client).length) (id : Option LogId) :
    ∃ c' res n', migrate X c r.migrations id = some (c', res) ∧ c'.txn = none ∧ D c'.file.app ∧ n ≤ n' ∧
      n' ≤ full.length ∧ appliedIn table c' = (full.take n').map Migration.applied ∧
      (∃ base, Based table d0 base ∧
        Path (ScriptStep X) base ((full.take n').drop k0) c'.file) ∧
      (res.isOk → (lists r.client).length ≤ n') := by
  obtain ⟨k, hk, hlt, hms⟩ := h.sent r hr
  have hle := h.le
  have hlen : (lists r.client).length ≤ full.length := (hlists r.client).length_le
  have hlist : lists r.client = full.take (lists r.client).length :=
    prefix_iff_eq_take.mp (hlists r.client)
  set rows := (table c.file.app).getD [] with hrows
  have happlied : rows.map MigrationRow.applied = (full.take n).map Migration.applied := h.applied
  have hrowslen : rows.length = n := by
    have := congrArg length happlied
    simpa [h.le] using this
  have hnum : NumberedFrom MigrationRow.id 1 rows := by
    have htake : NumberedFrom AppliedMigration.id 1 ((full.take n).map Migration.applied) :=
      (numberedFrom_map fun _ => rfl).mpr (hfull.take n)
    rw [← happlied] at htake
    exact (numberedFrom_map (f := MigrationRow.applied) fun _ => rfl).mp htake
  -- the first migration of the request
  have hcons : r.migrations = (lists r.client)[k] :: (lists r.client).drop (k + 1) := by
    rw [hms, drop_eq_getElem_cons hlt]
  have hnumList : NumberedFrom Migration.id 1 (lists r.client) := by
    rw [hlist]
    exact hfull.take _
  have hfirst : (lists r.client)[k].id.toNat = 1 + k := hnumList.getElem hlt
  have hnumMs : NumberedFrom Migration.id (lists r.client)[k].id.toNat
      ((lists r.client)[k] :: (lists r.client).drop (k + 1)) := by
    rw [hfirst, ← hcons, hms]
    exact hnumList.drop k hlt.le
  have hfits : Fits rows (lists r.client)[k]
      ((lists r.client)[k] :: (lists r.client).drop (k + 1)) := by
    refine ⟨by omega, by omega, ?_⟩
    rw [hfirst, Nat.add_sub_cancel_left, ← hcons, hms, map_drop, happlied, ← map_drop]
    refine IsPrefix.map _ (IsPrefix.drop ?_ k)
    conv_rhs => rw [hlist]
    exact take_prefix_take_left hcover
  have hpending : pending rows r.migrations = (full.take (lists r.client).length).drop n := by
    rw [hcons, pending_eq_drop hnumMs, ← hcons, hms, hfirst, drop_drop, ← hlist]
    congr 1
    omega
  obtain ⟨base, hbase, hpath⟩ := h.created hT
  have hplain : PlainScripts X table D ((lists r.client)[k] :: (lists r.client).drop (k + 1)) := by
    rw [← hcons, hms]
    exact hscripts.mono fun m hm => (hlists r.client).subset (mem_of_mem_drop hm)
  obtain ⟨done, c1, hfirsts, htxn, hD1, hran, htable, hend⟩ :=
    hfits.migrate_cases hT h.idle h.base rfl hnum hX hnumMs hplain id
  rw [← hcons] at hfirsts hend
  rw [hpending] at hfirsts hend
  obtain ⟨hdone, htake⟩ := take_add_of_prefix hfirsts
  have happlied1 : ((table c1.file.app).getD []).map MigrationRow.applied =
      (full.take (n + done.length)).map Migration.applied := by
    rw [htable, htake, map_append, map_append, happlied, map_map]
    rfl
  have hran1 : ∃ base, Based table d0 base ∧
      Path (ScriptStep X) base ((full.take (n + done.length)).drop k0) c1.file := by
    refine ⟨base, hbase, ?_⟩
    rw [htake, drop_append_of_le_length (by rw [length_take]; have := h.begun; omega)]
    exact hpath.trans hran
  rcases hend with ⟨rfl, -, heq⟩ | ⟨c', e, heq, hfile⟩
  · refine ⟨c1, _, _, heq, htxn, hD1, Nat.le_add_right _ _, by omega, happlied1, hran1, fun _ => ?_⟩
    rw [length_drop, length_take]
    omega
  · refine ⟨c', _, _, heq, migrate_txn_eq_none h.idle heq, hfile ▸ hD1,
      Nat.le_add_right _ done.length, by omega, ?_, hfile ▸ hran1, fun hok => by cases hok⟩
    rw [appliedIn, hfile, happlied1]

theorem Inv.later (hn : n ≤ n') (hle : n' ≤ full.length) (hc : c'.txn = none) (hD : D c'.file.app)
    (happlied : appliedIn table c' = (full.take n').map Migration.applied)
    (hran : ∃ base, Based table d0 base ∧
      Path (ScriptStep X) base ((full.take n').drop k0) c'.file) :
    ({ s with writer := some c', tables := s.tables ++ [appliedIn table c'] } :
      Rollout A M L E ι).Inv X table D lists full d0 k0 c' n' where
  writer := rfl
  idle := hc
  base := hD
  le := hle
  begun := h.begun.trans hn
  applied := happlied
  ran := hran
  tables t ht := by
    rcases mem_append.mp ht with ht | ht
    · obtain ⟨k, hk, heq⟩ := h.tables t ht
      exact ⟨k, hk.trans hn, heq⟩
    · exact ⟨n', le_rfl, by rw [mem_singleton.mp ht, happlied]⟩
  sent r hr := by
    obtain ⟨k, hk, heq⟩ := h.sent r hr
    exact ⟨k, hk.trans hn, heq⟩
  ok i hi := (h.ok i hi).trans hn
  waiting := h.waiting
  calm := h.calm

end

theorem Inv.answer (r : Sent ι) (ok : Bool) (hok : ok = true → (lists r.client).length ≤ n) :
    ({ s with calls := s.answer r ok } : Rollout A M L E ι).Inv X table D lists full d0 k0 c n := by
  by_cases hwait : s.calls r.client = .waiting r.second
  · rw [Rollout.answer, if_pos hwait]
    cases ok with
    | true => exact h.setCall _ .ok (fun _ => hok rfl) (by simp) (by simp)
    | false => exact h.setCall _ .error (by simp) (by simp) (by simp)
  · rw [Rollout.answer, if_neg hwait]
    exact h

theorem Inv.step (hX : ReportsUndo X) (hT : ServesMigrations X table D)
    (hfull : NumberedFrom Migration.id 1 full) (hlists : ∀ i, lists i <+: full)
    (hscripts : PlainScripts X table D full) {m : Move ι} (hstep : s.Step X table lists m s') :
    ∃ c' n', s'.Inv X table D lists full d0 k0 c' n' := by
  obtain ⟨hrun, hcover⟩ := hstep
  cases m with
  | read i k =>
    simp only [Rollout.step] at hrun
    split at hrun
    · rename_i applied hidle hget
      cases hrun
      obtain ⟨j, hj, rfl⟩ := h.tables applied (mem_of_getElem? hget)
      exact ⟨c, n, h.proceed hfull hlists i hj⟩
    · cases hrun
  | readFails i =>
    simp only [Rollout.step] at hrun
    split at hrun
    · cases hrun
      exact ⟨c, n, h.proceed hfull hlists i (Nat.zero_le n)⟩
    · cases hrun
  | commit k id heard =>
    simp only [Rollout.step] at hrun
    split at hrun
    · rename_i r c0 hget hwriter
      cases hrun
      obtain rfl : c = c0 := Option.some.inj (h.writer.symm.trans hwriter)
      have hlen : n ≤ (lists r.client).length := by
        have hlength := congrArg length h.applied
        have hle := h.le
        simp only [Rollout.covered, hget, hwriter, decide_eq_true_eq] at hcover
        rw [appliedIn, length_map, length_map, length_take] at hlength
        omega
      obtain ⟨c', res, n', hmigrate, htxn, hD, hn, hle, happlied, hran, hok⟩ :=
        h.migrate hX hT hfull hlists hscripts (mem_of_getElem? hget) hlen id
      have herase : ({ s with sent := s.sent.eraseIdx k } : Rollout A M L E ι).Inv X table D lists full
          d0 k0 c n :=
        { h with sent := fun r hr => h.sent r (mem_of_mem_eraseIdx hr) }
      have hlater := herase.later hn hle htxn hD happlied hran
      refine ⟨c', n', ?_⟩
      unfold Rollout.apply
      rw [hmigrate]
      cases heard with
      | true => exact hlater.answer r res.isOk hok
      | false => exact hlater
    · cases hrun
  | forward i =>
    simp only [Rollout.step] at hrun
    split at hrun
    · rename_i hwait
      cases hrun
      have hpos := h.waiting i _ hwait
      exact ⟨c, n, (h.setCall i (.waiting true) (by simp) (fun _ _ => hpos) (by simp)).send i true
        (Nat.zero_le n) hpos⟩
    · cases hrun
  | fail i =>
    simp only [Rollout.step] at hrun
    split at hrun
    · cases hrun
      exact ⟨c, n, h.setCall i .error (by simp) (by simp) (by simp)⟩
    · cases hrun

end

end Rollout

end Invariant

/-- **Migrations of several clients**, whose lists are beginnings of one another. If requests are
committed while the table is no longer than the list of their client, nobody panics. Once all calls
have returned `Ok`, the table is the longest list, and each new script has run once, in order. -/
theorem rollout_migrates [DecidableEq ι] [Finite ι] [Nonempty ι] (X : Engine A L E S)
    (hX : ReportsUndo X) (table : A → Option (List MigrationRow)) (D : A → Prop)
    (hT : ServesMigrations X table D) (lists : ι → List Migration)
    (hlists : ∀ i j, lists i <+: lists j ∨ lists j <+: lists i)
    (hnum : ∀ i, NumberedFrom Migration.id 1 (lists i)) (hscripts : ∀ i, PlainScripts X table D (lists i))
    (c : Conn A M L E) (hc : c.txn = none) (hD : D c.file.app)
    (hstart : ∃ i, appliedIn table c <+: (lists i).map Migration.applied) (moves : List (Move ι))
    (s : Rollout A M L E ι) (hrun : Path (Rollout.Step X table lists) (.start table c) moves s) :
    ∃ c', s.writer = some c' ∧ (∀ i, s.calls i ≠ .panicked) ∧
      ((∀ i, s.calls i = .ok) → ∃ longest, (∀ i, lists i <+: lists longest) ∧
        appliedIn table c' = (lists longest).map Migration.applied ∧
        ∃ base, Based table c.file base ∧
          Path (ScriptStep X) base ((lists longest).drop (appliedIn table c).length) c'.file) := by
  obtain ⟨longest, hmax⟩ := Finite.exists_max fun i => (lists i).length
  have hlongest : ∀ i, lists i <+: lists longest := fun i => by
    rcases hlists i longest with h | h
    · exact h
    · rw [h.eq_of_length_le (hmax i)]
  have happlied : appliedIn table c <+: (lists longest).map Migration.applied := by
    obtain ⟨i, hi⟩ := hstart
    exact hi.trans ((hlongest i).map _)
  have hinv : ∃ c' n, s.Inv X table D lists (lists longest) c.file (appliedIn table c).length c' n := by
    refine hrun.invariant (I := fun _ s => ∃ c' n,
      s.Inv X table D lists (lists longest) c.file (appliedIn table c).length c' n) ?_ ?_
    · refine ⟨c, _, .start hc hD ?_ ?_⟩
      · rw [map_take]
        exact prefix_iff_eq_take.mp happlied
      · simpa using happlied.length_le
    · rintro _ t m u ⟨c', n, h⟩ hstep
      exact h.step hX hT (hnum longest) hlongest (hscripts longest) hstep
  obtain ⟨c', n, hinv⟩ := hinv
  refine ⟨c', hinv.writer, hinv.calm, fun hok => ⟨longest, hlongest, ?_⟩⟩
  obtain rfl : n = (lists longest).length := le_antisymm hinv.le (hinv.ok longest (hok longest))
  have happlied' := hinv.applied
  have hran := hinv.ran
  rw [take_length] at happlied' hran
  exact ⟨happlied', hran⟩

/-! ## Two versions -/

def twoVersions (newer : Bool) : List Migration := if newer then sevenEight 1 else (sevenEight 1).take 1

/-- Both versions read an empty table; the older one is committed first. -/
def olderFirst : List (Move Bool) :=
  [.read false 0, .read true 0, .commit 0 none true, .commit 0 none true]

def coveredStep (s : Rollout (Option (List MigrationRow) × List ℕ) Unit Unit Unit Bool) (m : Move Bool) :
    Option (Rollout (Option (List MigrationRow) × List ℕ) Unit Unit Unit Bool) :=
  if s.covered Prod.fst twoVersions m then s.step scripts Prod.fst twoVersions m else none

/-- Both versions are migrated. -/
theorem rollout_migrates_older_first :
    ∃ s c', Path (Rollout.Step scripts Prod.fst twoVersions) (.start Prod.fst newScripts) olderFirst s ∧
      s.writer = some c' ∧ appliedIn Prod.fst c' = (sevenEight 1).map Migration.applied := by
  have hrun : ((olderFirst.foldlM coveredStep (.start Prod.fst newScripts)).map fun s =>
      (s.calls false, s.calls true)) = some (.ok, .ok) := by
    decide +kernel
  obtain ⟨s, hs, hcalls⟩ := Option.map_eq_some_iff.mp hrun
  have hpath : Path (Rollout.Step scripts Prod.fst twoVersions) (.start Prod.fst newScripts) olderFirst
      s := by
    refine (Path.of_foldlM hs).mono fun s m t h => ?_
    unfold coveredStep at h
    split_ifs at h with hcover
    exact ⟨h, hcover⟩
  have hplain : ∀ i, PlainScripts scripts Prod.fst (fun _ => True) (twoVersions i) := fun i =>
    (sevenEight_plain 1).mono (by cases i <;> simp [twoVersions, sevenEight])
  obtain ⟨c', hwriter, -, hok⟩ := rollout_migrates scripts scripts_reportsUndo Prod.fst _
    scripts_servesMigrations twoVersions (by decide) (by decide) hplain newScripts rfl trivial
    ⟨true, nil_prefix⟩ olderFirst s hpath
  obtain ⟨hold, hnew⟩ := Prod.mk.inj hcalls
  obtain ⟨longest, hlongest, htable, -⟩ := hok fun i => by cases i <;> assumption
  refine ⟨s, c', hpath, hwriter, ?_⟩
  cases longest with
  | true => exact htable
  | false => exact absurd (hlongest true) (by decide)

/-- **A request of an older version panics.** Both versions read an empty table. The request of the
newer one is committed first; then the writer misses a migration in the request of the older one. -/
theorem old_version_panics : twoVersions false <+: twoVersions true ∧
      (([.read false 0, .read true 0, .commit 1 none true, .commit 0 none true].foldlM
        (Rollout.step scripts Prod.fst twoVersions) (Rollout.start Prod.fst newScripts)).map fun s =>
          (s.writer.isNone, s.calls false, s.calls true)) =
        some (true, .waiting false, .ok) := by
  decide +kernel

end Hiqlite.Client
