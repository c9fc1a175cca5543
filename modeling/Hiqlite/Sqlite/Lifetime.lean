import Hiqlite.Lib.Path
import Hiqlite.Raft.Types

/-!
# Q1 — the lifetimes of the SQLite state machine

What the writer has applied is written into the database with a snapshot and at a graceful shutdown. A
kill is recognised by the lock file: the database is then deleted and rebuilt (feature `auto-heal`).

* `Core`: what a lifetime needs of the write connection; `Core.Lawful`, `Core.plain`;
* `Core.step`: `StateMachineSqlite::new`, the requests of openraft, a graceful shutdown and a kill;
  `Core.clusterStep`: several replicas of one log;
* `Replica.Ok.step`, `ok_of_path`; **`entries_take_effect_once`**.
-/

namespace Hiqlite.Sqlite

open List Option

/-! ## The committed log -/

inductive EntryPayload (Q M : Type)
  | blank
  | normal (q : Q)
  | membership (m : M)

structure Entry (Q M : Type) where
  leader : LeaderId
  payload : EntryPayload Q M

abbrev CommittedLog (Q M : Type) := ℕ → Entry Q M

structure StoredMembership (M : Type) where
  logId : Option LogId
  membership : M
  deriving DecidableEq, Inhabited

structure StateMachineData (M : Type) where
  lastAppliedLogId : Option LogId
  lastMembership : StoredMembership M
  lastSnapshotId : Option ℕ
  deriving DecidableEq, Inhabited

def nextIndex : Option LogId → ℕ
  | none => 0
  | some id => id.index + 1

section Log

variable {Q M A R : Type} (log : CommittedLog Q M)

def logId (n : ℕ) : LogId := ⟨(log n).leader, n⟩

/-- The membership of the last membership entry below index `n`. -/
def membershipAt [Inhabited M] : ℕ → StoredMembership M
  | 0 => default
  | n + 1 =>
    match (log n).payload with
    | .membership m => ⟨some (logId log n), m⟩
    | _ => membershipAt n

/-- The composition of the normal entries below index `n`, each one once. -/
def compose (run : Q → A → A × R) (a : A) : ℕ → A
  | 0 => a
  | n + 1 =>
    match (log n).payload with
    | .normal q => (run q (compose run a n)).1
    | _ => compose run a n

end Log

/-! ## The write connection -/

structure Db (A M : Type) where
  app : A
  metadata : Option (StateMachineData M)
  deriving DecidableEq

/-- What a lifetime needs of the write connection `W`. -/
structure Core (A M W Q E R : Type) where
  empty : A
  connect : Db A M → W
  file : W → Db A M
  /-- A query of the log. There is no answer if the writer panics. -/
  write : E → Q → W → Option (W × R)
  persistMetadata : StateMachineData M → W → Option W
  vacuumInto : W → Option (Db A M)
  restore : Db A M → W → Option W

/-- Between requests the connection has nothing but its file. On tables `a` with `P a q` the query
`q` is a function of the tables. -/
structure Core.Lawful {A M W Q E R : Type} (core : Core A M W Q E R) (Idle : W → Prop)
    (run : Q → A → A × R) (P : A → Q → Prop) : Prop where
  connect : ∀ d, Idle (core.connect d) ∧ core.file (core.connect d) = d
  write : ∀ e q w w' r, P (core.file w).app q → Idle w → core.write e q w = some (w', r) → Idle w' ∧
    core.file w' = { core.file w with app := (run q (core.file w).app).1 } ∧
    r = (run q (core.file w).app).2
  persist : ∀ m w w', Idle w → core.persistMetadata m w = some w' →
    Idle w' ∧ core.file w' = { core.file w with metadata := some m }
  vacuum : ∀ w d, Idle w → core.vacuumInto w = some d → d = core.file w
  restore : ∀ d w w', Idle w → core.restore d w = some w' → Idle w' ∧ core.file w' = d

/-- Every query is a total function of the application's tables. -/
def Core.plain {A M Q R : Type} (run : Q → A → A × R) (empty : A) : Core A M (Db A M) Q Unit R where
  empty := empty
  connect := id
  file := id
  write _ q d := some ({ d with app := (run q d.app).1 }, (run q d.app).2)
  persistMetadata m d := some { d with metadata := some m }
  vacuumInto := some
  restore d _ := some d

theorem Core.plain_lawful (run : Q → A → A × R) (empty : A) :
    (Core.plain (M := M) run empty).Lawful (fun _ => True) run fun _ _ => True where
  connect _ := ⟨trivial, rfl⟩
  write _ _ _ _ _ _ _ h := by
    cases h
    exact ⟨trivial, rfl, rfl⟩
  persist _ _ _ _ h := by
    cases h
    exact ⟨trivial, rfl⟩
  vacuum _ _ _ h := by
    cases h
    rfl
  restore _ _ _ _ h := by
    cases h
    exact ⟨trivial, rfl⟩

/-! ## Lifetimes -/

inductive Phase (A M W : Type)
  | down
  | checked (dbExists : Bool)
  /-- The lock file is open. `existed`: the database is still to be deleted. -/
  | locked (existed dbExists : Bool)
  | opened (dbExists : Bool) (conn : W) (smData : StateMachineData M)
  | ready (conn : W) (smData : StateMachineData M)
  | running (conn : W) (smData : StateMachineData M)
  | installing (conn : W) (smData : StateMachineData M) (snapshot : Db A M)
  | saved (conn : W)
  deriving DecidableEq

/-- One replica. `served` is what it has answered, and the content after it. -/
structure Replica (A M W R : Type) where
  lock : Bool
  db : Option (Db A M)
  snapshots : List (Db A M)
  phase : Phase A M W
  next : ℕ
  answered : Option (Option LogId × StoredMembership M)
  served : List (ℕ × R × A)

inductive Event (A M E : Type)
  | checkDb
  | openLock
  | heal
  | connect
  | finishNew
  | appliedState
  | apply (e : E)
  | snapshot (id : ℕ)
  /-- `install_snapshot` puts a snapshot of some replica into place … -/
  | receive (i : ℕ)
  /-- … and restores it. -/
  | install
  | shutdown
  | unlock
  /-- The process is killed. In the middle of a request the file holds anything. -/
  | kill (db : Option (Db A M))

variable {A M W Q E R : Type} [Inhabited M]

/-- `read_current_snapshot`: the snapshot with the highest log id. -/
def readCurrentSnapshot (snapshots : List (Db A M)) : Option (Db A M) :=
  snapshots.argmax fun d => nextIndex (d.metadata.getD default).lastAppliedLogId

/-- `MetadataRead`, which asks the database if nothing has been applied yet. -/
def metadataRead (smData : StateMachineData M) (d : Db A M) : StateMachineData M :=
  match smData.lastAppliedLogId with
  | none => d.metadata.getD smData
  | some _ => smData

def Replica.fresh : Replica A M W R := ⟨false, none, [], .down, 0, none, []⟩

namespace Core

variable (core : Core A M W Q E R) (log : CommittedLog Q M)

/-- `apply` for the next entry. A blank entry does not reach the writer. -/
def apply (s : Replica A M W R) (e : E) (conn : W) (smData : StateMachineData M) :
    Option (Replica A M W R) :=
  match (log s.next).payload with
  | .blank => some { s with next := s.next + 1 }
  | .membership m =>
    some { s with
      phase := .running conn { smData with
        lastMembership := ⟨some (logId log s.next), m⟩
        lastAppliedLogId := some (logId log s.next) }
      next := s.next + 1 }
  | .normal q => do
    let (conn, reply) ← core.write e q conn
    some { s with
      phase := .running conn { smData with lastAppliedLogId := some (logId log s.next) }
      next := s.next + 1
      served := s.served ++ [(s.next, reply, (core.file conn).app)] }

/-- `SnapshotApply`, with the metadata in the snapshot. -/
def snapshotApply (conn : W) (d : Db A M) : Option (W × StateMachineData M) := do
  let conn ← core.restore d conn
  let smData ← (core.file conn).metadata
  pure (conn, smData)

/-- One step of a replica. `pool` are the snapshots of all replicas. -/
def step (pool : List (Db A M)) (s : Replica A M W R) : Event A M E → Option (Replica A M W R)
  | .checkDb =>
    match s.phase with
    | .down => some { s with phase := .checked s.db.isSome }
    | _ => none
  | .openLock =>
    match s.phase with
    | .checked dbExists => some { s with phase := .locked s.lock dbExists, lock := true }
    | _ => none
  | .heal =>
    match s.phase with
    | .locked true _ => some { s with phase := .locked false false, db := none }
    | _ => none
  | .connect =>
    match s.phase with
    | .locked false dbExists =>
      some { s with
        phase := .opened dbExists (core.connect (s.db.getD ⟨core.empty, none⟩)) default }
    | _ => none
  | .finishNew =>
    match s.phase with
    | .opened true conn smData => some { s with phase := .ready conn smData }
    | .opened false conn smData =>
      match readCurrentSnapshot s.snapshots with
      | none => some { s with phase := .ready conn smData }
      | some d => do
        let (conn, smData) ← core.snapshotApply conn d
        some { s with phase := .ready conn smData }
    | _ => none
  | .appliedState =>
    match s.phase with
    | .ready conn smData =>
      let data := metadataRead smData (core.file conn)
      some { s with
        phase := .running conn data
        next := nextIndex data.lastAppliedLogId
        answered := some (data.lastAppliedLogId, data.lastMembership) }
    | _ => none
  | .apply e =>
    match s.phase with
    | .running conn smData => core.apply log s e conn smData
    | _ => none
  | .snapshot id =>
    match s.phase with
    | .running conn smData => do
      let smData := { smData with lastSnapshotId := some id }
      let conn ← core.persistMetadata smData conn
      match core.vacuumInto conn with
      | none => some { s with phase := .running conn smData }
      | some d => some { s with phase := .running conn smData, snapshots := d :: s.snapshots }
    | _ => none
  | .receive i =>
    match s.phase with
    | .running conn smData => do
      let d ← pool[i]?
      some { s with phase := .installing conn smData d, snapshots := d :: s.snapshots }
    | _ => none
  | .install =>
    match s.phase with
    | .installing conn _ d => do
      let (conn, smData) ← core.snapshotApply conn d
      some { s with phase := .running conn smData, next := nextIndex smData.lastAppliedLogId }
    | _ => none
  | .shutdown =>
    match s.phase with
    | .running conn smData => do
      let conn ← core.persistMetadata smData conn
      some { s with phase := .saved conn }
    | _ => none
  | .unlock =>
    match s.phase with
    | .saved conn => some { s with phase := .down, lock := false, db := some (core.file conn) }
    | _ => none
  | .kill d =>
    match s.phase with
    | .down => none
    | .checked _ => some { s with phase := .down }
    | _ => some { s with phase := .down, db := d }

/-- The replicas of one log, and the snapshots they have. -/
structure Cluster (N A M W R : Type) where
  replica : N → Replica A M W R
  pool : List (Db A M)

variable {N : Type} [DecidableEq N]

def Cluster.fresh : Cluster N A M W R := ⟨fun _ => Replica.fresh, []⟩

def clusterStep (s : Cluster N A M W R) (e : N × Event A M E) : Option (Cluster N A M W R) := do
  let r ← core.step log s.pool (s.replica e.1) e.2
  some ⟨Function.update s.replica e.1 r, r.snapshots ++ s.pool⟩

end Core

/-! ## What every step keeps -/

section Invariant

variable (log : CommittedLog Q M) (run : Q → A → A × R) (empty : A)

/-- The metadata says how far the tables have come. -/
structure Settled (m : StateMachineData M) (a : A) : Prop where
  app : a = compose log run empty (nextIndex m.lastAppliedLogId)
  membership : m.lastMembership = membershipAt log (nextIndex m.lastAppliedLogId)
  id : ∀ id, m.lastAppliedLogId = some id → id = logId log id.index

/-- A database that a graceful shutdown has left behind, or a new one. -/
def Clean (d : Db A M) : Prop := Settled log run empty (d.metadata.getD default) d.app

def Complete (d : Db A M) : Prop := ∃ m, d.metadata = some m ∧ Settled log run empty m d.app

def Answer (x : ℕ × R × A) : Prop :=
  ∃ q, (log x.1).payload = .normal q ∧ x.2.1 = (run q (compose log run empty x.1)).2 ∧
    x.2.2 = compose log run empty (x.1 + 1)

def Phase.Ok (core : Core A M W Q E R) (Idle : W → Prop) (s : Replica A M W R) : Prop :=
  match s.phase with
  | .down | .checked _ => True
  | .locked true _ => s.lock = true
  | .locked false _ => s.lock = true ∧ ∀ d ∈ s.db, Clean log run core.empty d
  | .opened _ conn smData =>
    s.lock = true ∧ Idle conn ∧ smData = default ∧ Clean log run core.empty (core.file conn)
  | .ready conn smData =>
    s.lock = true ∧ Idle conn ∧
      Settled log run core.empty (metadataRead smData (core.file conn)) (core.file conn).app
  | .running conn smData =>
    s.lock = true ∧ Idle conn ∧ Settled log run core.empty smData (core.file conn).app ∧
      nextIndex smData.lastAppliedLogId ≤ s.next ∧
      -- only blank entries are not in the metadata
      ∀ i, nextIndex smData.lastAppliedLogId ≤ i → i < s.next → (log i).payload = .blank
  | .installing conn _ d => s.lock = true ∧ Idle conn ∧ Complete log run core.empty d
  | .saved conn => s.lock = true ∧ Clean log run core.empty (core.file conn)

structure Replica.Ok (core : Core A M W Q E R) (Idle : W → Prop) (s : Replica A M W R) : Prop where
  snapshots : ∀ d ∈ s.snapshots, Complete log run core.empty d
  db : s.lock = false → ∀ d ∈ s.db, Clean log run core.empty d
  phase : Phase.Ok log run core Idle s
  answered : ∀ id m, s.answered = some (id, m) →
    m = membershipAt log (nextIndex id) ∧ ∀ i, id = some i → i = logId log i.index
  served : ∀ x ∈ s.served, Answer log run core.empty x

end Invariant

section Facts

variable {log : CommittedLog Q M} {run : Q → A → A × R} {empty : A}

omit [Inhabited M] in
theorem compose_of_blank {m n : ℕ} (hmn : m ≤ n)
    (h : ∀ i, m ≤ i → i < n → (log i).payload = .blank) :
    compose log run empty n = compose log run empty m := by
  induction n, hmn using Nat.le_induction with
  | base => rfl
  | succ n hmn ih =>
    rw [compose, h n hmn (Nat.lt_succ_self n)]
    exact ih fun i h1 h2 => h i h1 (Nat.lt_succ_of_lt h2)

theorem membershipAt_of_blank {m n : ℕ} (hmn : m ≤ n)
    (h : ∀ i, m ≤ i → i < n → (log i).payload = .blank) :
    membershipAt log n = membershipAt log m := by
  induction n, hmn using Nat.le_induction with
  | base => rfl
  | succ n hmn ih =>
    rw [membershipAt, h n hmn (Nat.lt_succ_self n)]
    exact ih fun i h1 h2 => h i h1 (Nat.lt_succ_of_lt h2)

theorem clean_empty : Clean log run empty ⟨empty, none⟩ :=
  ⟨rfl, rfl, fun _ h => by cases h⟩

variable {smData : StateMachineData M} {conn : W}

omit [Inhabited M] in
theorem metadataRead_self {d : Db A M} (h : d.metadata = some smData) :
    metadataRead smData d = smData := by
  unfold metadataRead
  split
  · rw [h, getD_some]
  · rfl

variable {core : Core A M W Q E R} {Idle : W → Prop} {P : A → Q → Prop} {s s' : Replica A M W R}

theorem Core.Lawful.snapshotApply (hl : core.Lawful Idle run P) {conn' : W} {d : Db A M}
    (hi : Idle conn) (hd : Complete log run core.empty d)
    (h : core.snapshotApply conn d = some (conn', smData)) :
    Idle conn' ∧ (core.file conn').metadata = some smData ∧
      Settled log run core.empty smData (core.file conn').app := by
  obtain ⟨c, hc, h⟩ := bind_eq_some_iff.mp h
  obtain ⟨m, hm, h⟩ := bind_eq_some_iff.mp h
  cases h
  obtain ⟨hi', hf⟩ := hl.restore d conn conn' hi hc
  obtain ⟨m', hm', hs⟩ := hd
  rw [hf] at hm ⊢
  cases hm.symm.trans hm'
  exact ⟨hi', hm, hs⟩

theorem Replica.Ok.apply (hl : core.Lawful Idle run P) (h : s.Ok log run core Idle)
    (hP : ∀ q, (log s.next).payload = .normal q → P (compose log run core.empty s.next) q)
    (hp : s.phase = .running conn smData) {e : E}
    (ha : core.apply log s e conn smData = some s') : s'.Ok log run core Idle := by
  have hph := h.phase
  simp only [Phase.Ok, hp] at hph
  obtain ⟨hlock, hi, hs, hle, hblank⟩ := hph
  have happ := hs.app.trans (compose_of_blank hle hblank).symm
  have hmem := hs.membership.trans (membershipAt_of_blank hle hblank).symm
  cases hpay : (log s.next).payload with
  | blank =>
    simp only [Core.apply, hpay, some.injEq] at ha
    subst ha
    refine { h with phase := ?_ }
    simp only [Phase.Ok, hp]
    refine ⟨hlock, hi, hs, Nat.le_succ_of_le hle, fun i h1 h2 => ?_⟩
    rcases Nat.lt_succ_iff_lt_or_eq.mp h2 with h2 | rfl
    · exact hblank i h1 h2
    · exact hpay
  | membership m =>
    simp only [Core.apply, hpay, some.injEq] at ha
    subst ha
    refine { h with phase := ?_ }
    refine ⟨hlock, hi, ⟨?_, ?_, ?_⟩, le_rfl, fun i h1 h2 => absurd h2 (not_lt.mpr h1)⟩
    · rw [happ]
      simp only [nextIndex, logId, compose, hpay]
    · simp only [nextIndex, logId, membershipAt, hpay]
    · rintro _ ⟨⟩
      rfl
  | normal q =>
    simp only [Core.apply, hpay] at ha
    obtain ⟨⟨conn', reply⟩, hw, ha⟩ := bind_eq_some_iff.mp ha
    cases ha
    obtain ⟨hi', hf, hr⟩ := hl.write e q conn conn' reply (happ ▸ hP q hpay) hi hw
    have hcompose : (core.file conn').app = compose log run core.empty (s.next + 1) := by
      rw [hf, happ, compose, hpay]
    refine { h with phase := ?_, served := fun x hx => ?_ }
    · refine ⟨hlock, hi', ⟨hcompose, ?_, ?_⟩, le_rfl, fun i h1 h2 => absurd h2 (not_lt.mpr h1)⟩
      · rw [hmem]
        simp only [nextIndex, logId, membershipAt, hpay]
      · rintro _ ⟨⟩
        rfl
    · rcases mem_append.mp hx with hx | hx
      · exact h.served x hx
      · rw [mem_singleton.mp hx]
        exact ⟨q, hpay, by rw [hr, happ], hcompose⟩

theorem Phase.Ok.lock (h : Phase.Ok log run core Idle s) (hdown : s.phase ≠ .down)
    (hchecked : ∀ b, s.phase ≠ .checked b) : s.lock = true := by
  unfold Phase.Ok at h
  split at h
  · exact absurd ‹_› hdown
  · exact absurd ‹_› (hchecked _)
  · exact h
  all_goals exact h.1

namespace Replica.Ok

variable {pool : List (Db A M)} (h : s.Ok log run core Idle)
include h

theorem checkDb (hs : core.step log pool s .checkDb = some s') : s'.Ok log run core Idle := by
  simp only [Core.step] at hs
  split at hs <;> cases hs
  exact { h with phase := trivial }

theorem openLock (hs : core.step log pool s .openLock = some s') : s'.Ok log run core Idle := by
  simp only [Core.step] at hs
  split at hs <;> cases hs
  refine { h with db := fun hf => (by cases hf), phase := ?_ }
  cases hlock : s.lock with
  | true => rfl
  | false => exact ⟨rfl, h.db hlock⟩

theorem heal (hs : core.step log pool s .heal = some s') : s'.Ok log run core Idle := by
  have hph := h.phase
  simp only [Core.step] at hs
  split at hs <;> cases hs
  rename_i hp
  simp only [Phase.Ok, hp] at hph
  exact { h with db := fun _ d hd => (by cases hd), phase := ⟨hph, fun d hd => by cases hd⟩ }

theorem connect (hl : core.Lawful Idle run P) (hs : core.step log pool s .connect = some s') :
    s'.Ok log run core Idle := by
  have hph := h.phase
  simp only [Core.step] at hs
  split at hs <;> cases hs
  rename_i hp
  simp only [Phase.Ok, hp] at hph
  obtain ⟨hi, hf⟩ := hl.connect (s.db.getD ⟨core.empty, none⟩)
  refine { h with phase := ⟨hph.1, hi, rfl, ?_⟩ }
  rw [hf]
  cases hdb : s.db with
  | none => exact clean_empty
  | some d => exact hph.2 d hdb

theorem finishNew (hl : core.Lawful Idle run P) (hs : core.step log pool s .finishNew = some s') :
    s'.Ok log run core Idle := by
  have hph := h.phase
  simp only [Core.step] at hs
  split at hs
  · cases hs
    rename_i hp
    simp only [Phase.Ok, hp] at hph
    obtain ⟨hlock, hi, rfl, hc⟩ := hph
    exact { h with phase := ⟨hlock, hi, hc⟩ }
  · rename_i hp
    simp only [Phase.Ok, hp] at hph
    obtain ⟨hlock, hi, rfl, hc⟩ := hph
    split at hs
    · cases hs
      exact { h with phase := ⟨hlock, hi, hc⟩ }
    · rename_i d hd
      obtain ⟨⟨conn, smData⟩, ha, hs⟩ := bind_eq_some_iff.mp hs
      cases hs
      obtain ⟨hi', hm, hset⟩ := hl.snapshotApply hi (h.snapshots d (argmax_mem hd)) ha
      refine { h with phase := ⟨hlock, hi', ?_⟩ }
      rw [metadataRead_self hm]
      exact hset
  · cases hs

theorem appliedState (hs : core.step log pool s .appliedState = some s') :
    s'.Ok log run core Idle := by
  have hph := h.phase
  simp only [Core.step] at hs
  split at hs <;> cases hs
  rename_i hp
  simp only [Phase.Ok, hp] at hph
  obtain ⟨hlock, hi, hset⟩ := hph
  refine { h with phase := ?_, answered := ?_ }
  · exact ⟨hlock, hi, hset, le_rfl, fun i h1 h2 => absurd h2 (not_lt.mpr h1)⟩
  · rintro _ _ ⟨⟩
    exact ⟨hset.membership, hset.id⟩

theorem snapshot {id : ℕ} (hl : core.Lawful Idle run P)
    (hs : core.step log pool s (.snapshot id) = some s') :
    s'.Ok log run core Idle := by
  have hph := h.phase
  simp only [Core.step] at hs
  split at hs
  · rename_i conn smData hp
    simp only [Phase.Ok, hp] at hph
    obtain ⟨hlock, hi, hset, hle, hblank⟩ := hph
    obtain ⟨conn', hc, hs⟩ := bind_eq_some_iff.mp hs
    obtain ⟨hi', hf⟩ := hl.persist _ _ _ hi hc
    have hset' : Settled log run core.empty { smData with lastSnapshotId := some id }
        (core.file conn').app := by
      rw [hf]
      exact { hset with }
    split at hs <;> cases hs
    · exact { h with phase := ⟨hlock, hi', hset', hle, hblank⟩ }
    · rename_i d hd
      refine { h with phase := ⟨hlock, hi', hset', hle, hblank⟩, snapshots := fun x hx => ?_ }
      rcases mem_cons.mp hx with rfl | hx
      · rw [hl.vacuum _ _ hi' hd]
        exact ⟨_, by rw [hf], hset'⟩
      · exact h.snapshots x hx
  · cases hs

theorem receive {i : ℕ} (hpool : ∀ d ∈ pool, Complete log run core.empty d)
    (hs : core.step log pool s (.receive i) = some s') :
    s'.Ok log run core Idle := by
  have hph := h.phase
  simp only [Core.step] at hs
  split at hs
  · rename_i conn smData hp
    simp only [Phase.Ok, hp] at hph
    obtain ⟨d, hd, hs⟩ := bind_eq_some_iff.mp hs
    cases hs
    have hd' := hpool d (mem_of_getElem? hd)
    refine { h with phase := ⟨hph.1, hph.2.1, hd'⟩, snapshots := fun x hx => ?_ }
    rcases mem_cons.mp hx with rfl | hx
    · exact hd'
    · exact h.snapshots x hx
  · cases hs

theorem install (hl : core.Lawful Idle run P) (hs : core.step log pool s .install = some s') :
    s'.Ok log run core Idle := by
  have hph := h.phase
  simp only [Core.step] at hs
  split at hs
  · rename_i conn _ d hp
    simp only [Phase.Ok, hp] at hph
    obtain ⟨hlock, hi, hd⟩ := hph
    obtain ⟨⟨conn', smData⟩, ha, hs⟩ := bind_eq_some_iff.mp hs
    cases hs
    obtain ⟨hi', hm, hset⟩ := hl.snapshotApply hi hd ha
    exact { h with
      phase := ⟨hlock, hi', hset, le_rfl, fun i h1 h2 => absurd h2 (not_lt.mpr h1)⟩ }
  · cases hs

theorem shutdown (hl : core.Lawful Idle run P) (hs : core.step log pool s .shutdown = some s') :
    s'.Ok log run core Idle := by
  have hph := h.phase
  simp only [Core.step] at hs
  split at hs
  · rename_i conn smData hp
    simp only [Phase.Ok, hp] at hph
    obtain ⟨hlock, hi, hset, -⟩ := hph
    obtain ⟨conn', hc, hs⟩ := bind_eq_some_iff.mp hs
    cases hs
    obtain ⟨-, hf⟩ := hl.persist _ _ _ hi hc
    refine { h with phase := ⟨hlock, ?_⟩ }
    rw [hf]
    exact hset
  · cases hs

theorem unlock (hs : core.step log pool s .unlock = some s') : s'.Ok log run core Idle := by
  have hph := h.phase
  simp only [Core.step] at hs
  split at hs <;> cases hs
  rename_i hp
  simp only [Phase.Ok, hp] at hph
  refine { h with phase := trivial, db := fun _ d hd => ?_ }
  cases hd
  exact hph.2

theorem kill {d : Option (Db A M)} (hs : core.step log pool s (.kill d) = some s') :
    s'.Ok log run core Idle := by
  have hph := h.phase
  simp only [Core.step] at hs
  split at hs <;> cases hs
  · exact { h with phase := trivial }
  · rename_i hdown hchecked
    have hlock := hph.lock hdown hchecked
    exact { h with phase := trivial, db := fun hf => absurd (hlock.symm.trans hf) (by decide) }

end Replica.Ok

theorem Replica.Ok.step (hl : core.Lawful Idle run P)
    (hP : ∀ n q, (log n).payload = .normal q → P (compose log run core.empty n) q)
    {pool : List (Db A M)} (hpool : ∀ d ∈ pool, Complete log run core.empty d) {ev : Event A M E}
    (h : s.Ok log run core Idle) (hs : core.step log pool s ev = some s') :
    s'.Ok log run core Idle := by
  cases ev with
  | checkDb => exact h.checkDb hs
  | openLock => exact h.openLock hs
  | heal => exact h.heal hs
  | connect => exact h.connect hl hs
  | finishNew => exact h.finishNew hl hs
  | appliedState => exact h.appliedState hs
  | apply e =>
    simp only [Core.step] at hs
    split at hs
    · rename_i hp
      exact h.apply hl (hP _) hp hs
    · cases hs
  | snapshot id => exact h.snapshot hl hs
  | receive i => exact h.receive hpool hs
  | install => exact h.install hl hs
  | shutdown => exact h.shutdown hl hs
  | unlock => exact h.unlock hs
  | kill d => exact h.kill hs

variable {N : Type} [DecidableEq N] {S S' : Core.Cluster N A M W R} {es : List (N × Event A M E)}

structure Core.Cluster.Ok (log : CommittedLog Q M) (run : Q → A → A × R)
    (core : Core A M W Q E R) (Idle : W → Prop) (S : Core.Cluster N A M W R) : Prop where
  replica : ∀ n, (S.replica n).Ok log run core Idle
  pool : ∀ d ∈ S.pool, Complete log run core.empty d

section

variable (hl : core.Lawful Idle run P)
  (hP : ∀ n q, (log n).payload = .normal q → P (compose log run core.empty n) q)
include hl hP

theorem Core.Cluster.Ok.step {e : N × Event A M E} (h : S.Ok log run core Idle)
    (hs : core.clusterStep log S e = some S') : S'.Ok log run core Idle := by
  obtain ⟨r, hr, hs⟩ := bind_eq_some_iff.mp hs
  cases hs
  have hr' := (h.replica e.1).step hl hP h.pool hr
  refine ⟨fun n => ?_, fun d hd => ?_⟩
  · by_cases hn : n = e.1
    · subst hn
      simpa using hr'
    · simpa [hn] using h.replica n
  · rcases mem_append.mp hd with hd | hd
    · exact hr'.snapshots d hd
    · exact h.pool d hd

theorem ok_of_path
    (h : Path (fun s e t => core.clusterStep log s e = some t) Core.Cluster.fresh es S) :
    S.Ok log run core Idle := by
  refine h.invariant (I := fun _ s => s.Ok log run core Idle) ?_ fun _ _ _ _ h hs => h.step hl hP hs
  refine ⟨fun _ => ⟨?_, ?_, trivial, ?_, ?_⟩, ?_⟩
  · exact fun d hd => by cases hd
  · exact fun _ d hd => by cases hd
  · exact fun _ _ hm => by cases hm
  · exact fun x hx => by cases hx
  · exact fun d hd => by cases hd

end

theorem Replica.Ok.app_eq (h : s.Ok log run core Idle) (hp : s.phase = .running conn smData) :
    (core.file conn).app = compose log run core.empty s.next := by
  have hph := h.phase
  simp only [Phase.Ok, hp] at hph
  obtain ⟨-, -, hset, hle, hblank⟩ := hph
  rw [hset.app, compose_of_blank hle hblank]

end Facts

/-! ## Results -/

/-- **Every committed entry takes effect once.** Whatever the lifetimes and the snapshots, the
database of a running replica is the composition of the normal entries that have been fed, and the
membership that `applied_state` has returned is that of the last membership entry up to the returned
id. -/
theorem entries_take_effect_once {N : Type} [DecidableEq N] (log : CommittedLog Q M)
    (run : Q → A → A × R) (empty : A) {es : List (N × Event A M Unit)}
    {s : Core.Cluster N A M (Db A M) R}
    (h : Path (fun s e t => (Core.plain run empty).clusterStep log s e = some t)
      Core.Cluster.fresh es s) (n : N) :
    (∀ conn smData, (s.replica n).phase = .running conn smData →
      conn.app = compose log run empty (s.replica n).next) ∧
    ∀ id m, (s.replica n).answered = some (id, m) → m = membershipAt log (nextIndex id) := by
  have hok := (ok_of_path (Core.plain_lawful run empty) (fun _ _ _ => trivial) h).replica n
  exact ⟨fun _ _ hp => hok.app_eq hp, fun id m ha => (hok.answered id m ha).1⟩

def mixedLog : CommittedLog ℕ ℕ
  | 0 => ⟨⟨1, 1⟩, .membership 7⟩
  | 1 => ⟨⟨1, 1⟩, .normal 10⟩
  | 2 => ⟨⟨2, 1⟩, .blank⟩
  | 3 => ⟨⟨2, 1⟩, .normal 20⟩
  | _ => ⟨⟨2, 1⟩, .normal 30⟩

def addRow (q : ℕ) (a : List ℕ) : List ℕ × ℕ := (a ++ [q], a.length)

/-- A lifetime that ends in a kill, one that ends in a graceful shutdown, and the start of a third
one. -/
def threeLifetimes : List (Unit × Event (List ℕ) ℕ Unit) :=
  [.checkDb, .openLock, .connect, .finishNew, .appliedState, .apply (), .apply (), .apply (),
    .snapshot 1, .apply (), .kill (some ⟨[10, 20], none⟩),
    .checkDb, .openLock, .heal, .connect, .finishNew, .appliedState, .apply (), .apply (), .apply (),
    .shutdown, .unlock,
    .checkDb, .openLock, .connect, .finishNew, .appliedState].map fun e => ((), e)

def thirdData : StateMachineData ℕ := ⟨some ⟨⟨2, 1⟩, 4⟩, ⟨some ⟨⟨1, 1⟩, 0⟩, 7⟩, some 1⟩

theorem entries_take_effect_once_killed :
    ∃ s ∈ threeLifetimes.foldlM ((Core.plain addRow []).clusterStep mixedLog) Core.Cluster.fresh,
      (s.replica ()).phase = .running ⟨[10, 20, 30], some thirdData⟩ thirdData ∧
      [10, 20, 30] = compose mixedLog addRow [] (s.replica ()).next ∧
      ∀ id m, (s.replica ()).answered = some (id, m) → m = membershipAt mixedLog (nextIndex id) := by
  have hrun : ∃ s ∈ threeLifetimes.foldlM ((Core.plain addRow []).clusterStep mixedLog)
      Core.Cluster.fresh,
      (s.replica ()).phase = .running ⟨[10, 20, 30], some thirdData⟩ thirdData := by
    decide +kernel
  obtain ⟨s, hs, hp⟩ := hrun
  obtain ⟨happ, hmem⟩ := entries_take_effect_once mixedLog addRow [] (Path.of_foldlM hs) ()
  exact ⟨s, hs, hp, happ _ _ hp, hmem⟩

end Hiqlite.Sqlite
