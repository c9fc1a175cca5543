import Hiqlite.Lib.Exec
import Hiqlite.Lib.Consec
import Hiqlite.Raft.Types

/-!
# M1 — the in-memory log store

The cache raft may keep its log in a deque (`store/logs/memory.rs`), on which the operations do what
they do to the log, except for a purge that does not name a stored entry.

* **`memory_refines_log_iff`**; `purge_beyond_end`.
-/

namespace Hiqlite.Logs

open List

abbrev Entry (α : Type) := ℕ × LeaderId × α

def logId {α : Type} (e : Entry α) : LogId := ⟨e.2.1, e.1⟩

/-- A difference of two `u64`, as a release build computes it. -/
def subU64 (a b : ℕ) : ℕ := (a + 2 ^ 64 - b) % 2 ^ 64

theorem subU64_of_le {a b : ℕ} (h : b ≤ a) (ha : a < 2 ^ 64) : subU64 a b = a - b := by
  unfold subU64
  rw [show a + 2 ^ 64 - b = a - b + 2 ^ 64 by omega, Nat.add_mod_right, Nat.mod_eq_of_lt (by omega)]

inductive Panic
  | openEnd
  | drainRange
  | getRange
  deriving DecidableEq

/-- `Bound` of a requested range. -/
inductive Bound
  | included (i : ℕ)
  | excluded (i : ℕ)
  | unbounded

structure LogStoreMemory (α : Type) where
  logs : List (Entry α)
  lastPurged : Option LogId
  deriving DecidableEq

namespace LogStoreMemory

variable {α : Type}

def new : LogStoreMemory α := ⟨[], none⟩

def tryGetLogEntries (startBound endBound : Bound) :
    Exec (LogStoreMemory α) Panic (List (Entry α)) := do
  let start := match startBound with
    | .included i => i
    | .excluded i => (i + 1) % 2 ^ 64
    | .unbounded => 0
  match endBound with
  | .unbounded => Exec.stop .openEnd
  | .excluded 0 => return []
  | .excluded (i + 1) | .included i =>
    if i < start then
      return []
    let s ← Exec.get
    match s.logs with
    | [] => return []
    | first :: _ =>
      let rangeStart := subU64 start first.1
      let rangeEnd := subU64 i first.1
      -- the deque panics on a range that is not inside
      if rangeStart ≤ rangeEnd + 1 ∧ rangeEnd + 1 ≤ s.logs.length then
        return (s.logs.drop rangeStart).take (rangeEnd + 1 - rangeStart)
      else
        Exec.stop .getRange

def append (entries : List (Entry α)) : Exec (LogStoreMemory α) Panic Unit :=
  Exec.modify fun s => { s with logs := s.logs ++ entries }

def truncate (id : LogId) : Exec (LogStoreMemory α) Panic Unit := do
  let s ← Exec.get
  match s.logs with
  | [] => return ()
  | first :: _ =>
    let truncateFrom := subU64 id.index first.1
    Exec.modify fun s => { s with logs := s.logs.take truncateFrom }

def purge (id : LogId) : Exec (LogStoreMemory α) Panic Unit := do
  let s ← Exec.get
  let newLastPurged ← match s.logs with
    | [] => pure (some id)
    | first :: _ => do
      let purgeUntil := subU64 id.index first.1
      if s.logs.length < purgeUntil then
        Exec.stop .drainRange
      let left := s.logs.drop purgeUntil
      -- purge is inclusive
      Exec.modify fun s => { s with logs := left.tail }
      pure (left.head?.map logId)
  -- never regress the recorded purged point
  Exec.modify fun s => { s with lastPurged := newLastPurged.or s.lastPurged }

end LogStoreMemory

/-! ## The abstract log -/

/-- The entries that are left of those appended, with the purge point. -/
structure Log (α : Type) where
  entries : List (Entry α)
  purged : Option LogId
  deriving DecidableEq

inductive Op (α : Type)
  | append (entries : List (Entry α))
  | truncate (id : LogId)
  | purge (id : LogId)
  deriving DecidableEq

namespace Log

variable {α : Type}

def empty : Log α := ⟨[], none⟩

def first (l : Log α) : ℕ :=
  match l.purged with
  | none => 0
  | some id => id.index + 1

def apply (l : Log α) : Op α → Log α
  | .append es => { l with entries := l.entries ++ es }
  | .truncate id => { l with entries := Hiqlite.truncate id.index l.entries }
  | .purge id => ⟨Hiqlite.purge (id.index + 1) l.entries, some id⟩

/-- Entries continue the log, a truncation is at a stored index, a purge above the last one. -/
def Legal (l : Log α) : Op α → Prop
  | .append es => NumFrom (l.first + l.entries.length) es ∧ ∀ e ∈ es, e.1 < 2 ^ 64
  | .truncate id => ∃ e ∈ l.entries, e.1 = id.index
  | .purge id => id.index < 2 ^ 64 ∧ ∀ k ∈ l.purged, k.index < id.index

def Covers (l : Log α) : Op α → Prop
  | .purge id => l.entries = [] ∨ ∃ e ∈ l.entries, logId e = id
  | _ => True

/-- `P` holds for every operation of a run at the log it is applied to. -/
def Always (P : Log α → Op α → Prop) : Log α → List (Op α) → Prop
  | _, [] => True
  | l, op :: ops => P l op ∧ Always P (l.apply op) ops

instance (l : Log α) : DecidablePred l.Legal
  | .append es =>
    inferInstanceAs (Decidable (NumFrom (l.first + l.entries.length) es ∧ ∀ e ∈ es, e.1 < 2 ^ 64))
  | .truncate id => inferInstanceAs (Decidable (∃ e ∈ l.entries, e.1 = id.index))
  | .purge id => inferInstanceAs (Decidable (id.index < 2 ^ 64 ∧ ∀ k ∈ l.purged, k.index < id.index))

instance (l : Log α) : DecidablePred l.Covers
  | .purge id =>
    decidable_of_iff (l.entries.isEmpty ∨ ∃ e ∈ l.entries, logId e = id) (by simp [Covers])
  | .append _ => isTrue trivial
  | .truncate _ => isTrue trivial

instance instDecidableAlways (P : Log α → Op α → Prop) [∀ l, DecidablePred (P l)] :
    ∀ (l : Log α) (ops : List (Op α)), Decidable (l.Always P ops)
  | _, [] => isTrue trivial
  | l, op :: ops =>
    have := instDecidableAlways P (l.apply op) ops
    inferInstanceAs (Decidable (P l op ∧ Always P (l.apply op) ops))

/-- What is kept: consecutive indices from the purge point on. -/
structure Ok (l : Log α) : Prop where
  num : NumFrom l.first l.entries
  bound : ∀ e ∈ l.entries, e.1 < 2 ^ 64

variable {l : Log α} {op : Op α} {id : LogId}

theorem Legal.first_le (h : l.Legal (.purge id)) : l.first ≤ id.index := by
  unfold first
  cases hp : l.purged with
  | none => exact Nat.zero_le _
  | some k => exact h.2 k hp

theorem Ok.num_drop (h : l.Ok) {j : ℕ} : NumFrom (l.first + j) (l.entries.drop j) := by
  rcases Nat.lt_or_ge l.entries.length j with hj | hj
  · rw [drop_of_length_le hj.le]
    trivial
  · have := h.num
    rw [← take_append_drop j l.entries, numFrom_append, length_take_of_le hj] at this
    exact this.2

theorem Ok.apply (h : l.Ok) (hl : l.Legal op) : (l.apply op).Ok := by
  cases op with
  | append es =>
    refine ⟨numFrom_append.mpr ⟨h.num, hl.1⟩, fun e he => ?_⟩
    exact (mem_append.mp he).elim (h.bound e) (hl.2 e)
  | truncate id =>
    refine ⟨?_, fun e he => h.bound e (mem_truncate.mp he).1⟩
    have := h.num
    rw [← take_append_drop (id.index - l.first) l.entries, numFrom_append] at this
    rw [Log.apply, h.num.truncate_eq]
    exact this.1
  | purge id =>
    refine ⟨?_, fun e he => h.bound e (mem_purge.mp he).1⟩
    have hle := hl.first_le
    have := h.num_drop (j := id.index + 1 - l.first)
    rw [show l.first + (id.index + 1 - l.first) = id.index + 1 by omega] at this
    rw [Log.apply, h.num.purge_eq]
    exact this

def store (l : Log α) : LogStoreMemory α := ⟨l.entries, l.purged⟩

def applyAll : Log α → List (Op α) → Log α := foldl Log.apply

end Log

variable {α : Type} {l : Log α} {op : Op α} {id : LogId}

def LogStoreMemory.apply : Op α → Exec (LogStoreMemory α) Panic Unit
  | .append es => append es
  | .truncate id => truncate id
  | .purge id => purge id

def LogStoreMemory.applyAll : List (Op α) → Exec (LogStoreMemory α) Panic Unit
  | [] => pure ()
  | op :: ops => do
    LogStoreMemory.apply op
    applyAll ops

theorem truncate_spec (h : l.Ok) (hl : l.Legal (.truncate id)) :
    LogStoreMemory.truncate id l.store = (.ok (), (l.apply (.truncate id)).store) := by
  obtain ⟨e, he, hid⟩ := hl
  obtain ⟨x, xs, hx⟩ := exists_cons_of_ne_nil (ne_nil_of_mem he)
  have hfirst : x.1 = l.first := (hx ▸ h.num).1
  have hle := (h.num.mem_bounds he).1
  have hlt := h.bound e he
  have hsub : subU64 id.index x.1 = id.index - l.first := by
    rw [hfirst, subU64_of_le (by omega) (by omega)]
  simp only [LogStoreMemory.truncate, Exec.get_bind, Log.store, hx, Exec.modify_apply, hsub,
    Log.apply]
  rw [← hx, h.num.truncate_eq]

/-- **A purge** does to the deque what it does to the log iff it names a stored entry, or there is
none. -/
theorem purge_spec (h : l.Ok) (hl : l.Legal (.purge id)) :
    LogStoreMemory.purge id l.store = (.ok (), (l.apply (.purge id)).store) ↔
      l.Covers (.purge id) := by
  by_cases hnil : l.entries = []
  · simp [LogStoreMemory.purge, Log.store, Log.apply, Log.Covers, hnil]
  obtain ⟨x, xs, hx⟩ := exists_cons_of_ne_nil hnil
  have hfirst : x.1 = l.first := (hx ▸ h.num).1
  have hle := hl.first_le
  have hsub : subU64 id.index x.1 = id.index - l.first := by
    rw [hfirst, subU64_of_le hle hl.1]
  have hrun : LogStoreMemory.purge id l.store =
      if l.entries.length < id.index - l.first then (.error .drainRange, l.store)
      else (.ok (), ⟨(l.entries.drop (id.index - l.first)).tail,
        ((l.entries.drop (id.index - l.first)).head?.map logId).or l.purged⟩) := by
    simp only [LogStoreMemory.purge, Exec.get_bind, Log.store, hx, hsub]
    split_ifs <;> rfl
  have hcov : l.Covers (.purge id) ↔ ∃ e ∈ l.entries, logId e = id := by
    simp [Log.Covers, hnil]
  rw [hrun, hcov]
  rcases Nat.lt_or_ge (id.index - l.first) l.entries.length with hin | hout
  · -- the purge point lies inside, and its entry is removed last
    obtain ⟨ys, e, zs, hsplit, hid, hlen⟩ := h.num.exists_split hle (by omega)
    have hdrop : l.entries.drop (id.index - l.first) = e :: zs := by
      rw [hsplit, show id.index - l.first = ys.length by omega, drop_left]
    have hpurge : Hiqlite.purge (id.index + 1) l.entries = zs := by
      rw [h.num.purge_eq, show id.index + 1 - l.first = (id.index - l.first) + 1 by omega,
        ← drop_drop, hdrop]
      rfl
    rw [if_neg (by omega), hdrop]
    simp only [tail_cons, head?_cons, Option.map_some, Option.some_or, Log.apply,
      Log.store, hpurge, Prod.mk.injEq, LogStoreMemory.mk.injEq, Option.some.injEq, true_and]
    refine ⟨fun heq => ⟨e, by simp [hsplit], heq⟩, fun ⟨e', he', heq⟩ => ?_⟩
    have hnum := h.num
    rw [hsplit] at he' hnum
    obtain ⟨h1, h2⟩ := numFrom_append.mp hnum
    have hidx : e'.1 = id.index := by rw [← heq]; rfl
    rcases mem_append.mp he' with hm | hm
    · have := (h1.mem_bounds hm).2
      omega
    · rcases mem_cons.mp hm with rfl | hm
      · exact heq
      · have := ((numFrom_cons.mp h2).2.mem_bounds hm).1
        omega
  · -- beyond the end: the deque panics, or the purge point is not recorded
    refine iff_of_false (fun heq => ?_) fun ⟨e, he, heq⟩ => ?_
    · split_ifs at heq with hlt
      · exact absurd (congrArg Prod.fst heq) (by simp)
      · rw [drop_of_length_le hout] at heq
        have hp : l.purged = some id := by
          simpa [Log.apply, Log.store] using congrArg (fun r => r.2.lastPurged) heq
        exact absurd (hl.2 id hp) (lt_irrefl _)
    · have hb := (h.num.mem_bounds he).2
      have hidx : e.1 = id.index := by rw [← heq]; rfl
      omega

theorem apply_spec (h : l.Ok) (hl : l.Legal op) :
    LogStoreMemory.apply op l.store = (.ok (), (l.apply op).store) ↔ l.Covers op := by
  cases op with
  | append es => exact iff_of_true rfl trivial
  | truncate id => exact iff_of_true (truncate_spec h hl) trivial
  | purge id => exact purge_spec h hl

/-! ## What is read -/

theorem tryGetLogEntries_spec (h : l.Ok) {a b : ℕ} (hab : a ≤ b)
    (ha : ∃ e ∈ l.entries, e.1 = a) (hb : ∃ e ∈ l.entries, e.1 = b) :
    LogStoreMemory.tryGetLogEntries (.included a) (.included b) l.store =
      (.ok (l.entries.filter fun e => a ≤ e.1 ∧ e.1 ≤ b), l.store) := by
  obtain ⟨e, he, rfl⟩ := ha
  obtain ⟨e', he', rfl⟩ := hb
  obtain ⟨x, xs, hx⟩ := exists_cons_of_ne_nil (ne_nil_of_mem he)
  have hfirst : x.1 = l.first := (hx ▸ h.num).1
  have h1 := (h.num.mem_bounds he).1
  have h2 := h.num.mem_bounds he'
  have hlt := h.bound e' he'
  have hfilter : (l.entries.filter fun y => e.1 ≤ y.1 ∧ y.1 ≤ e'.1) =
      Hiqlite.truncate (e'.1 + 1) (Hiqlite.purge e.1 l.entries) := by
    simp only [Hiqlite.truncate, Hiqlite.purge, filter_filter]
    exact filter_congr fun y _ => by simp [Bool.and_comm]
  have hdrop := h.num_drop (j := e.1 - l.first)
  rw [show l.first + (e.1 - l.first) = e.1 by omega] at hdrop
  have hs1 : subU64 e.1 l.first = e.1 - l.first := subU64_of_le h1 (by omega)
  have hs2 : subU64 e'.1 l.first = e'.1 - l.first := subU64_of_le h2.1 hlt
  rw [hfilter, h.num.purge_eq, hdrop.truncate_eq]
  simp only [LogStoreMemory.tryGetLogEntries, Exec.ite_apply, Exec.get_bind, Log.store, hx, hfirst,
    hs1, hs2, if_neg (not_lt.mpr hab), Exec.pure_apply]
  rw [← hx, if_pos ⟨by omega, by omega⟩,
    show e'.1 - l.first + 1 - (e.1 - l.first) = e'.1 + 1 - e.1 by omega]

/-! ## Runs -/

/-- The store shows the log, and every stored range is read. -/
structure LogStoreMemory.Shows (s : LogStoreMemory α) (l : Log α) : Prop where
  logs : s.logs = l.entries
  lastPurged : s.lastPurged = l.purged
  num : NumFrom l.first s.logs
  read : ∀ a b, a ≤ b → (∃ e ∈ s.logs, e.1 = a) → (∃ e ∈ s.logs, e.1 = b) →
    tryGetLogEntries (.included a) (.included b) s =
      (.ok (s.logs.filter fun e => a ≤ e.1 ∧ e.1 ≤ b), s)

theorem Log.Ok.shows_store (h : l.Ok) : l.store.Shows l :=
  ⟨rfl, rfl, h.num, fun _ _ hab ha hb => tryGetLogEntries_spec h hab ha hb⟩

theorem LogStoreMemory.Shows.eq_store {s : LogStoreMemory α} (h : s.Shows l) : s = l.store := by
  obtain ⟨logs, lastPurged⟩ := s
  obtain ⟨h1, h2, -⟩ := h
  simp only at h1 h2
  rw [h1, h2]
  rfl

/-- A run of `ops` from the store of `l` shows the log after every operation. -/
def Tracks (l : Log α) (ops : List (Op α)) : Prop :=
  ∀ n, ∃ s, LogStoreMemory.applyAll (ops.take n) l.store = (.ok (), s) ∧
    s.Shows (l.applyAll (ops.take n))

theorem tracks_cons (h : l.Ok) {ops : List (Op α)} : Tracks l (op :: ops) ↔
      LogStoreMemory.apply op l.store = (.ok (), (l.apply op).store) ∧
        Tracks (l.apply op) ops := by
  have hrun : ∀ n, LogStoreMemory.apply op l.store = (.ok (), (l.apply op).store) →
      LogStoreMemory.applyAll ((op :: ops).take (n + 1)) l.store =
        LogStoreMemory.applyAll (ops.take n) (l.apply op).store := fun n h1 => by
    rw [take_succ_cons, LogStoreMemory.applyAll, Exec.bind_ok h1]
  constructor
  · intro ht
    have h1 : LogStoreMemory.apply op l.store = (.ok (), (l.apply op).store) := by
      obtain ⟨s, hs, hshow⟩ := ht 1
      rw [take_succ_cons, take_zero, LogStoreMemory.applyAll, Exec.bind_eq_ok] at hs
      obtain ⟨_, s1, hs1, hs2⟩ := hs
      cases hs2
      rw [hs1, hshow.eq_store]
      rfl
    refine ⟨h1, fun n => ?_⟩
    obtain ⟨s, hs, hshow⟩ := ht (n + 1)
    exact ⟨s, (hrun n h1).symm.trans hs, hshow⟩
  · rintro ⟨h1, ht⟩ n
    cases n with
    | zero => exact ⟨l.store, rfl, h.shows_store⟩
    | succ n =>
      obtain ⟨s, hs, hshow⟩ := ht n
      exact ⟨s, (hrun n h1).trans hs, hshow⟩

theorem tracks_iff (h : l.Ok) {ops : List (Op α)} (hl : l.Always Log.Legal ops) :
    Tracks l ops ↔ l.Always Log.Covers ops := by
  induction ops generalizing l with
  | nil =>
    refine iff_of_true (fun n => ?_) trivial
    rw [take_nil]
    exact ⟨l.store, rfl, h.shows_store⟩
  | cons op ops ih =>
    obtain ⟨hop, hops⟩ := hl
    rw [tracks_cons h, apply_spec h hop, ih (h.apply hop) hops]
    rfl

/-- **The in-memory store is the log** along a run of operations that a log store may be asked
for, iff every purge of a deque that is not empty names a stored entry. -/
theorem memory_refines_log_iff {ops : List (Op α)} (hl : Log.empty.Always Log.Legal ops) :
    (∀ n, ∃ s, LogStoreMemory.applyAll (ops.take n) .new = (.ok (), s) ∧
      s.Shows (Log.empty.applyAll (ops.take n))) ↔ Log.empty.Always Log.Covers ops :=
  tracks_iff (l := .empty) ⟨numFrom_nil _, by simp [Log.empty]⟩ hl

def idAt (i : ℕ) : LogId := ⟨⟨1, 1⟩, i⟩

def entryAt (i : ℕ) : Entry Unit := (i, ⟨1, 1⟩, ())

/-- A run with a conflict, a purge and a snapshot that is ahead of an empty deque. -/
theorem memory_refines_log_run :
    let ops := [.append [entryAt 0, entryAt 1, entryAt 2], .truncate (idAt 2), .purge (idAt 0),
      .purge (idAt 1), .purge (idAt 7), .append [entryAt 8]]
    ∀ n, ∃ s, LogStoreMemory.applyAll (ops.take n) .new = (.ok (), s) ∧
      s.Shows (Log.empty.applyAll (ops.take n)) :=
  (memory_refines_log_iff (by decide)).mpr (by decide)

/-- **A snapshot on a lagging node**: one past the end the purge point is lost, and further ahead
the store panics. -/
theorem purge_beyond_end :
    Log.empty.Always Log.Legal [.append [entryAt 0, entryAt 1], .purge (idAt 2)] ∧
      LogStoreMemory.applyAll [.append [entryAt 0, entryAt 1], .purge (idAt 2)] .new =
        (.ok (), ⟨[], none⟩) ∧
      Log.empty.Always Log.Legal [.append [entryAt 0, entryAt 1], .purge (idAt 3)] ∧
      LogStoreMemory.applyAll [.append [entryAt 0, entryAt 1], .purge (idAt 3)] .new =
        (.error .drainRange, ⟨[entryAt 0, entryAt 1], none⟩) := by
  decide +kernel

end Hiqlite.Logs
