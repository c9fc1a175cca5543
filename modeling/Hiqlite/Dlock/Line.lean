import Hiqlite.Dlock.Exclusion

/-!
# D4 — the queue of a lock

A ticket that is queued is to get the lock when it is at the front. The code looks at the clock
twice: `promote_key` finds the lease still valid, and the handler that called it finds it over and
hands the lock out past the queue.

* **`line_kept`**: as long as no lease ends between the two readings; `lock_cuts_in_line`.
-/

namespace Hiqlite.Dlock

open List Handler

variable {K : Type} [DecidableEq K] {w : World}

def LockQueue.InLine (lock : LockQueue) : Prop :=
  lock.queue.Nodup ∧ ∀ ticket, lock.currentTicket = some ticket → ticket ∉ lock.queue

/-- A grant takes the front of a queue, and a first try finds an empty one. -/
def Event.InLine : Event K → Prop
  | .grant _ ticket _ origin queue =>
    (queue ≠ [] → queue.head? = some ticket) ∧ (origin = .first → queue = [])
  | _ => True

/-- Nobody has cut in line and nobody is queued twice. -/
structure InLine (h : Handler K) : Prop where
  locks : ∀ key lock, h.locks.lookup key = some lock → lock.InLine
  log : ∀ e ∈ h.log, e.InLine

/-- Grants past the queue find it empty, and new tickets are new. -/
def Rules.inLine {w : World} : Rules w K where
  grant h key := h.queueOf key = []
  enqueue h key ticket := ∀ lock, h.locks.lookup key = some lock →
    ticket ∉ lock.queue ∧ lock.currentTicket ≠ some ticket
  release _ _ := True
  install data := ∀ key lock, data.lookup key = some lock → lock.InLine
  claim _ _ := True
  fresh _ _ _ := trivial

section Move

variable {h h' : Handler K} {key : K}

section

variable (hl : InLine h)
include hl

theorem InLine.congr (hlocks : h'.locks = h.locks) (hlog : h'.log = h.log) : InLine h' :=
  ⟨hlocks ▸ hl.locks, hlog ▸ hl.log⟩

theorem InLine.setLock {lock : LockQueue} (hlock : lock.InLine) : InLine (h.setLock key lock) := by
  refine ⟨fun key' lock' hlock' => ?_, hl.log⟩
  rcases Table.mem_lookup_insert hlock' with ⟨-, rfl⟩ | hlock'
  · exact hlock
  · exact hl.locks key' lock' hlock'

theorem InLine.note {es : List (Event K)} (hes : ∀ e ∈ es, e.InLine) : InLine (h.note es) := by
  refine ⟨hl.locks, fun e he => ?_⟩
  rcases mem_append.mp he with he | he
  · exact hl.log e he
  · exact hes e he

theorem InLine.answerAll (state : LockState) (acks : List (ℕ × Ack)) :
    InLine (h.answerAll w key state acks) := by
  refine hl.note fun e he => ?_
  obtain ⟨x, -, rfl⟩ := mem_map.mp he
  trivial

theorem InLine.woken (front : ℕ) : InLine (h.woken w key front) := by
  unfold Handler.woken
  split
  · refine InLine.answerAll ?_ _ _
    exact hl.congr rfl rfl
  · exact hl

theorem InLine.move {l : Option (LockRequest K)} (hm : Move w .inLine h l h') : InLine h' := by
  cases hm with
  | read => exact hl.congr rfl rfl
  | @grant key ticket origin hfree horigin hrule =>
    have hqueue : h.queueOf key = [] := hrule
    refine (hl.setLock ?_).note ?_
    · simp [LockQueue.InLine, hqueue]
    · simp [Event.InLine, hqueue]
  | @promote key lock front queue hlock hfree hqueue =>
    obtain ⟨hnodup, -⟩ := hl.locks key lock hlock
    rw [hqueue, nodup_cons] at hnodup
    refine InLine.woken ((hl.setLock ⟨hnodup.2, ?_⟩).note ?_) front
    · rintro ticket hticket
      cases hticket
      exact hnodup.1
    · simp [Event.InLine]
  | @enqueue key lock ticket hlock hheld hrule =>
    obtain ⟨hnodup, hholder⟩ := hl.locks key lock hlock
    obtain ⟨hnew, hnot⟩ := hrule lock hlock
    refine hl.setLock ⟨?_, fun a ha => ?_⟩
    · exact hnodup.append (nodup_singleton ticket) (by simpa using hnew)
    · have hne : a ≠ ticket := fun hat => hnot (hat ▸ ha)
      simpa [hne] using hholder a ha
  | @renew key lock id hlock hid =>
    have hlock' : LockQueue.InLine { lock with exp := h.time w + w.lockValidSeconds } :=
      hl.locks key lock hlock
    exact (hl.setLock hlock').note (by simp [Event.InLine])
  | @release key lock id hlock hid =>
    exact (hl.note (by simp [Event.InLine])).setLock ⟨(hl.locks key lock hlock).1, by simp⟩
  | ignore => exact hl.note (by simp [Event.InLine])
  | @remove key lock hlock hid hqueue =>
    have hl' : InLine { h with waiters := h.waiters.erase key } := hl.congr rfl rfl
    have : InLine (Handler.answerAll w key .released ((h.waiters.lookup key).getD [])
        { h with waiters := h.waiters.erase key }) := hl'.answerAll _ _
    exact ⟨fun key' lock' hlock' => this.locks key' lock' (Table.mem_lookup_erase hlock'), this.log⟩
  | locked | other => exact hl.note (by simp [answer, Event.InLine])
  | register => exact hl.congr rfl rfl
  | build => exact hl.note (by simp [Event.InLine])
  | @install data ack hrule =>
    have hdrain : InLine (drain w { h with locks := data }) := by
      refine ⟨hrule, fun e he => ?_⟩
      rcases mem_append.mp he with he | he
      · exact hl.log e he
      · obtain ⟨x, -, hx⟩ := mem_flatMap.mp he
        obtain ⟨y, -, rfl⟩ := mem_map.mp hx
        trivial
    exact hdrain.note (by simp [Event.InLine])

end

end Move

/-! ## Requests that are not too slow -/

variable (w) in
/-- While tickets are queued for `key`, no lease ends between the two readings of the next request.
-/
def Unhurried (h : Handler K) (key : K) : Prop :=
  ∀ lock, h.locks.lookup key = some lock →
    (isFree lock (w.clock h.reads) = false → lock.queue ≠ [] →
      w.clock (h.reads + 1) ≤ lock.exp) ∧
    (isFree lock (w.clock h.reads) = true → 1 < lock.queue.length →
      w.clock (h.reads + 1) ≤ w.clock h.reads + w.lockValidSeconds)

variable (w) in
/-- A request is fast enough, a first try has a new ticket, and locks from elsewhere are in line. -/
def Turn.Patient (h : Handler K) : Turn K → Prop
  | .request (.lock key logId _) => Unhurried w h key ∧ ∀ lock, h.locks.lookup key = some lock →
      logId ∉ lock.queue ∧ lock.currentTicket ≠ some logId
  | .request (.acquire key _ _) => Unhurried w h key
  | .request (.snapshotInstall data _) => ∀ key lock, data.lookup key = some lock → lock.InLine
  | _ => True

variable (w) in
def Patient : Handler K → List (Turn K) → Prop
  | _, [] => True
  | h, t :: ts => t.Patient w h ∧ Patient (turn w t h).2 ts

variable {h : Handler K}

theorem queueOf_decided {key : K} (hun : Unhurried w h key) (hfree : (h.decided w key).Free w key) :
    (h.decided w key).queueOf key = [] := by
  cases hlock : h.locks.lookup key with
  | none =>
    rw [decided_none hlock]
    exact queueOf_eq_nil hlock
  | some lock =>
    obtain ⟨hheld, hmore⟩ := hun lock hlock
    rcases promote_cases lock (w.clock h.reads) with ⟨front, queue, hfree1, hqueue⟩ | hstay
    · rw [decided_free hlock hfree1 hqueue] at hfree ⊢
      have hlock' : ((h.read.promoted w key front queue).read).locks.lookup key =
          some ⟨some front, w.clock h.reads + w.lockValidSeconds, queue⟩ := by simp
      rw [queueOf_eq hlock']
      by_contra hne
      have hlt := hfree _ hlock'
      have hle := hmore hfree1 (by rw [hqueue]; simpa [length_pos_iff] using hne)
      simp [isFree] at hlt
      omega
    · rw [decided_stays hlock hstay] at hfree ⊢
      rw [queueOf_eq (h := h.read.read) hlock]
      rcases hstay with hstay | hstay
      · by_contra hne
        have hle := hheld hstay hne
        have hlt := hfree lock hlock
        simp only [isFree, Bool.or_eq_false_iff] at hstay
        rw [isFree, hstay.1, Bool.false_or, decide_eq_true_iff] at hlt
        simp only [read_time, read_reads] at hlt
        omega
      · exact hstay

theorem new_decided {key : K} {ticket : ℕ} (hnew : ∀ lock, h.locks.lookup key = some lock →
      ticket ∉ lock.queue ∧ lock.currentTicket ≠ some ticket) :
    ∀ lock, (h.decided w key).locks.lookup key = some lock →
      ticket ∉ lock.queue ∧ lock.currentTicket ≠ some ticket := by
  cases hlock : h.locks.lookup key with
  | none =>
    rw [decided_none hlock]
    exact hnew
  | some lock =>
    rcases promote_cases lock (w.clock h.reads) with ⟨front, queue, hfree, hqueue⟩ | hstay
    · rw [decided_free hlock hfree hqueue]
      intro lock' hlock'
      obtain ⟨hnot, -⟩ := hnew lock hlock
      rw [hqueue, mem_cons, not_or] at hnot
      simp only [read_locks, promoted_locks, AList.lookup_insert,
        Option.some.injEq] at hlock'
      subst hlock'
      exact ⟨hnot.2, by simpa using fun heq => hnot.1 heq.symm⟩
    · rw [decided_stays hlock hstay]
      exact hnew

theorem Turn.Patient.meets {t : Turn K} (hp : t.Patient w h) : t.Meets w .inLine h := by
  cases t with
  | tick => trivial
  | request req =>
    cases req with
    | lock key logId ack =>
      exact ⟨queueOf_decided hp.1, fun _ => new_decided hp.2⟩
    | acquire key logId ack =>
      refine ⟨queueOf_decided hp, fun lock hlock hcur hnot lock' hlock' => ?_, fun _ _ _ _ => trivial⟩
      rw [hlock] at hlock'
      cases hlock'
      exact ⟨hnot, hcur⟩
    | snapshotInstall data ack => exact hp
    | await => exact fun _ _ _ _ => trivial
    | _ => trivial

theorem Patient.meets {ts : List (Turn K)} (hp : Patient w h ts) : Meets w .inLine h ts := by
  induction ts generalizing h with
  | nil => trivial
  | cons t ts ih => exact ⟨hp.1.meets, ih hp.2⟩

/-- **Nobody cuts in line**, in runs whose requests are fast enough and whose first tries have new
tickets. -/
theorem line_kept (ts : List (Turn K)) (hts : Patient w .spawn ts) :
    InLine (handler w ts .spawn).2 := by
  obtain ⟨-, -, ⟨ls, hpath, -⟩, -⟩ := handler_goes hts.meets
  have hspawn : InLine (.spawn : Handler K) :=
    ⟨fun _ _ hlock => (nomatch hlock), fun _ he => (nomatch he)⟩
  exact hpath.invariant (I := fun _ => InLine) hspawn fun _ _ _ _ ih hm => ih.move hm

/-- The third request reads the clock before and after the end of a lease. -/
def slow : World := ⟨false, fun n => if n ≤ 2 then 0 else if n ≤ 3 then 10 else 11, fun _ => false⟩

theorem line_kept_run : InLine (handler slow [.request (.lock 7 1 0), .request (.lock 7 2 1),
      .request (.release 7 1)] .spawn).2 := by
  refine line_kept _ ⟨⟨fun _ h => (nomatch h), fun _ h => (nomatch h)⟩,
    ⟨fun lock h => ?_, fun lock h => ?_⟩, trivial, trivial⟩
  · cases h
    decide
  · cases h
    decide

/-- **A slow request cuts in line.** A request that finds the lease valid in `promote_key` and over
a moment later gets the lock, be it a first try or the queued ticket itself. -/
theorem lock_cuts_in_line : Monotone slow.clock ∧
      (.grant 7 3 11 .first [2] ∈ (handler slow [.request (.lock 7 1 0), .request (.lock 7 2 1),
        .request (.lock 7 3 2)] .spawn).2.log) ∧
      (handler slow [.request (.lock 7 1 0), .request (.lock 7 2 1),
        .request (.acquire 7 2 2)] .spawn).2.locks.lookup 7 = some ⟨some 2, 21, [2]⟩ := by
  refine ⟨fun m n hmn => ?_, by decide, by decide⟩
  simp only [slow]
  split_ifs <;> omega

end Hiqlite.Dlock
