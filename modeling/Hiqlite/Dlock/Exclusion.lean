import Hiqlite.Dlock.Moves
import Hiqlite.Lib.Lease

/-!
# D3 — one handler excludes

The log of a handler is a run of the lease register, as long as no locks come from elsewhere. So two
tickets hold a lock one after the other: the first lease was given back or is over
(**`lock_exclusive`**).
-/

namespace Hiqlite.Dlock

open List Option

variable {K : Type} [DecidableEq K] {w : World}

/-- The event of a lease that an event of the handler is. -/
def Event.lease : Event K → Option (Lease.Event K)
  | .grant key ticket now _ _ => some (.grant key ticket now)
  | .renew key ticket now => some (.renew key ticket now)
  | .release key ticket => some (.release key ticket)
  | .sent _ key (.locked ticket) now lock =>
    some (.told key ticket now (lock.elim now LockQueue.exp))
  | .sent _ _ _ _ _ => none
  | .snapshotBuilt _ _ => none
  | .snapshotInstalled _ => none

def leases (log : List (Event K)) : List (Lease.Event K) := log.filterMap Event.lease

variable (w) in
def leaseEnd (key : K) (ticket : ℕ) (log : List (Event K)) : Option ℤ :=
  Lease.leaseEnd w.lockValidSeconds key ticket (leases log)

omit [DecidableEq K] in
@[simp] theorem leases_append (log log' : List (Event K)) :
    leases (log ++ log') = leases log ++ leases log' :=
  filterMap_append

variable {key : K} {ticket : ℕ} {h : Handler K}

omit [DecidableEq K] in
theorem mem_of_mem_leases {log : List (Event K)} (h : .release key ticket ∈ leases log) :
    .release key ticket ∈ log := by
  obtain ⟨x, hx, hxe⟩ := mem_filterMap.mp h
  cases x with
  | release key' ticket' =>
    cases hxe
    exact hx
  | sent ack key' state now lock => cases state <;> cases hxe
  | _ => cases hxe

def Handler.holder (h : Handler K) (key : K) : Option (ℕ × ℤ) :=
  (h.locks.lookup key).bind fun lock => lock.currentTicket.map fun ticket => (ticket, lock.exp)

theorem holder_of_lookup {lock : LockQueue} (hlock : h.locks.lookup key = some lock) :
    h.holder key = lock.currentTicket.map fun ticket => (ticket, lock.exp) := by
  simp [Handler.holder, hlock]

theorem holder_eq {lock : LockQueue} (hlock : h.locks.lookup key = some lock)
    (hid : lock.currentTicket = some ticket) : h.holder key = some (ticket, lock.exp) := by
  simp [holder_of_lookup hlock, hid]

theorem exp_lt_of_free {e : ℤ} (hfree : h.Free w key) (hold : h.holder key = some (ticket, e)) :
    e < h.time w := by
  obtain ⟨lock, hlock, hticket⟩ := bind_eq_some_iff.mp hold
  obtain ⟨ticket', hid, heq⟩ := map_eq_some_iff.mp hticket
  cases heq
  simpa [isFree, hid] using hfree lock hlock

theorem setLock_holder {r : Lease.Register K} (hr : ∀ k, r.holder k = h.holder k) (key : K)
    (lock : LockQueue) (t : ℤ) (k : K) :
    (r.set key (lock.currentTicket.map fun ticket => (ticket, lock.exp)) t).holder k =
      (h.setLock key lock).holder k := by
  by_cases hk : k = key
  · subst hk
    rw [Lease.Register.set_holder_self, holder_of_lookup (AList.lookup_insert _)]
  · rw [Lease.Register.set_holder_ne _ _ _ hk, hr]
    simp [Handler.holder, AList.lookup_insert_ne hk]

theorem told_path (valid : ℤ) {t e : ℤ} {r : Lease.Register K} (htime : r.time ≤ t)
    (hold : r.holder key = some (ticket, e)) (hend : t ≤ e) (n : ℕ) :
    ∃ r', Path (Lease.Step valid) r (replicate n (.told key ticket t e)) r' ∧
      r'.holder = r.holder ∧ r'.time ≤ t := by
  induction n with
  | zero => exact ⟨r, .nil, rfl, htime⟩
  | succ n ih =>
    obtain ⟨r', hpath, hr', htime'⟩ := ih
    refine ⟨⟨r'.holder, t⟩, ?_, hr', le_refl t⟩
    rw [replicate_succ']
    exact hpath.snoc (.told htime' ((congrFun hr' key).trans hold) hend)

variable (w) in
/-- The log of the handler is a run of the lease register. -/
def Tracked (t0 : ℤ) (h : Handler K) : Prop :=
  ∃ r, Path (Lease.Step w.lockValidSeconds) (.vacant t0) (leases h.log) r ∧
    (∀ k, r.holder k = h.holder k) ∧ r.time ≤ h.time w

def Rules.closed {w : World} : Rules w K :=
  ⟨fun _ _ => True, fun _ _ _ => True, fun _ _ => True, fun _ => False, fun _ _ => True,
    fun _ _ _ => trivial⟩

section Move

variable {h h' : Handler K} {t0 : ℤ} {key : K}

theorem Tracked.silent (ht : Tracked w t0 h) (hlog : leases h'.log = leases h.log)
    (hold : ∀ k, h'.holder k = h.holder k) (htime : h'.time w = h.time w) : Tracked w t0 h' := by
  obtain ⟨r, hpath, hr, hle⟩ := ht
  exact ⟨r, hlog ▸ hpath, fun k => (hr k).trans (hold k).symm, htime ▸ hle⟩

theorem Tracked.granted (ht : Tracked w t0 h) {ticket : ℕ} (origin : Origin) (queue queue' : List ℕ)
    (hfree : h.Free w key) :
    Tracked w t0 ((h.setLock key ⟨some ticket, h.time w + w.lockValidSeconds, queue⟩).note
      [.grant key ticket (h.time w) origin queue']) := by
  obtain ⟨r, hpath, hr, hle⟩ := ht
  refine ⟨_, ?_, setLock_holder hr key _ (h.time w), le_refl _⟩
  simp only [Handler.note_log, Handler.setLock_log, leases_append]
  refine hpath.snoc (.grant hle fun b e hold => ?_)
  rw [hr] at hold
  exact exp_lt_of_free hfree hold

theorem leases_locked {lock : LockQueue} (hlock : h.locks.lookup key = some lock) (id : ℕ)
    (acks : List (ℕ × Ack)) : leases (acks.map fun e => h.answer w key (.locked id) e.2) =
      replicate acks.length (.told key id (h.time w) lock.exp) := by
  induction acks with
  | nil => rfl
  | cons e acks ih =>
    rw [map_cons, length_cons, replicate_succ, ← ih, leases, filterMap_cons,
      Handler.answer, hlock]
    rfl

theorem leases_released (h : Handler K) (key : K) (acks : List (ℕ × Ack)) :
    leases (acks.map fun e => h.answer w key .released e.2) = [] := by
  simp [leases, Handler.answer, Event.lease]

theorem Tracked.woken (ht : Tracked w t0 h) {lock : LockQueue} {front : ℕ}
    (hlock : h.locks.lookup key = some lock) (hid : lock.currentTicket = some front)
    (hexp : h.time w ≤ lock.exp) : Tracked w t0 (h.woken w key front) := by
  unfold Handler.woken
  cases h.waiters.lookup key with
  | none => exact ht
  | some list =>
    obtain ⟨r, hpath, hr, hle⟩ := ht
    obtain ⟨r', hpath', hr', hle'⟩ := told_path w.lockValidSeconds hle
      ((hr key).trans (holder_eq hlock hid)) hexp (list.filter (·.1 = front)).length
    refine ⟨r', ?_, fun k => (congrFun hr' k).trans (hr k), hle'⟩
    simp only [Handler.answerAll, Handler.note_log, leases_append]
    rw [← leases_locked hlock] at hpath'
    exact hpath.trans hpath'

section

variable (hclock : Monotone w.clock) (ht : Tracked w t0 h)
include hclock ht

theorem Tracked.move {l : Option (LockRequest K)} {R : Rules w K}
    (hclosed : ∀ data, ¬ R.install data) (hm : Move w R h l h') : Tracked w t0 h' := by
  cases hm with
  | read =>
    obtain ⟨r, hpath, hr, hle⟩ := ht
    exact ⟨r, hpath, hr, hle.trans (hclock (by simp))⟩
  | grant hfree => exact ht.granted _ _ _ hfree
  | @promote key lock front queue hlock hfree hqueue =>
    refine (ht.granted .promotion queue (front :: queue) (free_of_isFree hlock hfree)).woken
      (AList.lookup_insert _) rfl ?_
    have := w.lockValidSeconds_nonneg
    simp only [Handler.note_time, Handler.setLock_time]
    omega
  | @enqueue key lock ticket hlock =>
    refine ht.silent rfl (fun k => ?_) rfl
    by_cases hk : k = key
    · subst hk
      rw [holder_of_lookup hlock, holder_of_lookup (AList.lookup_insert _)]
    · simp [Handler.holder, AList.lookup_insert_ne hk]
  | @renew key lock id hlock hid =>
    obtain ⟨r, hpath, hr, hle⟩ := ht
    refine ⟨_, ?_, setLock_holder hr key _ (h.time w), le_refl _⟩
    simp only [Handler.note_log, Handler.setLock_log, leases_append, hid]
    exact hpath.snoc (.renew hle ((hr key).trans (holder_eq hlock hid)))
  | @release key lock id hlock hid =>
    obtain ⟨r, hpath, hr, hle⟩ := ht
    refine ⟨_, ?_, setLock_holder hr key _ r.time, hle⟩
    simp only [Handler.setLock_log, Handler.note_log, leases_append]
    exact hpath.snoc (.release ((hr key).trans (holder_eq hlock hid)))
  | @ignore key id hid =>
    obtain ⟨r, hpath, hr, hle⟩ := ht
    refine ⟨r, ?_, hr, hle⟩
    simp only [Handler.note_log, leases_append]
    refine hpath.snoc (.ignore fun e hold => ?_)
    rw [hr] at hold
    obtain ⟨lock, hlock, hticket⟩ := bind_eq_some_iff.mp hold
    obtain ⟨ticket', hid', heq⟩ := map_eq_some_iff.mp hticket
    cases heq
    exact hid lock hlock hid'
  | @remove key lock hlock hid hqueue =>
    refine ht.silent ?_ (fun k => ?_) rfl
    · simp only [Handler.removed, Handler.answerAll, Handler.note_log, leases_append,
        leases_released, append_nil]
    · by_cases hk : k = key
      · subst hk
        simp [Handler.removed, Handler.holder, hlock, hid]
      · simp [Handler.removed, Handler.answerAll, Handler.holder, AList.lookup_erase_ne hk]
  | @locked req key lock id ack hreq hlock hid hexp =>
    obtain ⟨r, hpath, hr, hle⟩ := ht
    refine ⟨⟨r.holder, h.time w⟩, ?_, hr, le_refl _⟩
    have htold : leases [h.answer w key (.locked id) ack] = [.told key id (h.time w) lock.exp] := by
      simp [leases, Handler.answer, Event.lease, hlock]
    rw [Handler.note_log, leases_append, htold]
    exact hpath.snoc (.told hle ((hr key).trans (holder_eq hlock hid)) hexp)
  | @other req key state ack hreq hstate =>
    refine ht.silent ?_ (fun _ => rfl) rfl
    cases state with
    | locked id => exact absurd rfl (hstate id)
    | queued | released => simp [leases, Handler.answer, Event.lease]
  | register => exact ht.silent rfl (fun _ => rfl) rfl
  | build => exact ht.silent (by simp [leases, Event.lease]) (fun _ => rfl) rfl
  | install hrule => exact (hclosed _ hrule).elim

theorem Tracked.goes {R : Rules w K} {rs : List (LockRequest K)}
    (hclosed : ∀ data, ¬ R.install data) (hgo : Goes w R h rs h') : Tracked w t0 h' := by
  obtain ⟨ls, hpath, -⟩ := hgo
  exact hpath.invariant (I := fun _ => Tracked w t0) ht fun _ _ _ _ ih hm =>
    ih.move hclock hclosed hm

theorem Tracked.later {n : ℕ} (hn : h.reads ≤ n) : Tracked w t0 { h with reads := n } := by
  obtain ⟨r, hpath, hr, hle⟩ := ht
  exact ⟨r, hpath, hr, hle.trans (hclock (Nat.sub_le_sub_right hn 1))⟩

end

theorem Tracked.spawn : Tracked w (w.clock 0) (.spawn : Handler K) :=
  ⟨_, .nil, fun _ => rfl, le_refl _⟩

end Move

def Turn.Installs : Turn K → Prop
  | .request (.snapshotInstall _ _) => True
  | _ => False

theorem tracked (hclock : Monotone w.clock) {ts : List (Turn K)} (hts : ∀ t ∈ ts, ¬ t.Installs) :
    Tracked w (w.clock 0) (handler w ts .spawn).2 := by
  have hmeets : Meets w .closed .spawn ts :=
    meets_of_install (fun _ _ => trivial) (fun _ _ _ => trivial) (fun _ _ => trivial)
      (fun _ _ => trivial) (fun data ack hmem => (hts _ hmem trivial).elim) _
  obtain ⟨us, -, hgo, -⟩ := handler_goes hmeets
  exact Tracked.spawn.goes hclock (fun _ h => h) hgo

/-- **One handler excludes.** Once a ticket `a` was told that it has the lock, no other ticket is
told so at a reading `t` of a clock that does not go back, unless `a` was released in between or the
lease of `a` ended before `t`. -/
theorem lock_exclusive (hclock : Monotone w.clock) (ts : List (Turn K))
    (hts : ∀ t ∈ ts, ¬ t.Installs) {before mid rest : List (Event K)} {key : K} {a b : ℕ}
    {ack1 ack2 : Ack} {t1 t : ℤ} {lock1 lock2 : Option LockQueue}
    (hlog : (handler w ts .spawn).2.log = before ++ .sent ack1 key (.locked a) t1 lock1 ::
      (mid ++ .sent ack2 key (.locked b) t lock2 :: rest)) (hab : a ≠ b) : .release key a ∈ mid ∨
      ∃ e, leaseEnd w key a (before ++ .sent ack1 key (.locked a) t1 lock1 :: mid) = some e ∧
        e < t := by
  obtain ⟨r, hpath, -⟩ := tracked hclock hts
  rw [hlog] at hpath
  simp only [leases, filterMap_append, filterMap_cons, Event.lease] at hpath
  rcases Lease.exclusive hpath hab with hrel | ⟨e, hend, hlt⟩
  · exact .inl (mem_of_mem_leases hrel)
  · exact .inr ⟨e, by simpa [leaseEnd, leases, Event.lease] using hend, hlt⟩

def sixth : World := ⟨false, fun n => 6 * n, fun _ => false⟩

theorem lock_exclusive_run : Event.release 7 1 ∈ ([.grant 7 2 12 .claim []] : List (Event ℕ)) ∨
      ∃ e, leaseEnd sixth 7 1 [.grant 7 1 0 .first [],
        .sent 0 7 (.locked 1) 0 (some ⟨some 1, 10, []⟩), .grant 7 2 12 .claim []] = some e ∧
        e < 12 :=
  have hlog : (handler sixth [.request (.lock 7 1 0), .request (.acquire 7 2 1)] .spawn).2.log =
      [.grant 7 1 0 .first []] ++ .sent 0 7 (.locked 1) 0 (some ⟨some 1, 10, []⟩) ::
        ([.grant 7 2 12 .claim []] ++ .sent 1 7 (.locked 2) 12 (some ⟨some 2, 22, []⟩) :: []) := rfl
  lock_exclusive (fun _ _ h => by simp [sixth]; omega) _ (by simp [Turn.Installs]) hlog (by decide)

end Hiqlite.Dlock
