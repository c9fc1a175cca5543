import Hiqlite.Lib.Coupling
import Hiqlite.Dlock.Waiters

/-!
# D9 — lock handlers with the same locks

The waiters of a lock are the clients of one node. Two handlers with the same locks differ in them
only, and so in what they send to the channels of these clients.

* **`turn_same`**: every later turn keeps that; **`Handler.alike_of_locks`**: the same answers.
-/

namespace Hiqlite.Dlock

open List
open Exec (Coupled)

variable {K : Type} [DecidableEq K] {w : World} {S : Multiset Ack} {h g : Handler K}

/-! ## The same locks -/

/-- The events that are not sent to a channel in `S`. -/
def elsewhere (S : Multiset Ack) (log : List (Event K)) : List (Event K) :=
  log.filter fun e => decide (∀ ack ∈ e.ack?, ack ∉ S)

omit [DecidableEq K] in
theorem elsewhere_append (log log' : List (Event K)) :
    elsewhere S (log ++ log') = elsewhere S log ++ elsewhere S log' :=
  filter_append ..

theorem elsewhere_answers {acks : List (ℕ × Ack)} (hacks : ∀ e ∈ acks, e.2 ∈ S) (h : Handler K)
    (key : K) (state : LockState) :
    elsewhere S (acks.map fun e => h.answer w key state e.2) = [] := by
  refine filter_eq_nil_iff.mpr fun e he => ?_
  obtain ⟨x, hx, rfl⟩ := mem_map.mp he
  simpa [Handler.answer, Event.ack?] using hacks x hx

/-- The same locks, and only clients with a channel in `S` wait. -/
structure Handler.Same (S : Multiset Ack) (h g : Handler K) : Prop where
  locks : h.locks = g.locks
  reads : h.reads = g.reads
  log : elsewhere S h.log = elsewhere S g.log
  left : ∀ key id ack, h.Registered key id ack → ack ∈ S
  right : ∀ key id ack, g.Registered key id ack → ack ∈ S

namespace Handler.Same

section

variable (hs : h.Same S g)
include hs

theorem time : h.time w = g.time w := by
  rw [Handler.time, hs.reads, Handler.time]

theorem read : h.read.Same S g.read :=
  { hs with reads := congrArg (· + 1) hs.reads }

theorem note (es : List (Event K)) : (h.note es).Same S (g.note es) := by
  refine { hs with log := ?_ }
  rw [Handler.note_log, Handler.note_log, elsewhere_append, elsewhere_append, hs.log]

theorem setLock (key : K) (lock : LockQueue) : (h.setLock key lock).Same S (g.setLock key lock) :=
  { hs with locks := congrArg (·.insert key lock) hs.locks }

theorem answer (key : K) (state : LockState) (ack : Ack) :
    h.answer w key state ack = g.answer w key state ack := by
  rw [Handler.answer, hs.time, hs.locks, Handler.answer]

end

end Handler.Same

theorem registered_of_mem {key : K} {e : ℕ × Ack} (he : e ∈ (h.waiters.lookup key).getD []) :
    h.Registered key e.1 e.2 := by
  cases hlist : h.waiters.lookup key with
  | none =>
    rw [hlist] at he
    cases he
  | some list =>
    rw [hlist] at he
    exact ⟨list, hlist, he⟩

theorem woken_elsewhere (hS : ∀ key id ack, h.Registered key id ack → ack ∈ S) (key : K) (front : ℕ) :
    elsewhere S (h.woken w key front).log = elsewhere S h.log := by
  rw [woken_log, elsewhere_append, elsewhere_answers, append_nil]
  exact fun e he => hS key e.1 e.2 (registered_of_mem (mem_of_mem_filter he))

theorem Handler.Same.woken (hs : h.Same S g) (key : K) (front : ℕ) :
    (h.woken w key front).Same S (g.woken w key front) := by
  refine ⟨?_, ?_, ?_, fun key' id ack hreg => ?_, fun key' id ack hreg => ?_⟩
  · simpa using hs.locks
  · simpa using hs.reads
  · rw [woken_elsewhere hs.left, woken_elsewhere hs.right, hs.log]
  · exact hs.left key' id ack ((woken_registered w).mp hreg).1
  · exact hs.right key' id ack ((woken_registered w).mp hreg).1

theorem removed_elsewhere (hS : ∀ key id ack, h.Registered key id ack → ack ∈ S) (key : K) :
    elsewhere S (h.removed w key).log = elsewhere S h.log := by
  rw [removed_log, elsewhere_append, elsewhere_answers, append_nil]
  exact fun e he => hS key e.1 e.2 (registered_of_mem he)

section

variable (hs : h.Same S g)
include hs

theorem Handler.Same.removed (key : K) : (h.removed w key).Same S (g.removed w key) := by
  refine ⟨congrArg (·.erase key) hs.locks, hs.reads, ?_, fun key' id ack hreg => ?_,
    fun key' id ack hreg => ?_⟩
  · rw [removed_elsewhere hs.left, removed_elsewhere hs.right, hs.log]
  · exact hs.left key' id ack ((removed_registered w).mp hreg).1
  · exact hs.right key' id ack ((removed_registered w).mp hreg).1

/-! ## Turns -/

theorem now_same : Coupled (Handler.Same S) (now w) (now w) h g :=
  ⟨congrArg Except.ok hs.read.time, hs.read⟩

theorem send_same (key : K) (state : LockState) (ack : Ack) :
    Coupled (Handler.Same S) (send w key state ack) (send w key state ack) h g := by
  have hnote : (h.note [h.answer w key state ack]).Same S (g.note [g.answer w key state ack]) := by
    rw [hs.answer key state ack]
    exact hs.note _
  exact .modify_bind (.ite (fun _ => .stop hnote _) fun _ => .pure hnote _)

theorem wake_same (key : K) (front : ℕ) :
    Coupled (Handler.Same S) (wake w key front) (wake w key front) h g := by
  rw [Coupled, wake_eq, wake_eq]
  exact ⟨rfl, hs.woken key front⟩

theorem promote_same (key : K) (lock : LockQueue) :
    Coupled (Handler.Same S) (promote w key lock) (promote w key lock) h g := by
  refine (now_same hs).bind fun now h' g' hs' => ?_
  cases isFree lock now with
  | false => exact .pure hs' _
  | true =>
    cases lock.queue with
    | nil => exact .pure hs' _
    | cons front queue =>
      exact .modify_bind (.modify_bind (wake_same ((hs'.setLock key _).note _) key front))

theorem promoteKey_same (key : K) :
    Coupled (Handler.Same S) (promoteKey w key) (promoteKey w key) h g := by
  refine .get_bind ?_
  rw [hs.locks]
  cases g.locks.lookup key with
  | none => exact .pure hs _
  | some lock => exact promote_same hs key lock

theorem promoteKeys_same (keys : List K) :
    Coupled (Handler.Same S) (promoteKeys w keys) (promoteKeys w keys) h g := by
  induction keys generalizing h g with
  | nil => exact .pure hs _
  | cons key keys ih => exact (promoteKey_same hs key).bind fun _ _ _ hs' => ih hs'

theorem sweepExpired_same (order : List K) :
    Coupled (Handler.Same S) (sweepExpired w order) (sweepExpired w order) h g := by
  refine (now_same hs).bind fun now h' g' hs' => .get_bind ?_
  rw [hs'.locks]
  exact promoteKeys_same hs' _

theorem grant_send_same (key : K) (ticket : ℕ) (now : ℤ) (origin : Origin) (queue : List ℕ)
    (state : LockState) (ack : Ack) : Coupled (Handler.Same S)
      (do grant w key ticket now origin queue; send w key state ack)
      (do grant w key ticket now origin queue; send w key state ack) h g :=
  (Coupled.modify_bind (.modify ((hs.setLock key _).note _))).bind fun _ _ _ hs' =>
    send_same hs' key state ack

theorem handleLock_same (key : K) (logId : ℕ) (ack : Ack) :
    Coupled (Handler.Same S) (handleLock w key logId ack) (handleLock w key logId ack) h g := by
  refine (promoteKey_same hs key).bind fun _ h1 g1 hs1 => ?_
  refine (now_same hs1).bind fun now h2 g2 hs2 => .get_bind ?_
  rw [hs2.locks]
  cases g2.locks.lookup key with
  | none => exact grant_send_same hs2 ..
  | some lock =>
    refine .ite (fun _ => grant_send_same hs2 ..) fun _ => ?_
    exact .modify_bind (send_same (hs2.setLock key _) ..)

theorem handleAcquire_same (key : K) (logId : ℕ) (ack : Ack) :
    Coupled (Handler.Same S) (handleAcquire w key logId ack) (handleAcquire w key logId ack) h g := by
  refine (promoteKey_same hs key).bind fun _ h1 g1 hs1 => ?_
  refine (now_same hs1).bind fun now h2 g2 hs2 => .get_bind ?_
  rw [hs2.locks]
  cases g2.locks.lookup key with
  | none => exact grant_send_same hs2 ..
  | some lock =>
    refine .ite (fun _ => send_same hs2 ..) fun _ => ?_
    refine .ite (fun _ => grant_send_same hs2 ..) fun _ => ?_
    refine .ite (fun _ => send_same hs2 ..) fun _ => ?_
    exact .modify_bind (send_same (hs2.setLock key _) ..)

theorem handleRelease_same (key : K) (id : ℕ) :
    Coupled (Handler.Same S) (handleRelease w key id) (handleRelease w key id) h g := by
  refine .modify_bind (.get_bind ?_)
  have hs1 := hs.note [.release key id]
  rw [hs1.locks]
  cases (g.note [.release key id]).locks.lookup key with
  | none => exact .pure hs1 _
  | some lock =>
    refine .ite (fun _ => .modify_bind ?_) fun _ => .pure hs1 _
    refine (promote_same (hs1.setLock key _) key _).bind fun _ h2 g2 hs2 => .get_bind ?_
    rw [hs2.locks]
    exact .ite (fun _ => .get_bind (.modify_bind (.modify_bind (.modify (hs2.removed key))))) fun _ =>
      .pure hs2 _

theorem handleAlive_same (key : K) (id : ℕ) (ack : Ack) :
    Coupled (Handler.Same S) (handleAlive w key id ack) (handleAlive w key id ack) h g := by
  refine .get_bind ?_
  rw [hs.locks]
  cases g.locks.lookup key with
  | none => exact send_same hs ..
  | some lock =>
    refine .ite (fun _ => ?_) fun _ => send_same hs ..
    refine (now_same hs).bind fun now h1 g1 hs1 => .modify_bind (.modify_bind ?_)
    exact send_same ((hs1.setLock key _).note _) ..

end

def Turn.Plain : Turn K → Prop
  | .request (.await ..) | .request (.snapshotBuild _) | .request (.snapshotInstall ..) => False
  | _ => True

theorem turn_same (hs : h.Same S g) {t : Turn K} (ht : t.Plain) :
    Coupled (Handler.Same S) (turn w t) (turn w t) h g := by
  cases t with
  | tick order => exact sweepExpired_same hs order
  | request req =>
    cases req with
    | lock key logId ack => exact handleLock_same hs key logId ack
    | acquire key logId ack => exact handleAcquire_same hs key logId ack
    | release key id => exact handleRelease_same hs key id
    | alive key id ack => exact handleAlive_same hs key id ack
    | await | snapshotBuild | snapshotInstall => exact ht.elim

theorem handler_same (hs : h.Same S g) {ts : List (Turn K)} (hts : ∀ t ∈ ts, t.Plain) :
    Coupled (Handler.Same S) (handler w ts) (handler w ts) h g := by
  induction ts generalizing h g with
  | nil => exact .pure hs _
  | cons t ts ih =>
    exact (turn_same hs (hts t mem_cons_self)).bind fun _ _ _ hs' =>
      ih hs' fun t' ht' => hts t' (mem_cons_of_mem _ ht')

/-! ## Answers -/

def told (ack : Ack) (log : List (Event K)) : List (K × LockState) :=
  log.filterMap fun e => match e with
    | .sent a key state _ _ => if a = ack then some (key, state) else none
    | _ => none

omit [DecidableEq K] in
theorem told_elsewhere {ack : Ack} (hack : ack ∉ S) (log : List (Event K)) :
    told ack (elsewhere S log) = told ack log := by
  rw [told, elsewhere, filterMap_filter]
  refine filterMap_congr fun e _ => ?_
  cases e with
  | sent a key state now lock =>
    by_cases ha : a = ack
    · subst ha
      simp [Event.ack?, hack]
    · simp [ha]
  | _ => simp

/-- The two handlers end in the same way and give the same answers on new channels. -/
def Handler.Alike (h g : Handler K) : Prop :=
  ∀ (w : World) (n : ℕ) (ts : List (Turn K)), (∀ t ∈ ts, t.Plain) →
    (∀ ack ∈ acks ts, ack ∉ h.kept ∧ ack ∉ g.kept) →
      (handler w ts { h with reads := n, log := [] }).1 =
        (handler w ts { g with reads := n, log := [] }).1 ∧
      ∀ ack ∈ acks ts, told ack (handler w ts { h with reads := n, log := [] }).2.log =
        told ack (handler w ts { g with reads := n, log := [] }).2.log

theorem Handler.alike_of_locks (hlocks : h.locks = g.locks) : h.Alike g := by
  intro w n ts hts hacks
  have hs : Handler.Same (h.kept + g.kept) { h with reads := n, log := [] }
      { g with reads := n, log := [] } := by
    refine ⟨hlocks, rfl, rfl, fun key id ack hreg => ?_, fun key id ack hreg => ?_⟩
    · exact Multiset.mem_add.mpr (.inl (mem_kept hreg))
    · exact Multiset.mem_add.mpr (.inr (mem_kept hreg))
  obtain ⟨hfst, hend⟩ := handler_same (w := w) hs hts
  refine ⟨hfst, fun ack hack => ?_⟩
  have hnot : ack ∉ h.kept + g.kept := by
    rw [Multiset.mem_add]
    exact fun hmem => hmem.elim (hacks ack hack).1 (hacks ack hack).2
  rw [← told_elsewhere hnot, hend.log, told_elsewhere hnot]

end Hiqlite.Dlock
