import Hiqlite.Lib.Exec
import Hiqlite.Lib.Table

/-!
# D1 — the lock handler

One task (`handler`) owns all distributed locks of a node. A lock has a holder with a lease and a queue
of tickets; a client that waits in the queue has a channel in `waiters`.

Every call of `Utc::now()` is a reading of its own. An answer to a receiver that is gone is an error,
which some places ignore and others unwrap.
-/

namespace Hiqlite.Dlock

open Exec


abbrev Ack : Type := ℕ

inductive LockState
  | locked (id : ℕ)
  | queued (id : ℕ)
  | released
  deriving DecidableEq

structure LockQueue where
  currentTicket : Option ℕ
  exp : ℤ
  queue : List ℕ
  deriving DecidableEq

structure World where
  debugAssertions : Bool
  /-- The readings of `Utc::now().timestamp()`, one after the other. -/
  clock : ℕ → ℤ
  /-- Whether a receiver is gone when the handler sends to it. -/
  gone : Ack → Bool

def World.lockValidSeconds (w : World) : ℤ := if w.debugAssertions then 2 else 10

theorem World.lockValidSeconds_nonneg (w : World) : 0 ≤ w.lockValidSeconds := by
  unfold World.lockValidSeconds
  split_ifs <;> decide

inductive Origin
  | first
  | claim
  | promotion
  deriving DecidableEq

inductive Event (K : Type)
  /-- A ticket becomes the holder; `queue` is what the queue was before that. -/
  | grant (key : K) (ticket : ℕ) (now : ℤ) (origin : Origin) (queue : List ℕ)
  | renew (key : K) (ticket : ℕ) (now : ℤ)
  | release (key : K) (ticket : ℕ)
  /-- An answer, with the latest reading of the clock and the lock as it is then. -/
  | sent (ack : Ack) (key : K) (state : LockState) (now : ℤ) (lock : Option LockQueue)
  | snapshotBuilt (ack : Ack) (locks : Table K LockQueue)
  | snapshotInstalled (ack : Ack)
  deriving DecidableEq

/-- An `unwrap` of a failed send. -/
inductive Panic
  | receiverGone (ack : Ack)
  deriving DecidableEq

structure Handler (K : Type) where
  locks : Table K LockQueue
  waiters : Table K (List (ℕ × Ack))
  reads : ℕ
  log : List (Event K)

def Handler.spawn {K : Type} : Handler K := { locks := ∅, waiters := ∅, reads := 0, log := [] }

inductive LockRequest (K : Type)
  | lock (key : K) (logId : ℕ) (ack : Ack)
  | acquire (key : K) (logId : ℕ) (ack : Ack)
  | release (key : K) (id : ℕ)
  | alive (key : K) (id : ℕ) (ack : Ack)
  | await (key : K) (id : ℕ) (ack : Ack)
  | snapshotBuild (ack : Ack)
  | snapshotInstall (data : Table K LockQueue) (ack : Ack)

def LockRequest.ack? {K : Type} : LockRequest K → Option Ack
  | .lock _ _ ack => some ack
  | .acquire _ _ ack => some ack
  | .release _ _ => none
  | .alive _ _ ack => some ack
  | .await _ _ ack => some ack
  | .snapshotBuild ack => some ack
  | .snapshotInstall _ ack => some ack

/-- One turn of the loop: a request, or a sweep over the keys in the order of the map. -/
inductive Turn (K : Type)
  | request (req : LockRequest K)
  | tick (order : List K)

def Turn.req? {K : Type} : Turn K → Option (LockRequest K)
  | .request req => some req
  | .tick _ => none

def acks {K : Type} (ts : List (Turn K)) : List Ack := (ts.filterMap Turn.req?).filterMap LockRequest.ack?

variable {K : Type} (w : World)

namespace Handler

def time (h : Handler K) : ℤ := w.clock (h.reads - 1)

@[simps]
def read (h : Handler K) : Handler K := { h with reads := h.reads + 1 }

@[simps]
def note (es : List (Event K)) (h : Handler K) : Handler K := { h with log := h.log ++ es }

@[simp] theorem read_time (h : Handler K) : h.read.time w = w.clock h.reads := rfl

@[simp] theorem note_time (es : List (Event K)) (h : Handler K) : (h.note es).time w = h.time w := rfl

variable [DecidableEq K]

@[simps]
def setLock (key : K) (lock : LockQueue) (h : Handler K) : Handler K :=
  { h with locks := h.locks.insert key lock }

@[simp] theorem setLock_time (key : K) (lock : LockQueue) (h : Handler K) :
    (h.setLock key lock).time w = h.time w := rfl

def answer (h : Handler K) (key : K) (state : LockState) (ack : Ack) : Event K :=
  .sent ack key state (h.time w) (h.locks.lookup key)

/-- Answer all of `acks`, whether they are still there or not. -/
def answerAll (key : K) (state : LockState) (acks : List (ℕ × Ack)) (h : Handler K) : Handler K :=
  h.note (acks.map fun e => h.answer w key state e.2)

end Handler

variable [DecidableEq K]

def now : Exec (Handler K) Panic ℤ := do
  modify Handler.read
  let h ← Exec.get
  pure (h.time w)

def send (key : K) (state : LockState) (ack : Ack) : Exec (Handler K) Panic Unit := do
  modify fun h => h.note [h.answer w key state ack]
  if w.gone ack then stop (.receiverGone ack) else pure ()

/-- Can this lock be handed out right now: no holder, or the holder's lease has expired. -/
def isFree (lock : LockQueue) (now : ℤ) : Bool := lock.currentTicket.isNone || decide (lock.exp < now)

/-- Wake every waiter that is registered for the promoted ticket. -/
def wake (key : K) (front : ℕ) : Exec (Handler K) Panic Unit := do
  let h ← Exec.get
  match h.waiters.lookup key with
  | some list => do
    modify fun h => { h with waiters := h.waiters.insert key (list.filter (·.1 ≠ front)) }
    modify (Handler.answerAll w key (.locked front) (list.filter (·.1 = front)))
  | none => pure ()

/-- Promote the front ticket of the queue of `lock` to holder. -/
def promote (key : K) (lock : LockQueue) : Exec (Handler K) Panic Unit := do
  let now ← now w
  match isFree lock now, lock.queue with
  | true, front :: queue => do
    modify (Handler.setLock key
      { currentTicket := some front, exp := now + w.lockValidSeconds, queue := queue })
    modify (Handler.note [.grant key front now .promotion lock.queue])
    wake w key front
  | _, _ => pure ()

def promoteKey (key : K) : Exec (Handler K) Panic Unit := do
  let h ← Exec.get
  match h.locks.lookup key with
  | some lock => promote w key lock
  | none => pure ()

def promoteKeys : List K → Exec (Handler K) Panic Unit
  | [] => pure ()
  | key :: keys => do
    promoteKey w key
    promoteKeys keys

/-- Promote the front of every queue whose holder is gone. -/
def sweepExpired (order : List K) : Exec (Handler K) Panic Unit := do
  let now ← now w
  let h ← Exec.get
  promoteKeys w (order.filter fun key =>
    (h.locks.lookup key).any fun lock => isFree lock now && !lock.queue.isEmpty)

/-- Hand the lock out to `ticket` without a look at the queue. -/
def grant (key : K) (ticket : ℕ) (now : ℤ) (origin : Origin) (queue : List ℕ) :
    Exec (Handler K) Panic Unit := do
  modify (Handler.setLock key
    { currentTicket := some ticket, exp := now + w.lockValidSeconds, queue := queue })
  modify (Handler.note [.grant key ticket now origin queue])

def handleLock (key : K) (logId : ℕ) (ack : Ack) : Exec (Handler K) Panic Unit := do
  promoteKey w key
  let now ← now w
  let h ← Exec.get
  match h.locks.lookup key with
  | some lock =>
    if lock.currentTicket.isNone || isFree lock now then do
      grant w key logId now .first lock.queue
      send w key (.locked logId) ack
    else do
      modify (Handler.setLock key { lock with queue := lock.queue ++ [logId] })
      send w key (.queued logId) ack
  | none => do
    grant w key logId now .first []
    send w key (.locked logId) ack

def handleAcquire (key : K) (logId : ℕ) (ack : Ack) : Exec (Handler K) Panic Unit := do
  promoteKey w key
  let now ← now w
  let h ← Exec.get
  match h.locks.lookup key with
  | some lock =>
    if lock.currentTicket = some logId ∧ now ≤ lock.exp then
      send w key (.locked logId) ack
    else if lock.currentTicket.isNone || isFree lock now then do
      grant w key logId now .claim lock.queue
      send w key (.locked logId) ack
    else if logId ∈ lock.queue then
      send w key (.queued logId) ack
    else do
      modify (Handler.setLock key { lock with queue := lock.queue ++ [logId] })
      send w key (.queued logId) ack
  | none => do
    grant w key logId now .claim []
    send w key (.locked logId) ack

/-- Drop a key for which nothing is left, and wake the waiters that are still registered. -/
def removeKey (key : K) : Exec (Handler K) Panic Unit := do
  let h ← Exec.get
  modify fun h => { h with waiters := h.waiters.erase key }
  modify (Handler.answerAll w key .released ((h.waiters.lookup key).getD []))
  modify fun h => { h with locks := h.locks.erase key }

def handleRelease (key : K) (id : ℕ) : Exec (Handler K) Panic Unit := do
  modify (Handler.note [.release key id])
  let h ← Exec.get
  match h.locks.lookup key with
  | some lock =>
    if lock.currentTicket = some id then do
      modify (Handler.setLock key { lock with currentTicket := none })
      promote w key { lock with currentTicket := none }
      let h ← Exec.get
      if (h.locks.lookup key).any fun lock => lock.currentTicket.isNone && lock.queue.isEmpty then
        removeKey w key
      else pure ()
    else pure ()
  | none => pure ()

def handleAlive (key : K) (id : ℕ) (ack : Ack) : Exec (Handler K) Panic Unit := do
  let h ← Exec.get
  match h.locks.lookup key with
  | some lock =>
    if lock.currentTicket = some id then do
      let now ← now w
      modify (Handler.setLock key { lock with exp := now + w.lockValidSeconds })
      modify (Handler.note [.renew key id now])
      send w key (.locked id) ack
    else send w key .released ack
  | none => send w key .released ack

def handleAwait (key : K) (id : ℕ) (ack : Ack) : Exec (Handler K) Panic Unit := do
  promoteKey w key
  let now ← now w
  let h ← Exec.get
  match h.locks.lookup key with
  | some lock =>
    if lock.currentTicket = some id ∧ now ≤ lock.exp then
      send w key (.locked id) ack
    else if isFree lock now then
      send w key .released ack
    else if id ∈ lock.queue then
      modify fun h => { h with
        waiters := h.waiters.insert key ((h.waiters.lookup key).getD [] ++ [(id, ack)]) }
    else
      send w key .released ack
  | none => send w key .released ack

/-- `waiters.drain()`: every waiter is answered `Released`. -/
def Handler.drain (h : Handler K) : Handler K :=
  { h with
    waiters := ∅
    log := h.log ++ h.waiters.entries.flatMap fun e => e.2.map fun x => h.answer w e.1 .released x.2 }

def handleRequest : LockRequest K → Exec (Handler K) Panic Unit
  | .lock key logId ack => handleLock w key logId ack
  | .acquire key logId ack => handleAcquire w key logId ack
  | .release key id => handleRelease w key id
  | .alive key id ack => handleAlive w key id ack
  | .await key id ack => handleAwait w key id ack
  | .snapshotBuild ack => do
    modify fun h => h.note [.snapshotBuilt ack h.locks]
    if w.gone ack then stop (.receiverGone ack) else pure ()
  | .snapshotInstall data ack => do
    modify fun h => { h with locks := data }
    modify (Handler.drain w)
    modify (Handler.note [.snapshotInstalled ack])
    if w.gone ack then stop (.receiverGone ack) else pure ()

def turn : Turn K → Exec (Handler K) Panic Unit
  | .request req => handleRequest w req
  | .tick order => sweepExpired w order

/-- **The handler's loop**: the turns it takes until the channel is closed. -/
def handler : List (Turn K) → Exec (Handler K) Panic Unit
  | [] => pure ()
  | t :: ts => do
    turn w t
    handler ts

end Hiqlite.Dlock
