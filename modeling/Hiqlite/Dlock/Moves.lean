import Hiqlite.Dlock.Handler
import Hiqlite.Lib.Path

/-!
# D2 — what the lock handler can do

Every turn of the handler is a sequence of a few kinds of moves, each on one lock (**`turn_goes`**,
**`handler_goes`**). What holds of all moves holds of every run.
-/

namespace Hiqlite.Dlock

open List Exec

variable {K : Type} [DecidableEq K] (w : World)

namespace Handler

def queueOf (h : Handler K) (key : K) : List ℕ := (h.locks.lookup key).elim [] LockQueue.queue

/-- The lock of `key` can be handed out at the latest reading. -/
def Free (h : Handler K) (key : K) : Prop :=
  ∀ lock, h.locks.lookup key = some lock → isFree lock (h.time w) = true

def waiting (h : Handler K) (key : K) (ticket : ℕ) : List (ℕ × Ack) :=
  ((h.waiters.lookup key).getD []).filter (·.1 = ticket)

def woken (key : K) (front : ℕ) (h : Handler K) : Handler K :=
  match h.waiters.lookup key with
  | some list => answerAll w key (.locked front) (list.filter (·.1 = front))
      { h with waiters := h.waiters.insert key (list.filter (·.1 ≠ front)) }
  | none => h

@[simp] theorem woken_locks (key : K) (front : ℕ) (h : Handler K) :
    (h.woken w key front).locks = h.locks := by
  unfold woken
  split <;> rfl

@[simp] theorem woken_reads (key : K) (front : ℕ) (h : Handler K) :
    (h.woken w key front).reads = h.reads := by
  unfold woken
  split <;> rfl

def promoted (key : K) (front : ℕ) (queue : List ℕ) (h : Handler K) : Handler K :=
  ((h.setLock key ⟨some front, h.time w + w.lockValidSeconds, queue⟩).note
    [.grant key front (h.time w) .promotion (front :: queue)]).woken w key front

@[simp] theorem promoted_locks (key : K) (front : ℕ) (queue : List ℕ) (h : Handler K) :
    (h.promoted w key front queue).locks =
      h.locks.insert key ⟨some front, h.time w + w.lockValidSeconds, queue⟩ :=
  woken_locks ..

@[simp] theorem promoted_reads (key : K) (front : ℕ) (queue : List ℕ) (h : Handler K) :
    (h.promoted w key front queue).reads = h.reads :=
  woken_reads ..

def granted (key : K) (ticket : ℕ) (origin : Origin) (h : Handler K) : Handler K :=
  (h.setLock key ⟨some ticket, h.time w + w.lockValidSeconds, h.queueOf key⟩).note
    [.grant key ticket (h.time w) origin (h.queueOf key)]

def removed (key : K) (h : Handler K) : Handler K :=
  let h' := answerAll w key .released ((h.waiters.lookup key).getD [])
    { h with waiters := h.waiters.erase key }
  { h' with locks := h'.locks.erase key }

def registered (key : K) (id : ℕ) (ack : Ack) (h : Handler K) : Handler K :=
  { h with waiters := h.waiters.insert key ((h.waiters.lookup key).getD [] ++ [(id, ack)]) }

end Handler

/-- The answers that a request for a lock may get on its channel. -/
inductive LockRequest.Gets : LockRequest K → K → LockState → Ack → Prop
  | lockLocked {key : K} {id : ℕ} {ack : Ack} : Gets (.lock key id ack) key (.locked id) ack
  | lockQueued {key : K} {id : ℕ} {ack : Ack} : Gets (.lock key id ack) key (.queued id) ack
  | acquireLocked {key : K} {id : ℕ} {ack : Ack} : Gets (.acquire key id ack) key (.locked id) ack
  | acquireQueued {key : K} {id : ℕ} {ack : Ack} : Gets (.acquire key id ack) key (.queued id) ack
  | aliveLocked {key : K} {id : ℕ} {ack : Ack} : Gets (.alive key id ack) key (.locked id) ack
  | aliveReleased {key : K} {id : ℕ} {ack : Ack} : Gets (.alive key id ack) key .released ack
  | awaitLocked {key : K} {id : ℕ} {ack : Ack} : Gets (.await key id ack) key (.locked id) ack
  | awaitReleased {key : K} {id : ℕ} {ack : Ack} : Gets (.await key id ack) key .released ack

/-- What is asked of grants past the queue, new places in it, releases, installs and answers. -/
structure Rules (K : Type) where
  grant : Handler K → K → Prop
  enqueue : Handler K → K → ℕ → Prop
  release : K → ℕ → Prop
  install : Table K LockQueue → Prop
  claim : ℤ → LockQueue → Prop
  fresh : ∀ now lock, lock.exp = now + w.lockValidSeconds → claim now lock

def Rules.any {w : World} : Rules w K :=
  ⟨fun _ _ => True, fun _ _ _ => True, fun _ _ => True, fun _ => True, fun _ _ => True,
    fun _ _ _ => trivial⟩

/-- **The moves of the handler.** -/
inductive Move (R : Rules w K) : Handler K → Option (LockRequest K) → Handler K → Prop
  | read {h : Handler K} : Move R h none h.read
  | grant {h : Handler K} {key : K} {ticket : ℕ} {origin : Origin} (hfree : h.Free w key)
      (horigin : origin ≠ .promotion) (hrule : R.grant h key) :
      Move R h none (h.granted w key ticket origin)
  | promote {h : Handler K} {key : K} {lock : LockQueue} {front : ℕ} {queue : List ℕ}
      (hlock : h.locks.lookup key = some lock) (hfree : isFree lock (h.time w) = true)
      (hqueue : lock.queue = front :: queue) : Move R h none (h.promoted w key front queue)
  | enqueue {h : Handler K} {key : K} {lock : LockQueue} {ticket : ℕ}
      (hlock : h.locks.lookup key = some lock) (hheld : isFree lock (h.time w) = false)
      (hrule : R.enqueue h key ticket) :
      Move R h none (h.setLock key { lock with queue := lock.queue ++ [ticket] })
  | renew {h : Handler K} {key : K} {lock : LockQueue} {id : ℕ}
      (hlock : h.locks.lookup key = some lock) (hid : lock.currentTicket = some id) :
      Move R h none ((h.setLock key { lock with exp := h.time w + w.lockValidSeconds }).note
        [.renew key id (h.time w)])
  | release {h : Handler K} {key : K} {lock : LockQueue} {id : ℕ}
      (hlock : h.locks.lookup key = some lock) (hid : lock.currentTicket = some id)
      (hrule : R.release key id) :
      Move R h none ((h.note [.release key id]).setLock key { lock with currentTicket := none })
  | ignore {h : Handler K} {key : K} {id : ℕ}
      (hid : ∀ lock, h.locks.lookup key = some lock → lock.currentTicket ≠ some id)
      (hrule : R.release key id) : Move R h none (h.note [.release key id])
  | remove {h : Handler K} {key : K} {lock : LockQueue} (hlock : h.locks.lookup key = some lock)
      (hid : lock.currentTicket = none) (hqueue : lock.queue = []) :
      Move R h none (h.removed w key)
  | locked {h : Handler K} {req : LockRequest K} {key : K} {lock : LockQueue} {id : ℕ} {ack : Ack}
      (hreq : req.Gets key (.locked id) ack) (hlock : h.locks.lookup key = some lock)
      (hid : lock.currentTicket = some id) (hexp : h.time w ≤ lock.exp)
      (hrule : R.claim (h.time w) lock) :
      Move R h (some req) (h.note [h.answer w key (.locked id) ack])
  | other {h : Handler K} {req : LockRequest K} {key : K} {state : LockState} {ack : Ack}
      (hreq : req.Gets key state ack) (hstate : ∀ id, state ≠ .locked id) :
      Move R h (some req) (h.note [h.answer w key state ack])
  | register {h : Handler K} {key : K} {id : ℕ} {ack : Ack} (hid : id ∈ h.queueOf key) :
      Move R h (some (.await key id ack)) (h.registered key id ack)
  | build {h : Handler K} {ack : Ack} :
      Move R h (some (.snapshotBuild ack)) (h.note [.snapshotBuilt ack h.locks])
  | install {h : Handler K} {data : Table K LockQueue} {ack : Ack} (hrule : R.install data) :
      Move R h (some (.snapshotInstall data ack))
        ((Handler.drain w { h with locks := data }).note [.snapshotInstalled ack])

/-- By moves from `h` to `h'`, the requests `reqs` are answered or kept. -/
def Goes (R : Rules w K) (h : Handler K) (reqs : List (LockRequest K)) (h' : Handler K) : Prop :=
  ∃ ls, Path (Move w R) h ls h' ∧ ls.filterMap id = reqs

variable {w} {R : Rules w K} {h h' h'' : Handler K} {rs rs' : List (LockRequest K)} {key : K}

namespace Goes

theorem refl : Goes w R h [] h := ⟨[], .nil, rfl⟩

theorem trans (h1 : Goes w R h rs h') (h2 : Goes w R h' rs' h'') : Goes w R h (rs ++ rs') h'' := by
  obtain ⟨ls, hp, rfl⟩ := h1
  obtain ⟨ls', hp', rfl⟩ := h2
  exact ⟨ls ++ ls', hp.trans hp', filterMap_append⟩

theorem move (h1 : Goes w R h rs h') (h2 : Move w R h' none h'') : Goes w R h rs h'' := by
  simpa using h1.trans ⟨[none], Path.single h2, rfl⟩

theorem spend {req : LockRequest K} (h1 : Goes w R h [] h') (h2 : Move w R h' (some req) h'') :
    Goes w R h [req] h'' := by
  simpa using h1.trans ⟨[some req], Path.single h2, rfl⟩

end Goes

/-! ## The parts of the handler -/

theorem wake_eq (front : ℕ) : wake w key front h = (.ok (), h.woken w key front) := by
  unfold wake Handler.woken
  rw [get_bind]
  cases h.waiters.lookup key <;> rfl

variable {lock : LockQueue} {queue : List ℕ} {ack : Ack}

theorem promote_free {front : ℕ} (hfree : isFree lock (h.read.time w) = true)
    (hqueue : lock.queue = front :: queue) :
    promote w key lock h = (.ok (), h.read.promoted w key front queue) := by
  have hnow : now w h = (.ok (h.read.time w), h.read) := rfl
  rw [promote, bind_ok hnow]
  simp only [hfree, hqueue, modify_bind]
  exact wake_eq front

theorem promote_stays (hstay : isFree lock (h.read.time w) = false ∨ lock.queue = []) :
    promote w key lock h = (.ok (), h.read) := by
  have hnow : now w h = (.ok (h.read.time w), h.read) := rfl
  rw [promote, bind_ok hnow]
  rcases hstay with hstay | hstay
  · simp only [hstay, pure_apply]
  · cases isFree lock (h.read.time w) <;> simp only [hstay, pure_apply]

theorem promote_cases (lock : LockQueue) (t : ℤ) :
    (∃ front queue, isFree lock t = true ∧ lock.queue = front :: queue) ∨
      isFree lock t = false ∨ lock.queue = [] := by
  cases hfree : isFree lock t with
  | false => exact .inr (.inl rfl)
  | true =>
    cases hqueue : lock.queue with
    | nil => exact .inr (.inr rfl)
    | cons front queue => exact .inl ⟨front, queue, rfl, rfl⟩

theorem promote_goes (hlock : h.locks.lookup key = some lock) :
    ∃ h', promote w key lock h = (.ok (), h') ∧ Goes w R h [] h' := by
  have hread : Goes w R h [] h.read := Goes.refl.move .read
  rcases promote_cases lock (h.read.time w) with ⟨front, queue, hfree, hqueue⟩ | hstay
  · exact ⟨_, promote_free hfree hqueue, hread.move (.promote hlock hfree hqueue)⟩
  · exact ⟨_, promote_stays hstay, hread⟩

variable (w) in
/-- The state in which a request for `key` is decided. -/
def Handler.decided (h : Handler K) (key : K) : Handler K := (promoteKey w key h).2.read

theorem promoteKey_goes (h : Handler K) (key : K) :
    ∃ h', promoteKey w key h = (.ok (), h') ∧ Goes w R h [] h' := by
  rw [promoteKey, get_bind]
  cases hlock : h.locks.lookup key with
  | none => exact ⟨h, rfl, Goes.refl⟩
  | some lock => exact promote_goes hlock

theorem promoteKey_now {α : Type} (h : Handler K) (key : K) (f : ℤ → Exec (Handler K) Panic α) :
    (do promoteKey w key; let now ← now w; f now) h =
      f ((h.decided w key).time w) (h.decided w key) := by
  obtain ⟨h', heq, -⟩ := promoteKey_goes (w := w) (R := .any) h key
  rw [bind_ok heq, Handler.decided, heq]
  rfl

theorem decided_goes (h : Handler K) (key : K) : Goes w R h [] (h.decided w key) := by
  obtain ⟨h', heq, hgo⟩ := promoteKey_goes (w := w) (R := R) h key
  rw [Handler.decided, heq]
  exact hgo.move .read

section Decided

variable {lock : LockQueue}

theorem decided_none (hlock : h.locks.lookup key = none) : h.decided w key = h.read := by
  rw [Handler.decided, promoteKey, get_bind, hlock]
  rfl

theorem decided_free {front : ℕ} {queue : List ℕ} (hlock : h.locks.lookup key = some lock)
    (hfree : isFree lock (w.clock h.reads) = true) (hqueue : lock.queue = front :: queue) :
    h.decided w key = (h.read.promoted w key front queue).read := by
  rw [Handler.decided, promoteKey, get_bind, hlock]
  dsimp only
  rw [promote_free hfree hqueue]

theorem decided_stays (hlock : h.locks.lookup key = some lock)
    (hstay : isFree lock (w.clock h.reads) = false ∨ lock.queue = []) :
    h.decided w key = h.read.read := by
  rw [Handler.decided, promoteKey, get_bind, hlock]
  dsimp only
  rw [promote_stays hstay]

end Decided

theorem send_snd (state : LockState) (ack : Ack) :
    (send w key state ack h).2 = h.note [h.answer w key state ack] := by
  rw [send, modify_bind]
  split_ifs <;> rfl

theorem grant_eq {ticket : ℕ} {origin : Origin} (hqueue : h.queueOf key = queue) :
    grant w key ticket (h.time w) origin queue h = (.ok (), h.granted w key ticket origin) := by
  subst hqueue
  rfl

theorem grant_send_goes {req : LockRequest K} {ticket : ℕ} {origin : Origin}
    (hreq : req.Gets key (.locked ticket) ack) (hgo : Goes w R h [] h') (hfree : h'.Free w key)
    (horigin : origin ≠ .promotion) (hrule : R.grant h' key) (hqueue : h'.queueOf key = queue) :
    Goes w R h [req] ((do
      grant w key ticket (h'.time w) origin queue
      send w key (.locked ticket) ack) h').2 := by
  rw [bind_ok (grant_eq hqueue), send_snd]
  refine (hgo.move (.grant hfree horigin hrule)).spend (.locked hreq (AList.lookup_insert _) rfl ?_
    (R.fresh _ _ rfl))
  simp only [Handler.granted, Handler.note_time, Handler.setLock_time]
  have := w.lockValidSeconds_nonneg
  omega

theorem free_of_lookup_none (hlock : h.locks.lookup key = none) : h.Free w key := by
  intro lock hlock'
  rw [hlock] at hlock'
  cases hlock'

theorem free_of_isFree (hlock : h.locks.lookup key = some lock)
    (hfree : isFree lock (h.time w) = true) : h.Free w key := by
  intro lock' hlock'
  rw [hlock] at hlock'
  cases hlock'
  exact hfree

theorem not_free (hlock : h.locks.lookup key = some lock) (hheld : isFree lock (h.time w) = false) :
    ¬ h.Free w key := by
  intro hfree
  rw [hfree lock hlock] at hheld
  cases hheld

theorem isNone_or_isFree (lock : LockQueue) (t : ℤ) :
    (lock.currentTicket.isNone || isFree lock t) = isFree lock t := by
  simp [isFree]

theorem queueOf_eq (hlock : h.locks.lookup key = some lock) : h.queueOf key = lock.queue := by
  simp [Handler.queueOf, hlock]

theorem queueOf_eq_nil (hlock : h.locks.lookup key = none) : h.queueOf key = [] := by
  simp [Handler.queueOf, hlock]

/-! ## The requests -/

variable (w R) in
/-- The requests that keep to the rules in the state `h`. -/
def LockRequest.Meets (h : Handler K) : LockRequest K → Prop
  | .lock key logId _ => ((h.decided w key).Free w key → R.grant (h.decided w key) key) ∧
      (¬ (h.decided w key).Free w key → R.enqueue (h.decided w key) key logId)
  | .acquire key logId _ => ((h.decided w key).Free w key → R.grant (h.decided w key) key) ∧
      (∀ lock, (h.decided w key).locks.lookup key = some lock → lock.currentTicket ≠ some logId →
        logId ∉ lock.queue → R.enqueue (h.decided w key) key logId) ∧
      ∀ lock, (h.decided w key).locks.lookup key = some lock → lock.currentTicket = some logId →
        (h.decided w key).time w ≤ lock.exp → R.claim ((h.decided w key).time w) lock
  | .await key id _ => ∀ lock, (h.decided w key).locks.lookup key = some lock →
      lock.currentTicket = some id → (h.decided w key).time w ≤ lock.exp →
        R.claim ((h.decided w key).time w) lock
  | .release key id => R.release key id
  | .snapshotInstall data _ => R.install data
  | _ => True

theorem handleLock_goes {logId : ℕ} (hmeets : LockRequest.Meets w R h (.lock key logId ack)) :
    Goes w R h [.lock key logId ack] (handleLock w key logId ack h).2 := by
  rw [handleLock, promoteKey_now, get_bind]
  have hgo := decided_goes (w := w) (R := R) h key
  obtain ⟨hgrant, henqueue⟩ := hmeets
  generalize h.decided w key = d at *
  cases hlock : d.locks.lookup key with
  | none =>
    have hfree := free_of_lookup_none (w := w) hlock
    exact grant_send_goes .lockLocked hgo hfree (by decide) (hgrant hfree) (queueOf_eq_nil hlock)
  | some lock =>
    simp only [isNone_or_isFree]
    split_ifs with hfree
    · have hfree := free_of_isFree hlock hfree
      exact grant_send_goes .lockLocked hgo hfree (by decide) (hgrant hfree) (queueOf_eq hlock)
    · rw [Bool.not_eq_true] at hfree
      rw [modify_bind, send_snd]
      exact (hgo.move (.enqueue hlock hfree (henqueue (not_free hlock hfree)))).spend
        (.other .lockQueued (by simp))

theorem handleAcquire_goes {logId : ℕ} (hmeets : LockRequest.Meets w R h (.acquire key logId ack)) :
    Goes w R h [.acquire key logId ack] (handleAcquire w key logId ack h).2 := by
  rw [handleAcquire, promoteKey_now, get_bind]
  have hgo := decided_goes (w := w) (R := R) h key
  obtain ⟨hgrant, henqueue, hclaims⟩ := hmeets
  generalize h.decided w key = d at *
  cases hlock : d.locks.lookup key with
  | none =>
    have hfree := free_of_lookup_none (w := w) hlock
    exact grant_send_goes .acquireLocked hgo hfree (by decide) (hgrant hfree) (queueOf_eq_nil hlock)
  | some lock =>
    simp only [isNone_or_isFree]
    split_ifs with hclaim hfree hqueued
    · rw [send_snd]
      exact hgo.spend (.locked .acquireLocked hlock hclaim.1 hclaim.2
        (hclaims lock hlock hclaim.1 hclaim.2))
    · have hfree := free_of_isFree hlock hfree
      exact grant_send_goes .acquireLocked hgo hfree (by decide) (hgrant hfree) (queueOf_eq hlock)
    · rw [send_snd]
      exact hgo.spend (.other .acquireQueued (by simp))
    · rw [Bool.not_eq_true] at hfree
      -- a holder that is not to be replaced has a lease that is not over
      have hexp : d.time w ≤ lock.exp := by
        simp only [isFree, Bool.or_eq_false_iff, decide_eq_false_iff_not, not_lt] at hfree
        exact hfree.2
      have hcur : lock.currentTicket ≠ some logId := fun hcur => hclaim ⟨hcur, hexp⟩
      rw [modify_bind, send_snd]
      exact (hgo.move (.enqueue hlock hfree (henqueue lock hlock hcur hqueued))).spend
        (.other .acquireQueued (by simp))

theorem handleAlive_goes (id : ℕ) (ack : Ack) :
    Goes w R h [.alive key id ack] (handleAlive w key id ack h).2 := by
  rw [handleAlive, get_bind]
  cases hlock : h.locks.lookup key with
  | none =>
    dsimp only
    rw [send_snd]
    exact Goes.refl.spend (.other .aliveReleased (by simp))
  | some lock =>
    dsimp only
    split_ifs with hid
    · have hnow : now w h = (.ok (h.read.time w), h.read) := rfl
      rw [bind_ok hnow, modify_bind, modify_bind, send_snd]
      refine ((Goes.refl.move .read).move (.renew hlock hid)).spend
        (.locked .aliveLocked (AList.lookup_insert _) hid ?_ (R.fresh _ _ rfl))
      have := w.lockValidSeconds_nonneg
      simp only [Handler.note_time, Handler.setLock_time]
      omega
    · rw [send_snd]
      exact Goes.refl.spend (.other .aliveReleased (by simp))

theorem handleAwait_goes {id : ℕ} (hmeets : LockRequest.Meets w R h (.await key id ack)) :
    Goes w R h [.await key id ack] (handleAwait w key id ack h).2 := by
  rw [handleAwait, promoteKey_now, get_bind]
  have hgo := decided_goes (w := w) (R := R) h key
  have hclaims : ∀ lock, (h.decided w key).locks.lookup key = some lock →
    lock.currentTicket = some id → (h.decided w key).time w ≤ lock.exp →
      R.claim ((h.decided w key).time w) lock := hmeets
  clear hmeets
  generalize h.decided w key = d at *
  cases hlock : d.locks.lookup key with
  | none =>
    dsimp only
    rw [send_snd]
    exact hgo.spend (.other .awaitReleased (by simp))
  | some lock =>
    dsimp only
    split_ifs with hclaim hfree hqueued
    · rw [send_snd]
      exact hgo.spend (.locked .awaitLocked hlock hclaim.1 hclaim.2
        (hclaims lock hlock hclaim.1 hclaim.2))
    · rw [send_snd]
      exact hgo.spend (.other .awaitReleased (by simp))
    · exact hgo.spend (.register (queueOf_eq hlock ▸ hqueued))
    · rw [send_snd]
      exact hgo.spend (.other .awaitReleased (by simp))

theorem handleRelease_goes {id : ℕ} (hmeets : LockRequest.Meets w R h (.release key id)) :
    Goes w R h [] (handleRelease w key id h).2 := by
  rw [handleRelease, modify_bind, get_bind, Handler.note_locks]
  cases hlock : h.locks.lookup key with
  | none =>
    refine Goes.refl.move (.ignore (fun lock hlock' => ?_) hmeets)
    rw [hlock] at hlock'
    cases hlock'
  | some lock =>
    dsimp only
    split_ifs with hid
    · rw [modify_bind]
      obtain ⟨h', hpromote, hgo⟩ := promote_goes (w := w) (R := R)
        (h := (h.note [.release key id]).setLock key { lock with currentTicket := none })
        (AList.lookup_insert _)
      have hgo := (Goes.refl.move (.release hlock hid hmeets)).trans hgo
      rw [bind_ok hpromote, get_bind]
      cases hlock' : h'.locks.lookup key with
      | none => exact hgo
      | some lock' =>
        simp only [Option.any_some]
        split_ifs with hempty
        · simp only [Bool.and_eq_true, Option.isNone_iff_eq_none, List.isEmpty_iff] at hempty
          exact hgo.move (.remove hlock' hempty.1 hempty.2)
        · exact hgo
    · refine Goes.refl.move (.ignore (fun lock' hlock' => ?_) hmeets)
      rw [hlock] at hlock'
      cases hlock'
      exact hid

theorem promoteKeys_goes (h : Handler K) (keys : List K) :
    Goes w R h [] (promoteKeys w keys h).2 := by
  induction keys generalizing h with
  | nil => exact Goes.refl
  | cons key keys ih =>
    obtain ⟨h', heq, hgo⟩ := promoteKey_goes (w := w) (R := R) h key
    rw [promoteKeys, bind_ok heq]
    exact hgo.trans (ih h')

/-! ## Turns and runs -/

variable (w R) in
/-- The turns that keep to the rules in the state `h`. -/
def Turn.Meets (h : Handler K) : Turn K → Prop
  | .request req => req.Meets w R h
  | .tick _ => True

def Turn.calls (t : Turn K) : List (LockRequest K) :=
  t.req?.toList.filter fun req => req.ack?.isSome

/-- **A turn is made of moves**, also one that ends in a panic. -/
theorem turn_goes {t : Turn K} (hmeets : t.Meets w R h) : Goes w R h t.calls (turn w t h).2 := by
  cases t with
  | tick order => exact (Goes.refl.move .read).trans (promoteKeys_goes _ _)
  | request req =>
    cases req with
    | lock key logId ack => exact handleLock_goes hmeets
    | acquire key logId ack => exact handleAcquire_goes hmeets
    | release key id => exact handleRelease_goes hmeets
    | alive key id ack => exact handleAlive_goes id ack
    | await key id ack => exact handleAwait_goes hmeets
    | snapshotBuild ack =>
      have hgo : Goes w R h [.snapshotBuild ack] (h.note [.snapshotBuilt ack h.locks]) :=
        Goes.refl.spend .build
      change Goes w R h [.snapshotBuild ack] (handleRequest w (.snapshotBuild ack) h).2
      rw [handleRequest, modify_bind]
      split_ifs <;> exact hgo
    | snapshotInstall data ack =>
      have hgo : Goes w R h [.snapshotInstall data ack]
          ((Handler.drain w { h with locks := data }).note [.snapshotInstalled ack]) :=
        Goes.refl.spend (.install hmeets)
      change Goes w R h [.snapshotInstall data ack]
        (handleRequest w (.snapshotInstall data ack) h).2
      rw [handleRequest, modify_bind, modify_bind, modify_bind]
      split_ifs <;> exact hgo

variable (w R) in
def Meets : Handler K → List (Turn K) → Prop
  | _, [] => True
  | h, t :: ts => t.Meets w R h ∧ Meets (turn w t h).2 ts

theorem meets_of_install {ts : List (Turn K)} (hgrant : ∀ h key, R.grant h key)
    (henqueue : ∀ h key id, R.enqueue h key id) (hrelease : ∀ key id, R.release key id)
    (hclaim : ∀ t lock, R.claim t lock)
    (hinstall : ∀ data ack, .request (.snapshotInstall data ack) ∈ ts → R.install data)
    (h : Handler K) : Meets w R h ts := by
  induction ts generalizing h with
  | nil => trivial
  | cons t ts ih =>
    refine ⟨?_, ih (fun data ack hmem => hinstall data ack (mem_cons_of_mem _ hmem)) _⟩
    cases t with
    | tick => trivial
    | request req =>
      cases req with
      | lock => exact ⟨fun _ => hgrant _ _, fun _ => henqueue _ _ _⟩
      | acquire =>
        exact ⟨fun _ => hgrant _ _, fun _ _ _ _ => henqueue _ _ _, fun _ _ _ _ => hclaim _ _⟩
      | release => exact hrelease _ _
      | await => exact fun _ _ _ _ => hclaim _ _
      | snapshotInstall data ack => exact hinstall data ack mem_cons_self
      | _ => trivial

theorem meets_any (h : Handler K) (ts : List (Turn K)) : Meets w .any h ts :=
  meets_of_install (fun _ _ => trivial) (fun _ _ _ => trivial) (fun _ _ => trivial)
    (fun _ _ => trivial) (fun _ _ _ => trivial) h

/-- **A run is made of moves**, up to its end or to the turn that panics. -/
theorem handler_goes {ts : List (Turn K)} (hmeets : Meets w R h ts) :
    ∃ us, us <+: ts ∧ Goes w R h (us.flatMap Turn.calls) (handler w ts h).2 ∧
      ((handler w ts h).1 = .ok () → us = ts) := by
  induction ts generalizing h with
  | nil => exact ⟨[], nil_prefix, Goes.refl, fun _ => rfl⟩
  | cons t ts ih =>
    have hgo := turn_goes hmeets.1
    rcases ht : turn w t h with ⟨r, h'⟩
    rw [ht] at hgo
    cases r with
    | ok u =>
      rw [handler, bind_ok ht]
      have hrest := hmeets.2
      rw [ht] at hrest
      obtain ⟨us, hus, hgo', hall⟩ := ih hrest
      exact ⟨t :: us, (cons_prefix_cons).mpr ⟨rfl, hus⟩, hgo.trans hgo',
        fun hok => congrArg (t :: ·) (hall hok)⟩
    | error e =>
      rw [handler, bind_error ht]
      exact ⟨[t], by simp, by simpa using hgo, fun hok => nomatch hok⟩

/-! ## What the moves log -/

variable (w) in
theorem woken_log (front : ℕ) : (h.woken w key front).log =
    h.log ++ (h.waiting key front).map fun e => h.answer w key (.locked front) e.2 := by
  unfold Handler.woken Handler.waiting
  cases h.waiters.lookup key with
  | none => simp
  | some list => rfl

variable (w) in
theorem promoted_log (front : ℕ) (queue : List ℕ) : (h.promoted w key front queue).log =
    h.log ++ .grant key front (h.time w) .promotion (front :: queue) ::
      (h.waiting key front).map fun e => .sent e.2 key (.locked front) (h.time w)
        (some ⟨some front, h.time w + w.lockValidSeconds, queue⟩) := by
  rw [Handler.promoted, woken_log]
  simp [Handler.answer, Handler.waiting]

variable (w) in
theorem removed_log : (h.removed w key).log =
    h.log ++ ((h.waiters.lookup key).getD []).map fun e => h.answer w key .released e.2 := rfl

def Event.Meets (R : Rules w K) : Event K → Prop
  | .release key id => R.release key id
  | .sent _ _ (.locked _) now lock => ∃ l, lock = some l ∧ R.claim now l
  | _ => True

theorem Move.logs {l : Option (LockRequest K)} (hm : Move w R h l h') :
    ∃ es, h'.log = h.log ++ es ∧ ∀ e ∈ es, e.Meets R := by
  have hone : ∀ {x : Event K}, x.Meets R → ∀ e ∈ [x], e.Meets R := fun hx e he =>
    mem_singleton.mp he ▸ hx
  cases hm with
  | read | enqueue | register => exact ⟨[], (append_nil _).symm, fun _ he => nomatch he⟩
  | grant | renew | build => exact ⟨_, rfl, hone trivial⟩
  | release _ _ hrule => exact ⟨_, rfl, hone hrule⟩
  | ignore _ hrule => exact ⟨_, rfl, hone hrule⟩
  | locked _ hlock _ _ hrule => exact ⟨_, rfl, hone ⟨_, hlock, hrule⟩⟩
  | @other req key state ack _ hstate =>
    refine ⟨_, rfl, hone ?_⟩
    cases state with
    | locked id => exact absurd rfl (hstate id)
    | queued | released => trivial
  | @promote key lock front queue =>
    refine ⟨_, promoted_log w front queue, fun e he => ?_⟩
    rcases mem_cons.mp he with rfl | he
    · trivial
    · obtain ⟨x, -, rfl⟩ := mem_map.mp he
      exact ⟨_, rfl, R.fresh _ _ rfl⟩
  | remove =>
    refine ⟨_, removed_log w, fun e he => ?_⟩
    obtain ⟨x, -, rfl⟩ := mem_map.mp he
    trivial
  | install =>
    refine ⟨_, append_assoc .., fun e he => ?_⟩
    rcases mem_append.mp he with he | he
    · obtain ⟨x, -, he⟩ := mem_flatMap.mp he
      obtain ⟨y, -, rfl⟩ := mem_map.mp he
      trivial
    · rw [mem_singleton.mp he]
      trivial

theorem Goes.logs (hgo : Goes w R h rs h') : ∃ es, h'.log = h.log ++ es ∧ ∀ e ∈ es, e.Meets R := by
  obtain ⟨ls, hpath, -⟩ := hgo
  refine hpath.invariant (I := fun _ h' => ∃ es, h'.log = h.log ++ es ∧ ∀ e ∈ es, e.Meets R)
    ⟨[], (append_nil _).symm, fun _ he => nomatch he⟩ fun _ _ _ _ ih hm => ?_
  obtain ⟨es, hes, hmeets⟩ := ih
  obtain ⟨es', hes', hmeets'⟩ := hm.logs
  refine ⟨es ++ es', by rw [hes', hes, append_assoc], fun e he => ?_⟩
  exact (mem_append.mp he).elim (hmeets e) (hmeets' e)

theorem Move.reads_le {l : Option (LockRequest K)} (hm : Move w R h l h') : h.reads ≤ h'.reads := by
  cases hm with
  | read => exact Nat.le_succ _
  | promote => rw [Handler.promoted_reads]
  | _ => exact le_refl _

theorem Goes.reads_le (hgo : Goes w R h rs h') : h.reads ≤ h'.reads := by
  obtain ⟨ls, hpath, -⟩ := hgo
  exact hpath.invariant (I := fun _ h' => h.reads ≤ h'.reads) (le_refl _)
    fun _ _ _ _ ih hm => ih.trans hm.reads_le

end Hiqlite.Dlock
