import Hiqlite.Dlock.Waiters

/-!
# D6 — when the lock handler panics

The first answer to an await is unwrapped: a client that is cancelled between the send of its await and
the handling of it takes the handler down, and with it every later `apply` of a lock entry.

* **`handler_survives`**; `cancelled_await_kills`.
-/

namespace Hiqlite.Dlock

open Exec


variable {K : Type} [DecidableEq K] {w : World} {h h' : Handler K} {key : K} {id : ℕ} {ack : Ack}

inductive LockEntry (K : Type)
  | lock (key : K) (id : Option ℕ)
  | lockRelease (key : K) (id : ℕ)
  | lockAlive (key : K) (id : ℕ)
  deriving DecidableEq

/-- The request that `apply` sends for the entry at `index`. -/
def LockEntry.request (index : ℕ) (ack : Ack) : LockEntry K → LockRequest K
  | .lock key (some logId) => .acquire key logId ack
  | .lock key none => .lock key index ack
  | .lockRelease key id => .release key id
  | .lockAlive key id => .alive key id ack

def reply (log : List (Event K)) (ack : Ack) : Option LockState :=
  log.findSome? fun
    | .sent ack' _ state _ _ => if ack' = ack then some state else none
    | _ => none

variable (w) in
/-- The response of `apply` to a lock entry, after the turns `ts`. There is none where `apply`
panics. -/
def applyLock (ts : List (Turn K)) (index : ℕ) (ack : Ack) (entry : LockEntry K) : Option LockState :=
  match handler w (ts ++ [.request (entry.request index ack)]) .spawn, entry with
  | (.error _, _), _ => none
  | (.ok _, _), .lockRelease _ _ => some .released
  | (.ok _, h), _ => reply h.log ack

/-! ## Requests that do not panic -/

theorem send_ok (state : LockState) (hack : w.gone ack = false) :
    send w key state ack h = (.ok (), h.note [h.answer w key state ack]) := by
  rw [send, modify_bind, hack]
  rfl

theorem send_gone (state : LockState) (hack : w.gone ack = true) :
    (send w key state ack h).1 = .error (.receiverGone ack) := by
  rw [send, modify_bind, hack]
  rfl

section

variable (hack : w.gone ack = false)
include hack

theorem grant_send_ok {ticket : ℕ} {now : ℤ} {origin : Origin} {queue : List ℕ} : ((do
      grant w key ticket now origin queue
      send w key (.locked ticket) ack) h).1 = .ok () := by
  rw [grant, bind_assoc', modify_bind, modify_bind, send_ok _ hack]

theorem handleLock_ok {logId : ℕ} : (handleLock w key logId ack h).1 = .ok () := by
  rw [handleLock, promoteKey_now, get_bind]
  cases (h.decided w key).locks.lookup key with
  | none => exact grant_send_ok hack
  | some lock =>
    dsimp only
    split_ifs
    · exact grant_send_ok hack
    · rw [modify_bind, send_ok _ hack]

theorem handleAcquire_ok {logId : ℕ} : (handleAcquire w key logId ack h).1 = .ok () := by
  rw [handleAcquire, promoteKey_now, get_bind]
  cases (h.decided w key).locks.lookup key with
  | none => exact grant_send_ok hack
  | some lock =>
    dsimp only
    split_ifs
    · rw [send_ok _ hack]
    · exact grant_send_ok hack
    · rw [send_ok _ hack]
    · rw [modify_bind, send_ok _ hack]

theorem handleAlive_ok : (handleAlive w key id ack h).1 = .ok () := by
  rw [handleAlive, get_bind]
  cases h.locks.lookup key with
  | none => exact congrArg Prod.fst (send_ok _ hack)
  | some lock =>
    dsimp only
    split_ifs
    · have hnow : now w h = (.ok (h.read.time w), h.read) := rfl
      rw [bind_ok hnow, modify_bind, modify_bind, send_ok _ hack]
    · rw [send_ok _ hack]

end

theorem handleRelease_ok : (handleRelease w key id h).1 = .ok () := by
  rw [handleRelease, modify_bind, get_bind, Handler.note_locks]
  cases hlock : h.locks.lookup key with
  | none => rfl
  | some lock =>
    dsimp only
    split_ifs with hid
    · rw [modify_bind]
      obtain ⟨h', hpromote, -⟩ := promote_goes (w := w) (R := .any)
        (h := (h.note [.release key id]).setLock key { lock with currentTicket := none })
        (AList.lookup_insert _)
      rw [bind_ok hpromote, get_bind]
      split_ifs <;> rfl
    · rfl

theorem promoteKeys_ok (keys : List K) : (promoteKeys w keys h).1 = .ok () := by
  induction keys generalizing h with
  | nil => rfl
  | cons key keys ih =>
    obtain ⟨h', heq, -⟩ := promoteKey_goes (w := w) (R := .any) h key
    rw [promoteKeys, bind_ok heq, ih]

/-! ## Awaits -/

variable (w) in
/-- The next await with the ticket `id` is kept, and not answered at once. -/
def Waits (h : Handler K) (key : K) (id : ℕ) : Prop :=
  ∃ lock, h.locks.lookup key = some lock ∧
    (isFree lock (w.clock h.reads) = false ∧ w.clock (h.reads + 1) ≤ lock.exp ∧
        lock.currentTicket ≠ some id ∧ id ∈ lock.queue ∨
      ∃ front queue, isFree lock (w.clock h.reads) = true ∧ lock.queue = front :: queue ∧
        w.clock (h.reads + 1) ≤ w.clock h.reads + w.lockValidSeconds ∧ front ≠ id ∧ id ∈ queue)

theorem waits_iff : Waits w h key id ↔ ∃ lock, (h.decided w key).locks.lookup key = some lock ∧
    isFree lock ((h.decided w key).time w) = false ∧ lock.currentTicket ≠ some id ∧
      id ∈ lock.queue := by
  cases hlock : h.locks.lookup key with
  | none =>
    rw [decided_none hlock]
    simp [Waits, hlock]
  | some lock =>
    rcases promote_cases lock (w.clock h.reads) with ⟨front, queue, hfree, hqueue⟩ | hstay
    · rw [decided_free hlock hfree hqueue]
      simp only [Waits, hlock, Option.some.injEq, exists_eq_left', hfree, hqueue]
      simp [isFree]
    · rw [decided_stays hlock hstay]
      have htime : h.read.read.time w = w.clock (h.reads + 1) := rfl
      simp only [Waits, hlock, Option.some.injEq, exists_eq_left', Handler.read_locks, htime]
      constructor
      · rintro (⟨hheld, hle, hcur, hmem⟩ | ⟨front, queue, hfree, hqueue, -⟩)
        · refine ⟨?_, hcur, hmem⟩
          simp only [isFree, Bool.or_eq_false_iff, decide_eq_false_iff_not, not_lt] at hheld ⊢
          exact ⟨hheld.1, hle⟩
        · rcases hstay with hstay | hstay
          · rw [hfree] at hstay
            cases hstay
          · rw [hqueue] at hstay
            cases hstay
      · rintro ⟨hheld, hcur, hmem⟩
        have hne : lock.queue ≠ [] := List.ne_nil_of_mem hmem
        simp only [isFree, Bool.or_eq_false_iff, decide_eq_false_iff_not, not_lt] at hheld
        exact .inl ⟨hstay.resolve_right hne, hheld.2, hcur, hmem⟩

/-- **An await panics** iff its client is gone and it is answered at once. -/
theorem handleAwait_ok_iff :
    (handleAwait w key id ack h).1 = .ok () ↔ (w.gone ack = true → Waits w h key id) := by
  have hsend : ∀ (state : LockState) (d : Handler K),
      (send w key state ack d).1 = .ok () ↔ w.gone ack = false := by
    intro state d
    cases hgone : w.gone ack with
    | false => simp [send_ok state hgone]
    | true => simp [send_gone state hgone]
  rw [waits_iff, handleAwait, promoteKey_now, get_bind]
  generalize h.decided w key = d
  cases hlock : d.locks.lookup key with
  | none => simp [hsend]
  | some lock =>
    simp only [Option.some.injEq, exists_eq_left']
    split_ifs with hclaim hfree hqueued
    · simp [hsend, hclaim.1]
    · simp [hsend, hfree]
    · rw [Bool.not_eq_true] at hfree
      have hexp : d.time w ≤ lock.exp := by
        simp only [isFree, Bool.or_eq_false_iff, decide_eq_false_iff_not, not_lt] at hfree
        exact hfree.2
      exact iff_of_true rfl fun _ => ⟨hfree, fun hcur => hclaim ⟨hcur, hexp⟩, hqueued⟩
    · simp [hsend, hqueued]

/-! ## Runs -/

def LockRequest.Answerable : LockRequest K → Prop
  | .await _ _ _ => False
  | _ => True

variable {t : Turn K}

section

variable (hopen : ∀ req, t = .request req → req.Answerable → ∀ a ∈ req.ack?, w.gone a = false)
include hopen

theorem turn_ok (hawait : ∀ key id ack, t = .request (.await key id ack) → w.gone ack = true →
      Waits w h key id) : (turn w t h).1 = .ok () := by
  cases t with
  | tick order => exact promoteKeys_ok _
  | request req =>
    cases req with
    | lock key logId ack => exact handleLock_ok (hopen _ rfl trivial ack rfl)
    | acquire key logId ack => exact handleAcquire_ok (hopen _ rfl trivial ack rfl)
    | release key id => exact handleRelease_ok
    | alive key id ack => exact handleAlive_ok (hopen _ rfl trivial ack rfl)
    | await key id ack => exact handleAwait_ok_iff.mpr (hawait key id ack rfl)
    | snapshotBuild ack =>
      change (handleRequest w (.snapshotBuild ack) h).1 = .ok ()
      rw [handleRequest, modify_bind, hopen _ rfl trivial ack rfl]
      rfl
    | snapshotInstall data ack =>
      change (handleRequest w (.snapshotInstall data ack) h).1 = .ok ()
      rw [handleRequest, modify_bind, modify_bind, modify_bind,
        hopen _ rfl trivial ack rfl]
      rfl

theorem turn_ok_iff : (turn w t h).1 = .ok () ↔ ∀ key id ack, t = .request (.await key id ack) →
      w.gone ack = true → Waits w h key id := by
  refine ⟨fun hok key id ack ht => ?_, turn_ok hopen⟩
  subst ht
  exact handleAwait_ok_iff.mp hok

end

theorem handler_append (us vs : List (Turn K)) :
    handler w (us ++ vs) = (do handler w us; handler w vs) := by
  induction us with
  | nil => rfl
  | cons t us ih => rw [List.cons_append, handler, handler, bind_assoc', ih]

theorem handler_snoc_ok {us : List (Turn K)} : (handler w (us ++ [t]) h).1 = .ok () ↔
      (handler w us h).1 = .ok () ∧ (turn w t (handler w us h).2).1 = .ok () := by
  rw [handler_append]
  rcases hus : handler w us h with ⟨r, h'⟩
  cases r with
  | error e => simp [bind_error hus]
  | ok u =>
    have hone : handler w [t] h' = turn w t h' := by
      rw [handler]
      rcases ht : turn w t h' with ⟨r, h''⟩
      cases r with
      | ok u => rw [bind_ok ht]; rfl
      | error e => rw [bind_error ht]
    simp [bind_ok hus, hone]

def Sent (log : List (Event K)) (ack : Ack) : Prop :=
  ∃ key state now lock, .sent ack key state now lock ∈ log

theorem Goes.sent {R : Rules w K} {rs : List (LockRequest K)} (hgo : Goes w R h rs h')
    {req : LockRequest K} (hreq : req ∈ rs) (hans : req.Answerable) {state : LockState}
    (hgets : req.Gets key state ack) : Sent h'.log ack := by
  obtain ⟨ls, hpath, rfl⟩ := hgo
  refine hpath.invariant (I := fun ls h => ∀ req ∈ ls.filterMap id, req.Answerable →
    ∀ key state ack, req.Gets key state ack → Sent h.log ack) (fun _ hreq => nomatch hreq) ?_
    req hreq hans key state ack hgets
  intro ls t l u ih hm req hreq hans key state ack hgets
  rw [List.filterMap_append, List.mem_append] at hreq
  rcases hreq with hreq | hreq
  · obtain ⟨key', state', now, lock, he⟩ := ih req hreq hans key state ack hgets
    obtain ⟨es, hes, -⟩ := hm.logs
    exact ⟨key', state', now, lock, hes ▸ List.mem_append_left es he⟩
  · obtain ⟨l', hl', hid⟩ := List.mem_filterMap.mp hreq
    obtain rfl : l' = l := List.mem_singleton.mp hl'
    subst hid
    cases hm with
    | locked hreq' =>
      obtain rfl : _ = ack := Option.some.inj (hreq'.ack?_eq.symm.trans hgets.ack?_eq)
      exact ⟨_, _, _, _, List.mem_append_right _ (List.mem_singleton.mpr rfl)⟩
    | other hreq' =>
      obtain rfl : _ = ack := Option.some.inj (hreq'.ack?_eq.symm.trans hgets.ack?_eq)
      exact ⟨_, _, _, _, List.mem_append_right _ (List.mem_singleton.mpr rfl)⟩
    | register => exact hans.elim
    | build | install => cases hgets

omit [DecidableEq K] in
theorem reply_isSome {log : List (Event K)} (hsent : Sent log ack) : (reply log ack).isSome := by
  obtain ⟨key, state, now, lock, he⟩ := hsent
  rw [reply, List.findSome?_isSome_iff]
  exact ⟨_, he, by simp⟩

theorem reply_gets {ts : List (Turn K)} (hacks : (acks ts).Nodup) {req : LockRequest K}
    (hreq : .request req ∈ ts) (hack : req.ack? = some ack) {state : LockState}
    (hreply : reply (handler w ts .spawn).2.log ack = some state) : ∃ key, req.Gets key state ack := by
  obtain ⟨e, he, hstate⟩ := List.exists_of_findSome?_eq_some hreply
  obtain ⟨us, hus, hw, -⟩ := waiting w ts
  cases e with
  | sent ack' key' state' now lock =>
    obtain ⟨rfl, rfl⟩ : ack' = ack ∧ state' = state := by simpa using hstate
    obtain ⟨req', hreq', hgets, -⟩ := hw.sent _ _ _ _ _ he
    have hsame := request_unique hacks hreq
      (hus.sublist.subset (request_of_mem_calls hreq')) hack hgets.ack?_eq
    exact ⟨key', hsame ▸ hgets⟩
  | _ => simp at hstate

omit [DecidableEq K] in
theorem LockEntry.request_open (entry : LockEntry K) (index : ℕ) (hack : w.gone ack = false) :
    (entry.request index ack).Answerable ∧
      ∀ a ∈ (entry.request index ack).ack?, w.gone a = false := by
  cases entry with
  | lock key id => cases id <;> exact ⟨trivial, fun a ha => Option.some.inj ha ▸ hack⟩
  | lockRelease => exact ⟨trivial, fun a ha => (nomatch ha)⟩
  | lockAlive => exact ⟨trivial, fun a ha => Option.some.inj ha ▸ hack⟩

theorem applyLock_isSome {ts : List (Turn K)} (hts : (handler w ts .spawn).1 = .ok ())
    (index : ℕ) (entry : LockEntry K) (hack : w.gone ack = false) :
    (applyLock w ts index ack entry).isSome := by
  obtain ⟨hans, hopen⟩ := entry.request_open (w := w) index hack
  have hlast : (turn w (.request (entry.request index ack)) (handler w ts .spawn).2).1 = .ok () := by
    refine turn_ok (fun req heq _ => ?_) fun key id a heq => ?_
    · cases heq
      exact hopen
    · rw [Turn.request.inj heq] at hans
      exact hans.elim
  have hok := handler_snoc_ok.mpr ⟨hts, hlast⟩
  obtain ⟨us, -, hgo, hall⟩ := handler_goes (meets_any (w := w) .spawn
    (ts ++ [.request (entry.request index ack)]))
  rw [hall hok] at hgo
  have hmem : (entry.request index ack).ack?.isSome →
      entry.request index ack ∈
        (ts ++ [Turn.request (entry.request index ack)]).flatMap Turn.calls := by
    intro hsome
    refine List.mem_flatMap.mpr ⟨_, List.mem_append_right _ (List.mem_singleton.mpr rfl), ?_⟩
    simp [Turn.calls, Turn.req?, hsome]
  unfold applyLock
  rcases hrun : handler w (ts ++ [.request (entry.request index ack)]) .spawn with ⟨r, h⟩
  rw [hrun] at hok hgo ⊢
  cases hok
  cases entry with
  | lockRelease => rfl
  | lock key id =>
    cases id with
    | none => exact reply_isSome (hgo.sent (hmem rfl) hans .lockLocked)
    | some id => exact reply_isSome (hgo.sent (hmem rfl) hans .acquireLocked)
  | lockAlive key id => exact reply_isSome (hgo.sent (hmem rfl) hans .aliveLocked)

/-- **When the handler survives its clients.** The receivers of all requests but the awaits are there.
Then the handler does not panic iff every await whose client is gone when it is handled is kept, and
as long as it does not panic, `apply` gets its answers. -/
theorem handler_survives (w : World) (ts : List (Turn K))
    (hopen : ∀ req, .request req ∈ ts → req.Answerable → ∀ ack ∈ req.ack?, w.gone ack = false) :
    ((handler w ts .spawn).1 = .ok () ↔ ∀ us key id ack vs,
      ts = us ++ .request (.await key id ack) :: vs → w.gone ack = true →
        Waits w (handler w us .spawn).2 key id) ∧
    ((handler w ts .spawn).1 = .ok () → ∀ index ack entry, w.gone ack = false →
      (applyLock w ts index ack entry).isSome) := by
  refine ⟨?_, fun hok index ack entry hack => applyLock_isSome hok index entry hack⟩
  induction ts using List.reverseRecOn with
  | nil => simp [handler]
  | append_singleton ts t ih =>
    have hts : ∀ req, .request req ∈ ts → req.Answerable → ∀ ack ∈ req.ack?, w.gone ack = false :=
      fun req hreq => hopen req (List.mem_append_left _ hreq)
    have ht : ∀ req, t = .request req → req.Answerable → ∀ ack ∈ req.ack?, w.gone ack = false :=
      fun req hreq => hopen req (by simp [hreq])
    rw [handler_snoc_ok, ih hts, turn_ok_iff ht]
    constructor
    · rintro ⟨hold, hnew⟩ us key id ack vs heq
      rcases List.eq_nil_or_concat vs with rfl | ⟨vs, t', rfl⟩
      · obtain ⟨rfl, hlast⟩ := List.append_inj' heq rfl
        cases hlast
        exact hnew key id ack rfl
      · have hsplit : ts ++ [t] = (us ++ .request (.await key id ack) :: vs) ++ [t'] := by
          simpa using heq
        obtain ⟨rfl, -⟩ := List.append_inj' hsplit rfl
        exact hold us key id ack vs rfl
    · intro hall
      refine ⟨fun us key id ack vs heq => hall us key id ack (vs ++ [t]) (by simp [heq]), ?_⟩
      rintro key id ack rfl
      exact hall ts key id ack [] rfl

def cancelled : World := ⟨false, fun _ => 0, fun ack => ack == 2⟩

theorem handler_survives_run :
    (applyLock cancelled [.request (.lock 7 1 0), .request (.lock 7 2 1), .request (.await 7 2 2)]
      4 3 (.lock 8 none)).isSome :=
  ((handler_survives cancelled [.request (.lock 7 1 0), .request (.lock 7 2 1),
    .request (.await 7 2 2)] (by
      rintro req hreq hans ack hack
      fin_cases hreq <;> first | exact hans.elim | (cases hack; rfl))).2 (by decide)) 4 3 _ rfl

/-- **A cancelled client kills the handler.** Its await comes when it is gone: the handler panics,
and the next lock entry that `apply` sends gets no answer. -/
theorem cancelled_await_kills :
    (handler cancelled [.request (.lock 7 1 0), .request (.lock 7 2 1), .request (.release 7 1),
      .request (.await 7 2 2)] .spawn).1 = .error (.receiverGone 2) ∧
    applyLock cancelled [.request (.lock 7 1 0), .request (.lock 7 2 1), .request (.release 7 1),
      .request (.await 7 2 2)] 5 3 (.lock 8 none) = none := by
  decide

end Hiqlite.Dlock
