import Hiqlite.Dlock.Line

/-!
# D5 — the waiting clients

A client that waits for its place in the queue has its channel in `waiters`, next to the queue but
in a map of its own: **`waiters_served`**.
-/

namespace Hiqlite.Dlock

open List
open Multiset (coe_add mem_bind coe_count)

variable {K : Type} [DecidableEq K] {w : World}

/-- The client with the channel `ack` waits for its ticket `id`. -/
def Handler.Registered (h : Handler K) (key : K) (id : ℕ) (ack : Ack) : Prop :=
  ∃ list, h.waiters.lookup key = some list ∧ (id, ack) ∈ list

def Event.ack? : Event K → Option Ack
  | .sent ack _ _ _ _ => some ack
  | .snapshotBuilt ack _ => some ack
  | .snapshotInstalled ack => some ack
  | _ => none

def answered (log : List (Event K)) : List Ack := log.filterMap Event.ack?

def channels (list : List (ℕ × Ack)) : Multiset Ack := (list.map Prod.snd : List Ack)

@[simp] theorem channels_nil : channels [] = 0 := rfl

@[simp] theorem channels_append (list list' : List (ℕ × Ack)) :
    channels (list ++ list') = channels list + channels list' := by
  simp [channels]

def Handler.kept (h : Handler K) : Multiset Ack := Table.gather channels h.waiters

omit [DecidableEq K] in
@[simp] theorem answered_append (log log' : List (Event K)) :
    answered (log ++ log') = answered log ++ answered log' :=
  filterMap_append

theorem answered_answers (h : Handler K) (key : K) (state : LockState) (acks : List (ℕ × Ack)) :
    (answered (acks.map fun e => h.answer w key state e.2) : Multiset Ack) = channels acks := by
  simp [answered, channels, Handler.answer, Event.ack?, filterMap_map, Function.comp_def]

/-! ## What the moves do to the waiters -/

section Effects

variable (w) {h : Handler K} {key : K}

variable {key' : K} {id : ℕ} {ack : Ack}

theorem woken_registered {front : ℕ} : (h.woken w key front).Registered key' id ack ↔
      h.Registered key' id ack ∧ ¬ (key' = key ∧ id = front) := by
  unfold Handler.woken Handler.Registered
  cases hlist : h.waiters.lookup key with
  | none =>
    refine ⟨fun ⟨list, hl, hmem⟩ => ⟨⟨list, hl, hmem⟩, ?_⟩, fun hreg => hreg.1⟩
    rintro ⟨rfl, -⟩
    rw [hlist] at hl
    cases hl
  | some list =>
    by_cases hk : key' = key
    · subst hk
      simp [Handler.answerAll, hlist]
    · simp [Handler.answerAll, AList.lookup_insert_ne hk, hk]

theorem woken_kept (front : ℕ) :
    (h.woken w key front).kept + channels (h.waiting key front) = h.kept := by
  unfold Handler.woken Handler.waiting Handler.kept
  cases hlist : h.waiters.lookup key with
  | none => simp
  | some list =>
    have hperm : (list.filter (·.1 = front) ++ list.filter (·.1 ≠ front)).Perm list := by
      simpa using filter_append_perm (fun e => decide (e.1 = front)) list
    have hsplit : channels list =
        channels (list.filter (·.1 = front)) + channels (list.filter (·.1 ≠ front)) := by
      rw [← channels_append]
      exact (Multiset.coe_eq_coe.mpr (hperm.map Prod.snd)).symm
    have hins := Table.gather_insert channels h.waiters key (list.filter (·.1 ≠ front))
    simp only [hlist, Option.elim_some, hsplit] at hins
    refine add_right_cancel (b := channels (list.filter (·.1 ≠ front))) ?_
    rw [add_assoc, add_comm (Table.gather _ h.waiters), ← hins]
    rfl

theorem promoted_registered {front : ℕ} {queue : List ℕ} :
    (h.promoted w key front queue).Registered key' id ack ↔
      h.Registered key' id ack ∧ ¬ (key' = key ∧ id = front) :=
  woken_registered w

theorem promoted_kept (front : ℕ) (queue : List ℕ) :
    (h.promoted w key front queue).kept + channels (h.waiting key front) = h.kept :=
  woken_kept w front

theorem mem_waiting {ticket : ℕ} :
    (id, ack) ∈ h.waiting key ticket ↔ h.Registered key id ack ∧ id = ticket := by
  unfold Handler.waiting Handler.Registered
  cases h.waiters.lookup key <;> simp

theorem removed_registered :
    (h.removed w key).Registered key' id ack ↔ h.Registered key' id ack ∧ key' ≠ key := by
  unfold Handler.removed Handler.Registered
  by_cases hk : key' = key
  · subst hk
    simp [Handler.answerAll]
  · simp [Handler.answerAll, AList.lookup_erase_ne hk, hk]

theorem removed_kept :
    (h.removed w key).kept + channels ((h.waiters.lookup key).getD []) = h.kept := by
  have herase := Table.gather_erase channels h.waiters key
  unfold Handler.removed Handler.kept
  cases hlist : h.waiters.lookup key with
  | none | some => simpa [hlist, Handler.answerAll] using herase

theorem registered_registered {id' : ℕ} {ack' : Ack} :
    (h.registered key id ack).Registered key' id' ack' ↔
      h.Registered key' id' ack' ∨ key' = key ∧ id' = id ∧ ack' = ack := by
  unfold Handler.registered Handler.Registered
  by_cases hk : key' = key
  · subst hk
    cases h.waiters.lookup key' <;> simp
  · simp [AList.lookup_insert_ne hk, hk]

theorem registered_kept (id : ℕ) (ack : Ack) : (h.registered key id ack).kept = ack ::ₘ h.kept := by
  have hins := Table.gather_insert channels h.waiters key
    ((h.waiters.lookup key).getD [] ++ [(id, ack)])
  have hone : channels [(id, ack)] = {ack} := rfl
  unfold Handler.registered Handler.kept
  rw [← Multiset.singleton_add]
  cases hlist : h.waiters.lookup key with
  | none => simpa [hlist, hone] using hins
  | some list =>
    simp only [hlist, Option.elim_some, Option.getD_some, channels_append, hone] at hins ⊢
    refine add_right_cancel (b := channels list) ?_
    rw [hins, add_comm (channels list), add_assoc, add_assoc,
      add_comm (channels list) (Table.gather channels h.waiters)]

theorem drain_registered : ¬ (h.drain w).Registered key' id ack := by
  rintro ⟨list, hlist, -⟩
  cases hlist

theorem drain_kept : (answered (h.drain w).log : Multiset Ack) + (h.drain w).kept =
    (answered h.log : Multiset Ack) + h.kept := by
  have hlist : h.kept = (h.waiters.entries.flatMap fun e => e.2.map Prod.snd : List Ack) := by
    change ((h.waiters.entries.map Sigma.snd : List (List (ℕ × Ack))) : Multiset _).bind
      (fun list : List (ℕ × Ack) => ((list.map Prod.snd : List Ack) : Multiset Ack)) = _
    rw [Multiset.coe_bind, flatMap_map]
  have hsent : answered (h.waiters.entries.flatMap fun e =>
      e.2.map fun x => h.answer w e.1 .released x.2) =
        h.waiters.entries.flatMap fun e => e.2.map Prod.snd := by
    simp [answered, Handler.answer, Event.ack?, filterMap_flatMap, filterMap_map,
      Function.comp_def]
  have hempty : (h.drain w).kept = 0 := rfl
  rw [hempty, hlist, Handler.drain, answered_append, hsent, add_zero, coe_add]

end Effects

/-! ## What holds of the waiters -/

/-- `Locked` is only said of the ticket that holds the lock. -/
def Told (state : LockState) (now : ℤ) (lock : Option LockQueue) : Prop :=
  ∀ id, state = .locked id → ∃ l, lock = some l ∧ l.currentTicket = some id ∧ now ≤ l.exp

structure Waiting (rs : List (LockRequest K)) (h : Handler K) : Prop where
  queued : ∀ key id ack, h.Registered key id ack → id ∈ h.queueOf key
  asked : ∀ key id ack, h.Registered key id ack → .await key id ack ∈ rs
  sent : ∀ ack key state now lock, .sent ack key state now lock ∈ h.log →
    ∃ req ∈ rs, req.Gets key state ack ∧ Told state now lock
  acks : (answered h.log : Multiset Ack) + h.kept = (rs.filterMap LockRequest.ack? : List Ack)

variable {req : LockRequest K} {key : K} {ack : Ack} {ts : List (Turn K)} {h : Handler K}

omit [DecidableEq K] in
theorem LockRequest.Gets.ack?_eq {state : LockState} (h : req.Gets key state ack) :
    req.ack? = some ack := by
  cases h <;> rfl

section Move

variable {h h' : Handler K} {rs : List (LockRequest K)} {key : K}

theorem queueOf_setLock (lock : LockQueue) (key' : K) :
    (h.setLock key lock).queueOf key' = if key' = key then lock.queue else h.queueOf key' := by
  split_ifs with hk
  · subst hk
    exact queueOf_eq (AList.lookup_insert _)
  · simp [Handler.queueOf, AList.lookup_insert_ne hk]

section

variable (hw : Waiting rs h)
include hw

theorem Waiting.quiet (es : List (Event K)) (hwaiters : h'.waiters = h.waiters)
    (hlog : h'.log = h.log ++ es) (hes : ∀ e ∈ es, e.ack? = none)
    (hqueue : ∀ key id, id ∈ h.queueOf key → id ∈ h'.queueOf key) : Waiting rs h' := by
  have hreg : ∀ key id ack, h'.Registered key id ack ↔ h.Registered key id ack := by
    simp [Handler.Registered, hwaiters]
  refine ⟨fun key id ack hr => hqueue _ _ (hw.queued _ _ _ ((hreg _ _ _).mp hr)),
    fun key id ack hr => hw.asked _ _ _ ((hreg _ _ _).mp hr), fun ack key state now lock he => ?_, ?_⟩
  · rw [hlog, mem_append] at he
    rcases he with he | he
    · exact hw.sent _ _ _ _ _ he
    · cases hes _ he
  · have hnone : answered es = [] := filterMap_eq_nil_iff.mpr hes
    rw [hlog, answered_append, hnone, append_nil, Handler.kept, hwaiters]
    exact hw.acks

theorem Waiting.setLock {lock : LockQueue} {es : List (Event K)} (hes : ∀ e ∈ es, e.ack? = none)
    (hqueue : ∀ id ∈ h.queueOf key, id ∈ lock.queue) :
    Waiting rs ((h.setLock key lock).note es) := by
  refine hw.quiet es rfl rfl hes fun key' id hid => ?_
  change id ∈ (h.setLock key lock).queueOf key'
  rw [queueOf_setLock]
  split_ifs with hk
  · exact hqueue id (hk ▸ hid)
  · exact hid

theorem Waiting.spend {req : LockRequest K} {x : Event K} {ack : Ack} (hx : x.ack? = some ack)
    (hreq : req.ack? = some ack)
    (hsent : ∀ ack key state now lock, x = .sent ack key state now lock →
      req.Gets key state ack ∧ Told state now lock) : Waiting (rs ++ [req]) (h.note [x]) := by
  refine ⟨hw.queued, fun key id ack hr => mem_append_left _ (hw.asked key id ack hr),
    fun ack' key' state' now lock he => ?_, ?_⟩
  · rw [Handler.note_log, mem_append, mem_singleton] at he
    rcases he with he | he
    · obtain ⟨req', hmem, hgets⟩ := hw.sent _ _ _ _ _ he
      exact ⟨req', mem_append_left _ hmem, hgets⟩
    · exact ⟨req, by simp, hsent _ _ _ _ _ he.symm⟩
  · have hone : answered [x] = [ack] := by simp [answered, hx]
    have htwo : [req].filterMap LockRequest.ack? = [ack] := by simp [hreq]
    rw [Handler.note_log, answered_append, hone, ← coe_add, add_right_comm,
      filterMap_append, htwo, ← coe_add, ← hw.acks]
    rfl

theorem Waiting.promoted {lock : LockQueue} {front : ℕ} {queue : List ℕ}
    (hlock : h.locks.lookup key = some lock) (hqueue : lock.queue = front :: queue) :
    Waiting rs (h.promoted w key front queue) := by
  refine ⟨fun key' id ack hr => ?_, fun key' id ack hr => ?_, fun ack key' state now lock' he => ?_,
    ?_⟩
  · rw [promoted_registered] at hr
    obtain ⟨hr, hnot⟩ := hr
    have hid := hw.queued _ _ _ hr
    have hq : (h.promoted w key front queue).queueOf key' =
        if key' = key then queue else h.queueOf key' := by
      unfold Handler.queueOf
      rw [Handler.promoted_locks]
      split_ifs with hk
      · subst hk
        simp
      · simp [AList.lookup_insert_ne hk]
    rw [hq]
    split_ifs with hk
    · subst hk
      rw [queueOf_eq hlock, hqueue, mem_cons] at hid
      exact hid.resolve_left fun hf => hnot ⟨rfl, hf⟩
    · exact hid
  · exact hw.asked _ _ _ ((promoted_registered w).mp hr).1
  · rw [promoted_log, mem_append, mem_cons] at he
    rcases he with he | he | he
    · exact hw.sent _ _ _ _ _ he
    · cases he
    · obtain ⟨⟨id, ack'⟩, hmem, heq⟩ := mem_map.mp he
      cases heq
      obtain ⟨hr, rfl⟩ := mem_waiting.mp hmem
      refine ⟨_, hw.asked _ _ _ hr, .awaitLocked, fun id' hid' => ?_⟩
      cases hid'
      refine ⟨_, rfl, rfl, ?_⟩
      have := w.lockValidSeconds_nonneg
      simp only
      omega
  · have hsent : (answered ((h.waiting key front).map fun e => Event.sent e.2 key (.locked front)
        (h.time w) (some ⟨some front, h.time w + w.lockValidSeconds, queue⟩)) : Multiset Ack) =
          channels (h.waiting key front) := by
      simp [answered, channels, Event.ack?, filterMap_map, Function.comp_def]
    rw [promoted_log, answered_append, ← coe_add]
    change (answered h.log : Multiset Ack) + (answered ((h.waiting key front).map _) : Multiset Ack)
      + _ = _
    rw [hsent, add_right_comm, add_assoc, promoted_kept]
    exact hw.acks

theorem Waiting.removed : Waiting rs (h.removed w key) := by
  refine ⟨fun key' id ack hr => ?_, fun key' id ack hr => ?_, fun ack key' state now lock' he => ?_,
    ?_⟩
  · obtain ⟨hr, hk⟩ := (removed_registered w).mp hr
    have hq : (h.removed w key).queueOf key' = h.queueOf key' := by
      simp [Handler.queueOf, Handler.removed, Handler.answerAll, AList.lookup_erase_ne hk]
    rw [hq]
    exact hw.queued _ _ _ hr
  · exact hw.asked _ _ _ ((removed_registered w).mp hr).1
  · rw [removed_log, mem_append] at he
    rcases he with he | he
    · exact hw.sent _ _ _ _ _ he
    · obtain ⟨⟨id, ack'⟩, hmem, heq⟩ := mem_map.mp he
      cases heq
      have hr : h.Registered key id ack' := by
        cases hlist : h.waiters.lookup key with
        | none => simp [hlist] at hmem
        | some list => exact ⟨list, hlist, by simpa [hlist] using hmem⟩
      exact ⟨_, hw.asked _ _ _ hr, .awaitReleased, fun id' hid' => by cases hid'⟩
  · rw [removed_log, answered_append, ← coe_add, answered_answers, add_right_comm,
      add_assoc, removed_kept]
    exact hw.acks

theorem Waiting.register {id : ℕ} {ack : Ack} (hid : id ∈ h.queueOf key) :
    Waiting (rs ++ [.await key id ack]) (h.registered key id ack) := by
  refine ⟨fun key' id' ack' hr => ?_, fun key' id' ack' hr => ?_, fun ack' key' state now lock he => ?_,
    ?_⟩
  · rcases registered_registered.mp hr with hr | ⟨rfl, rfl, -⟩
    · exact hw.queued _ _ _ hr
    · exact hid
  · rcases registered_registered.mp hr with hr | ⟨rfl, rfl, rfl⟩
    · exact mem_append_left _ (hw.asked _ _ _ hr)
    · simp
  · obtain ⟨req, hmem, hgets⟩ := hw.sent _ _ _ _ _ he
    exact ⟨req, mem_append_left _ hmem, hgets⟩
  · rw [registered_kept, Multiset.add_cons, filterMap_append, ← coe_add, ← hw.acks,
      add_comm _ (((filterMap LockRequest.ack? [LockRequest.await key id ack]) : List Ack) : Multiset Ack)]
    rfl

theorem Waiting.drain (data : Table K LockQueue) :
    Waiting rs (Handler.drain w { h with locks := data }) := by
  refine ⟨fun _ _ _ hr => (drain_registered w hr).elim, fun _ _ _ hr => (drain_registered w hr).elim,
    fun ack key state now lock he => ?_, ?_⟩
  · rcases mem_append.mp he with he | he
    · exact hw.sent _ _ _ _ _ he
    · obtain ⟨⟨key', list⟩, hentry, hx⟩ := mem_flatMap.mp he
      obtain ⟨⟨id, ack'⟩, hmem, heq⟩ := mem_map.mp hx
      cases heq
      have hr : h.Registered key' id ack' := ⟨list, AList.mem_lookup_iff.mpr hentry, hmem⟩
      exact ⟨_, hw.asked _ _ _ hr, .awaitReleased, fun id' hid' => by cases hid'⟩
  · rw [drain_kept]
    exact hw.acks

theorem Waiting.move {l : Option (LockRequest K)} {R : Rules w K} (hm : Move w R h l h') :
    Waiting (rs ++ l.toList) h' := by
  have hnil : rs ++ (none : Option (LockRequest K)).toList = rs := append_nil rs
  cases hm with
  | read =>
    rw [hnil]
    exact hw.quiet [] rfl (append_nil _).symm (by simp) fun _ _ hid => hid
  | grant =>
    rw [hnil]
    exact hw.setLock (by simp [Event.ack?]) fun _ hid => hid
  | promote hlock hfree hqueue =>
    rw [hnil]
    exact hw.promoted hlock hqueue
  | @enqueue key lock ticket hlock =>
    rw [hnil]
    refine hw.quiet [] rfl (append_nil _).symm (by simp) fun key' id hid => ?_
    rw [queueOf_setLock]
    split_ifs with hk
    · subst hk
      exact mem_append_left _ (queueOf_eq hlock ▸ hid)
    · exact hid
  | renew hlock hid =>
    rw [hnil]
    exact hw.setLock (by simp [Event.ack?]) fun _ hid => queueOf_eq hlock ▸ hid
  | @release key lock id hlock =>
    rw [hnil]
    refine hw.quiet [.release key id] rfl rfl (by simp [Event.ack?]) fun key' id hid => ?_
    rw [queueOf_setLock]
    split_ifs with hk
    · subst hk
      exact queueOf_eq hlock ▸ hid
    · exact hid
  | ignore =>
    rw [hnil]
    exact hw.quiet _ rfl rfl (by simp [Event.ack?]) fun _ _ hid => hid
  | remove =>
    rw [hnil]
    exact hw.removed
  | locked hreq hlock hid hexp =>
    refine hw.spend rfl (hreq.ack?_eq) fun ack key state now lock he => ?_
    cases he
    refine ⟨hreq, fun id' hid' => ?_⟩
    cases hid'
    exact ⟨_, hlock, hid, hexp⟩
  | other hreq hstate =>
    refine hw.spend rfl (hreq.ack?_eq) fun ack key state now lock he => ?_
    cases he
    exact ⟨hreq, fun id hid => absurd hid (hstate id)⟩
  | register hid => exact hw.register hid
  | build => exact hw.spend rfl rfl fun _ _ _ _ _ he => by cases he
  | install => exact (hw.drain _).spend rfl rfl fun _ _ _ _ _ he => by cases he

end

end Move

/-! ## Runs -/

section

omit [DecidableEq K]

theorem request_of_mem_calls (hmem : req ∈ ts.flatMap Turn.calls) : .request req ∈ ts := by
  obtain ⟨t, ht, hreq⟩ := mem_flatMap.mp hmem
  cases t with
  | tick => simp [Turn.calls, Turn.req?] at hreq
  | request req' =>
    obtain ⟨rfl, -⟩ : req = req' ∧ _ := by simpa [Turn.calls, Turn.req?] using hreq
    exact ht

theorem filterMap_calls (ts : List (Turn K)) :
    (ts.flatMap Turn.calls).filterMap LockRequest.ack? = acks ts := by
  induction ts with
  | nil => rfl
  | cons t ts ih =>
    rw [flatMap_cons, filterMap_append, ih]
    cases t with
    | tick => rfl
    | request req => cases req <;> rfl

theorem request_unique (hacks : (acks ts).Nodup) {req' : LockRequest K} (hmem : .request req ∈ ts)
    (hmem' : .request req' ∈ ts) (hack : req.ack? = some ack) (hack' : req'.ack? = some ack) :
    req = req' := by
  by_contra hne
  have hpair := pairwise_filterMap.mp hacks
  have hsymm : Std.Symm fun r r' : LockRequest K => ∀ b ∈ r.ack?, ∀ b' ∈ r'.ack?, b ≠ b' :=
    ⟨fun r r' h b hb b' hb' => (h b' hb' b hb).symm⟩
  have hin : ∀ r, .request r ∈ ts → r ∈ ts.filterMap Turn.req? := fun r hr =>
    mem_filterMap.mpr ⟨_, hr, rfl⟩
  exact hpair.forall (hin _ hmem) (hin _ hmem') hne ack hack ack hack' rfl

end

theorem Waiting.goes {R : Rules w K} {h' : Handler K} {rs rs' : List (LockRequest K)}
    (hw : Waiting rs h) (hgo : Goes w R h rs' h') : Waiting (rs ++ rs') h' := by
  obtain ⟨ls, hpath, rfl⟩ := hgo
  refine hpath.invariant (I := fun ls => Waiting (rs ++ ls.filterMap id)) (by simpa using hw) ?_
  intro ls t l u ih hm
  have hnext := ih.move hm
  rw [append_assoc] at hnext
  rw [filterMap_append]
  cases l <;> exact hnext

theorem Waiting.spawn : Waiting [] (.spawn : Handler K) :=
  ⟨fun _ _ _ ⟨_, h, _⟩ => (nomatch h), fun _ _ _ ⟨_, h, _⟩ => (nomatch h),
    fun _ _ _ _ _ h => (nomatch h), rfl⟩

theorem waiting (w : World) (ts : List (Turn K)) :
    ∃ us, us <+: ts ∧ Waiting (us.flatMap Turn.calls) (handler w ts .spawn).2 ∧
      ((handler w ts .spawn).1 = .ok () → us = ts) := by
  obtain ⟨us, hus, hgo, hall⟩ := handler_goes (meets_any (w := w) .spawn ts)
  exact ⟨us, hus, by simpa using Waiting.spawn.goes hgo, hall⟩

theorem exists_registered (hack : ack ∈ h.kept) : ∃ key id, h.Registered key id ack := by
  rw [Handler.kept, Table.gather, mem_bind] at hack
  obtain ⟨list, hlist, hmem⟩ := hack
  obtain ⟨key, hkey⟩ := Table.mem_values.mp hlist
  obtain ⟨⟨id, ack'⟩, hentry, rfl⟩ := mem_map.mp (Multiset.mem_coe.mp hmem)
  exact ⟨key, id, list, hkey, hentry⟩

theorem mem_kept {id : ℕ} (hr : h.Registered key id ack) : ack ∈ h.kept := by
  obtain ⟨list, hlist, hmem⟩ := hr
  have hack : ack ∈ list.map Prod.snd := mem_map.mpr ⟨_, hmem, rfl⟩
  exact (mem_bind (f := channels)).mpr
    ⟨list, Table.mem_values.mpr ⟨key, hlist⟩, Multiset.mem_coe.mpr hack⟩

theorem answered_or_registered (hacks : (acks ts).Nodup) {id : ℕ}
    (hmem : .request (.await key id ack) ∈ ts) (hok : (handler w ts .spawn).1 = .ok ()) :
    ack ∈ answered (handler w ts .spawn).2.log ∨
      (handler w ts .spawn).2.Registered key id ack := by
  obtain ⟨us, -, hw, hall⟩ := waiting w ts
  cases hall hok
  have hin : ack ∈ (acks ts : Multiset Ack) := Multiset.mem_coe.mpr (mem_filterMap.mpr
    ⟨_, mem_filterMap.mpr ⟨_, hmem, rfl⟩, rfl⟩)
  rw [← filterMap_calls, ← hw.acks, Multiset.mem_add] at hin
  refine hin.imp Multiset.mem_coe.mp fun hkept => ?_
  obtain ⟨key', id', hr⟩ := exists_registered hkept
  have hsame := request_unique hacks hmem (request_of_mem_calls (hw.asked _ _ _ hr)) rfl rfl
  cases hsame
  exact hr

/-- An await is answered at most once, not while it is registered, and with `Locked` of its ticket
while that holds the lock or with `Released`. -/
structure AwaitOk (h : Handler K) (key : K) (id : ℕ) (ack : Ack) : Prop where
  once : (answered h.log).count ack ≤ 1
  pending : h.Registered key id ack → ack ∉ answered h.log
  answer : ∀ key' state now lock, .sent ack key' state now lock ∈ h.log →
    key' = key ∧ (state = .released ∨ state = .locked id ∧
      ∃ l, lock = some l ∧ l.currentTicket = some id ∧ now ≤ l.exp)

/-- **No waiter is lost or woken wrongly.** Whoever waits is queued, an await is answered at most
once and rightly, and a promotion answers the waiters of its ticket and no others. -/
theorem waiters_served (w : World) (ts : List (Turn K)) (hacks : (acks ts).Nodup) :
    (∀ key id ack, (handler w ts .spawn).2.Registered key id ack →
      id ∈ (handler w ts .spawn).2.queueOf key) ∧
    (∀ key id ack, .request (.await key id ack) ∈ ts →
      AwaitOk (handler w ts .spawn).2 key id ack ∧
      ((handler w ts .spawn).1 = .ok () → ack ∈ answered (handler w ts .spawn).2.log ∨
        (handler w ts .spawn).2.Registered key id ack)) ∧
    (∀ (h : Handler K) key lock front queue, isFree lock (w.clock h.reads) = true →
      lock.queue = front :: queue →
      ((promote w key lock h).2.log = h.log ++
        .grant key front (w.clock h.reads) .promotion (front :: queue) ::
          ((h.waiting key front).map fun e => .sent e.2 key (.locked front) (w.clock h.reads)
            (some ⟨some front, w.clock h.reads + w.lockValidSeconds, queue⟩))) ∧
      ∀ key' id ack, (promote w key lock h).2.Registered key' id ack ↔
        h.Registered key' id ack ∧ ¬ (key' = key ∧ id = front)) ∧
    (∀ key, (handler w ts .spawn).2.locks.lookup key = none →
      ∀ id ack, ¬ (handler w ts .spawn).2.Registered key id ack) ∧
    (∀ (h : Handler K) data ack,
      (handleRequest w (.snapshotInstall data ack) h).2.waiters = ∅) := by
  obtain ⟨us, hus, hw, hall⟩ := waiting w ts
  have hsub := hus.sublist
  have hnodup : (acks us).Nodup := hacks.sublist ((hsub.filterMap _).filterMap _)
  have hcount := hw.acks
  rw [filterMap_calls] at hcount
  refine ⟨hw.queued, fun key id ack hmem => ⟨⟨?_, fun hr hans => ?_, ?_⟩, fun hok => ?_⟩,
    fun h key lock front queue hfree hqueue => ?_, fun key hlock id ack hr => ?_,
    fun h data ack => ?_⟩
  · have hle : (answered (handler w ts .spawn).2.log : Multiset Ack).count ack ≤
        (acks us : Multiset Ack).count ack :=
      Multiset.count_le_of_le ack (hcount ▸ Multiset.le_add_right _ _)
    rw [coe_count, coe_count] at hle
    exact hle.trans (nodup_iff_count_le_one.mp hnodup ack)
  · have hdisj := (Multiset.nodup_add.mp (hcount ▸ Multiset.coe_nodup.mpr hnodup)).2.2
    exact Multiset.disjoint_left.mp hdisj (Multiset.mem_coe.mpr hans) (mem_kept hr)
  · intro key' state now lock he
    obtain ⟨req, hreq, hgets, htold⟩ := hw.sent _ _ _ _ _ he
    have hsame := request_unique hacks hmem (hsub.subset (request_of_mem_calls hreq)) rfl
      hgets.ack?_eq
    subst hsame
    cases hgets with
    | awaitLocked => exact ⟨rfl, .inr ⟨rfl, htold id rfl⟩⟩
    | awaitReleased => exact ⟨rfl, .inl rfl⟩
  · exact answered_or_registered hacks hmem hok
  · rw [promote_free hfree hqueue]
    exact ⟨promoted_log w front queue, fun key' id ack => promoted_registered w⟩
  · have hid := hw.queued _ _ _ hr
    rw [queueOf_eq_nil hlock] at hid
    cases hid
  · rw [handleRequest, Exec.modify_bind, Exec.modify_bind, Exec.modify_bind]
    split_ifs <;> rfl

theorem waiters_served_run :
    AwaitOk (handler slow [.request (.lock 7 1 0), .request (.lock 7 2 1), .request (.await 7 2 2),
      .request (.release 7 1)] .spawn).2 7 2 2 :=
  ((waiters_served slow [.request (.lock 7 1 0), .request (.lock 7 2 1), .request (.await 7 2 2),
    .request (.release 7 1)] (by decide)).2.1 7 2 2 (by simp)).1

end Hiqlite.Dlock
