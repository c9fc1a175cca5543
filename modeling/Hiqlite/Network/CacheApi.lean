import Hiqlite.Cache.Apply
import Hiqlite.Cache.Ttl
import Hiqlite.Client.Retry
import Hiqlite.Dlock.Panics

/-!
# H2 — the cache requests of remote clients

The API server refuses a request, asks a handler of its node, or writes it to the Raft log, from where
`apply` of every node passes it on. Each of them has a match of its own, with arms that are meant to be
unreachable.

* **`apply_delivers`**: an entry sends the messages of `CacheRequest.instrs`;
* `apply_ok_iff`, **`agreed_kv`**: when a request gets through; **`apply_gets`**: what it may get.
-/

namespace Hiqlite.Network

open List Exec
open Cache (CacheRequest CacheRequestHandler KvHandler Reply)
open Hiqlite.Client (RaftError Result)
open Dlock (Ack LockEntry LockRequest LockState Turn acks reply)

/-! ## The messages -/

/-- What `apply` answers. -/
inductive CacheResponse (V : Type)
  | empty
  | ok
  | lock (state : LockState)
  | value (v : Option V)
  | counterValue (v : Option ℤ)

/-- The requests for the cache group. The client chooses the kind. -/
inductive ApiStreamRequestPayload (K V : Type)
  | kv (req : CacheRequest K V)
  | kvGet (req : CacheRequest K V)
  | lockAwait (req : CacheRequest K V)
  | notify (req : CacheRequest K V)

inductive ApiStreamResponsePayload (V : Type)
  | kv (res : Result (CacheResponse V))
  | lock (res : Result LockState)
  | notify (res : Result Unit)
  | database

/-- The cache that the API server looks up for a request. -/
def cacheIdx {K V : Type} : CacheRequest K V → Option ℕ
  | .get idx _ | .put idx _ _ _ | .getRemove idx _ | .replace idx _ _ _ | .delete idx _
  | .clear idx | .clearCounters idx | .counterGet idx _ | .counterSet idx _ _
  | .counterAdd idx _ _ | .counterDel idx _ => some idx
  | .clearAll | .notify | .lock _ _ | .lockAwait _ _ | .lockRelease _ _ | .lockAlive _ _ => none

/-! ## A node -/

structure Node (K V : Type) where
  /-- `tx_caches`; a handler that has panicked is gone. -/
  caches : List (Option (KvHandler K V))
  cacheWorld : Cache.World
  lockWorld : Dlock.World
  turns : List (Turn K)
  /-- The channel for the answer of the lock handler. -/
  ack : Ack
  channels : (acks turns ++ [ack]).Nodup
  waits : lockWorld.gone ack = false

inductive Panic
  | unreachable
  /-- `tx_caches.get(idx).unwrap()` -/
  | index
  | handler
  deriving DecidableEq

variable {K V : Type} [DecidableEq K]

namespace Node

def Runs (node : Node K V) (idx : ℕ) : Prop := ∃ c, node.caches[idx]? = some (some c)

def LocksRun (node : Node K V) : Prop :=
  (Dlock.handler node.lockWorld node.turns .spawn).1 = .ok ()

def setCache (node : Node K V) (idx : ℕ) (c : Option (KvHandler K V)) : Node K V :=
  { node with caches := node.caches.set idx c }

end Node

/-- A message to the cache `idx`, and what is sent back. -/
def toCache (idx : ℕ) (req : CacheRequestHandler K V) :
    Exec (Node K V) Panic (Option (Reply K V)) := fun node =>
  match node.caches[idx]? with
  | none => (.error .index, node)
  | some none => (.error .handler, node)
  | some (some c) =>
    match Cache.process node.cacheWorld req c with
    | (.ok reply, c') => (.ok reply, node.setCache idx (some c'))
    | (.error _, _) => (.error .handler, node.setCache idx none)

def awaitValue (reply : Option (Reply K V)) : Exec (Node K V) Panic (Option V) :=
  match reply with
  | some (.value v) => pure v
  | _ => stop .handler

def awaitCount (reply : Option (Reply K V)) : Exec (Node K V) Panic ℤ :=
  match reply with
  | some (.count v) => pure v
  | _ => stop .handler

/-- A message to the handler of the locks, and its answer. -/
def toLocks (index : ℕ) (entry : LockEntry K) : Exec (Node K V) Panic LockState := do
  let node ← Exec.get
  unwrap .handler (Dlock.applyLock node.lockWorld node.turns index node.ack entry)

def clearEach : List ℕ → Exec (Node K V) Panic Unit
  | [] => pure ()
  | i :: l => do
    let _ ← toCache i .clear
    let _ ← toCache i .clearCounters
    clearEach l

/-- **What `apply` does with a request** in the entry `index`. -/
def apply (index : ℕ) : CacheRequest K V → Exec (Node K V) Panic (CacheResponse V)
  | .get .. => stop .unreachable
  | .put idx key value expires => do
    let _ ← toCache idx (.put key value expires)
    pure .ok
  | .getRemove idx key => do
    let reply ← toCache idx (.getRemove key)
    let v ← awaitValue reply
    pure (.value v)
  | .replace idx key value expires => do
    let reply ← toCache idx (.replace key value expires)
    let v ← awaitValue reply
    pure (.value v)
  | .delete idx key => do
    let _ ← toCache idx (.delete key)
    pure .ok
  | .clear idx => do
    let _ ← toCache idx .clear
    pure .ok
  | .clearCounters idx => do
    let _ ← toCache idx .clearCounters
    pure .ok
  | .clearAll => do
    let node ← Exec.get
    clearEach (range node.caches.length)
    pure .ok
  | .notify => pure .ok
  | .lock key id => do
    let state ← toLocks index (.lock key id)
    pure (.lock state)
  | .lockAwait .. => stop .unreachable
  | .lockRelease key id => do
    let state ← toLocks index (.lockRelease key id)
    pure (.lock state)
  | .lockAlive key id => do
    let state ← toLocks index (.lockAlive key id)
    pure (.lock state)
  | .counterGet .. => stop .unreachable
  | .counterSet idx key value => do
    let _ ← toCache idx (.counterSet key value)
    pure .ok
  | .counterAdd idx key value => do
    let reply ← toCache idx (.counterAdd key value)
    let v ← awaitCount reply
    pure (.counterValue (some v))
  | .counterDel idx key => do
    let _ ← toCache idx (.counterDel key)
    pure .ok

/-- What an instruction does with the caches of a node. -/
def deliver {M : Type} : Cache.Instr K V M → Exec (Node K V) Panic Unit
  | .send idx req _ => do
    let _ ← toCache idx req
    pure ()
  | .unreachable => stop .unreachable
  | .entry _ | .elsewhere _ | .membership .. => pure ()

def deliverAll {M : Type} : List (Cache.Instr K V M) → Exec (Node K V) Panic Unit
  | [] => pure ()
  | instr :: l => do
    deliver instr
    deliverAll l

section Deliver

variable {M : Type} {node node' : Node K V}

theorem deliver_send {idx : ℕ} {req : CacheRequestHandler K V} {wait : Bool}
    {reply : Option (Reply K V)} (h : toCache idx req node = (.ok reply, node')) :
    deliver (.send idx req wait : Cache.Instr K V M) node = (.ok (), node') := bind_ok h

theorem toCache_delivers {α : Type} {idx : ℕ} {req : CacheRequestHandler K V} {wait : Bool} {a : α}
    {f : Option (Reply K V) → Exec (Node K V) Panic α}
    (hf : ∀ r n n', f r n = (.ok a, n') → n' = n) (h : (toCache idx req >>= f) node = (.ok a, node')) :
    deliverAll [(.send idx req wait : Cache.Instr K V M)] node = (.ok (), node') := by
  obtain ⟨reply, n, hsend, hrest⟩ := bind_eq_ok.mp h
  rw [deliverAll, bind_ok (deliver_send hsend), hf _ _ _ hrest]
  rfl

theorem clearEach_delivers {l : List ℕ} (h : clearEach l node = (.ok (), node')) :
    deliverAll (l.flatMap fun i => [(.send i .clear false : Cache.Instr K V M),
      .send i .clearCounters false]) node = (.ok (), node') := by
  induction l generalizing node with
  | nil => exact h
  | cons i l ih =>
    obtain ⟨_, n, h1, h⟩ := bind_eq_ok.mp h
    obtain ⟨_, n', h2, h⟩ := bind_eq_ok.mp h
    rw [flatMap_cons, cons_append, deliverAll, bind_ok (deliver_send h1),
      cons_append, deliverAll, bind_ok (deliver_send h2)]
    exact ih h

theorem toLocks_node {index : ℕ} {entry : LockEntry K} {state : LockState}
    (h : toLocks index entry node = (.ok state, node')) : node' = node :=
  (unwrap_eq_ok.mp h).2

/-- **An entry that is applied** sends its messages, in their order. -/
theorem apply_delivers {index : ℕ} {req : CacheRequest K V} {r : CacheResponse V}
    (h : apply index req node = (.ok r, node')) :
    deliverAll (req.instrs node.caches.length : List (Cache.Instr K V M)) node =
      (.ok (), node') := by
  cases req with
  | get | lockAwait | counterGet => cases h
  | notify =>
    cases h
    rfl
  | lock | lockRelease | lockAlive =>
    obtain ⟨state, n, hlocks, hrest⟩ := bind_eq_ok.mp h
    cases hrest
    rw [toLocks_node hlocks]
    rfl
  | clearAll =>
    rw [apply, get_bind] at h
    obtain ⟨_, n, hclear, hrest⟩ := bind_eq_ok.mp h
    cases hrest
    exact clearEach_delivers hclear
  | getRemove | replace | counterAdd =>
    refine toCache_delivers (fun r n n' hr => ?_) h
    obtain ⟨v, m, hv, hrest⟩ := bind_eq_ok.mp hr
    cases hrest
    rcases r with _ | _ | _ <;> cases hv
    rfl
  | _ =>
    refine toCache_delivers (fun _ n n' hr => ?_) h
    cases hr
    rfl

end Deliver

/-! ## The API server -/

inductive Handling (K V : Type)
  | respond (resp : ApiStreamResponsePayload V)
  /-- `raft.client_write(req)`, with the response made from its result. -/
  | clientWrite (req : CacheRequest K V)
      (resp : Result (CacheResponse V) → ApiStreamResponsePayload V)
  | get (idx : ℕ) (key : K)
  | await (key : K) (id : ℕ)
  | unreachable

omit [DecidableEq K] in
/-- **The match of the API server**, on a node with `n` caches. -/
def handle (n : ℕ) : ApiStreamRequestPayload K V → Handling K V
  | .kv req =>
    match cacheIdx req with
    | some idx =>
      if n ≤ idx then .respond (.kv (.error .badRequest)) else .clientWrite req .kv
    | none => .clientWrite req .kv
  | .kvGet (.get idx key) =>
    if n ≤ idx then .respond (.kv (.error .badRequest)) else .get idx key
  | .kvGet _ => .unreachable
  | .lockAwait (.lockAwait key id) => .await key id
  | .lockAwait _ => .unreachable
  | .notify .notify => .clientWrite .notify fun res => .notify (res.map fun _ => ())
  | .notify _ => .unreachable

/-- The turns of the lock handler with an await of a client and then `later`. -/
def Node.awaiting (node : Node K V) (key : K) (id : ℕ) (later : List (Turn K)) : List (Turn K) :=
  node.turns ++ .request (.await key id node.ack) :: later

/-- The await of a client is taken, and is answered or waits for its turn. -/
def Node.Awaits (node : Node K V) (key : K) (id : ℕ) : Prop :=
  let run := Dlock.handler node.lockWorld (node.awaiting key id []) .spawn
  run.1 = .ok () ∧ (node.ack ∈ Dlock.answered run.2.log ∨ run.2.Registered key id node.ack)

/-- **A request gets through**: no node panics as the server or when it applies the entry. -/
def Agreed (nodes : Set (Node K V)) (q : ApiStreamRequestPayload K V) : Prop :=
  ∀ server ∈ nodes,
    match handle server.caches.length q with
    | .respond _ => True
    | .clientWrite req _ => ∀ replica ∈ nodes, ∀ index, ∃ r, (apply index req replica).1 = .ok r
    | .get idx key => ∃ v, (toCache idx (.get key) server).1 = .ok (some (.value v))
    | .await key id => server.Awaits key id
    | .unreachable => False

/-- What a node of `nodes` may respond to a request. -/
def Responds (nodes : Set (Node K V)) (q : ApiStreamRequestPayload K V)
    (resp : ApiStreamResponsePayload V) : Prop :=
  ∃ server ∈ nodes,
    match handle server.caches.length q with
    | .respond resp' => resp = resp'
    | .clientWrite req wrap => (∃ e : RaftError, resp = wrap (.error (.clientWrite e))) ∨
        ∃ leader ∈ nodes, ∃ index r, (apply index req leader).1 = .ok r ∧ resp = wrap (.ok r)
    | .get idx key => ∃ v, (toCache idx (.get key) server).1 = .ok (some (.value v)) ∧
        resp = .kv (.ok (.value v))
    | .await key id => ∃ later state, (acks (server.awaiting key id later)).Nodup ∧
        reply (Dlock.handler server.lockWorld (server.awaiting key id later) .spawn).2.log
          server.ack = some state ∧ resp = .lock (.ok state)
    | .unreachable => False

/-- What may come back to a client: a response, or an error of its stream. -/
def Answers (nodes : Set (Node K V)) (q : ApiStreamRequestPayload K V) :
    Result (ApiStreamResponsePayload V) → Prop
  | .error _ => True
  | .ok resp => Responds nodes q resp

/-! ## When a request gets through -/

section Handlers

variable {node : Node K V} {idx : ℕ} {req : CacheRequestHandler K V}

def Fits : CacheRequestHandler K V → Option (Reply K V) → Prop
  | .get _, r | .getRemove _, r | .replace _ _ _, r => ∃ v, r = some (.value v)
  | .counterAdd _ _, r => ∃ v, r = some (.count v)
  | _, _ => True

theorem process_ok (w : Cache.World) (req : CacheRequestHandler K V) (c : KvHandler K V) :
    ∃ r c', Cache.process w req c = (.ok r, c') ∧ Fits req r := by
  cases req with
  | get key =>
    obtain ⟨c', hlook, -⟩ := Cache.lookup_eq w (c.values.lookup key) c
    exact ⟨_, c', bind_ok hlook, _, rfl⟩
  | getRemove key =>
    obtain ⟨c', hlook, -⟩ := Cache.lookup_eq w (c.values.lookup key) (c.discard key)
    exact ⟨_, c', bind_ok hlook, _, rfl⟩
  | replace | counterAdd => exact ⟨_, _, rfl, _, rfl⟩
  | _ => exact ⟨_, _, rfl, trivial⟩

theorem toCache_runs (req : CacheRequestHandler K V) (h : node.Runs idx) :
    ∃ r c, toCache idx req node = (.ok r, node.setCache idx (some c)) ∧ Fits req r := by
  obtain ⟨c, hc⟩ := h
  obtain ⟨r, c', hr, hfits⟩ := process_ok node.cacheWorld req c
  exact ⟨r, c', by rw [toCache, hc]; simp only [hr], hfits⟩

theorem toCache_stops (req : CacheRequestHandler K V) (h : ¬ node.Runs idx) :
    ∃ e, toCache idx req node = (.error e, node) := by
  rcases hc : node.caches[idx]? with _ | _ | c
  · exact ⟨.index, by rw [toCache, hc]⟩
  · exact ⟨.handler, by rw [toCache, hc]⟩
  · exact absurd ⟨c, hc⟩ h

omit [DecidableEq K] in
theorem runs_setCache {c : KvHandler K V} (h : node.Runs idx) (i : ℕ) :
    (node.setCache idx (some c)).Runs i ↔ node.Runs i := by
  by_cases hi : idx = i
  · subst hi
    obtain ⟨c', hc'⟩ := h
    have hlt : idx < node.caches.length := (List.getElem?_eq_some_iff.mp hc').1
    exact iff_of_true ⟨c, by simp [Node.setCache, hlt]⟩ ⟨c', hc'⟩
  · simp [Node.Runs, Node.setCache, getElem?_set_ne hi]

theorem toCache_bind_ok {α : Type} {f : Option (Reply K V) → Exec (Node K V) Panic α}
    (hf : ∀ r node, Fits req r → ∃ a, (f r node).1 = .ok a) :
    (∃ a, ((toCache idx req >>= f) node).1 = .ok a) ↔ node.Runs idx := by
  by_cases h : node.Runs idx
  · obtain ⟨r, c, hr, hfits⟩ := toCache_runs req h
    rw [bind_ok hr]
    exact iff_of_true (hf r _ hfits) h
  · obtain ⟨e, he⟩ := toCache_stops req h
    rw [bind_error he]
    exact iff_of_false (by simp) h

theorem clearEach_ok_iff (l : List ℕ) (node : Node K V) :
    (clearEach l node).1 = .ok () ↔ ∀ i ∈ l, node.Runs i := by
  induction l generalizing node with
  | nil => exact iff_of_true rfl (by simp)
  | cons i l ih =>
    by_cases h : node.Runs i
    · obtain ⟨r, c, hr, -⟩ := toCache_runs .clear h
      have h' : (node.setCache i (some c)).Runs i := (runs_setCache h i).mpr h
      obtain ⟨r', c', hr', -⟩ := toCache_runs .clearCounters h'
      rw [clearEach, bind_ok hr, bind_ok hr', ih]
      simp [runs_setCache h', runs_setCache h, h]
    · obtain ⟨e, he⟩ := toCache_stops .clear h
      rw [clearEach, bind_error he]
      exact iff_of_false (by simp) fun hall => h (hall i (mem_cons_self ..))

theorem toLocks_ok_iff (index : ℕ) (entry : LockEntry K) :
    (∃ state, (toLocks index entry node).1 = .ok state) ↔ node.LocksRun := by
  rw [toLocks, get_bind]
  by_cases h : node.LocksRun
  · obtain ⟨state, hstate⟩ :=
      Option.isSome_iff_exists.mp (Dlock.applyLock_isSome h index entry node.waits)
    rw [hstate]
    exact iff_of_true ⟨state, rfl⟩ h
  · have hnone : Dlock.applyLock node.lockWorld node.turns index node.ack entry = none := by
      have hnot : ¬ (Dlock.handler node.lockWorld
          (node.turns ++ [.request (entry.request index node.ack)]) .spawn).1 = .ok () :=
        fun hok => h (Dlock.handler_snoc_ok.mp hok).1
      unfold Dlock.applyLock
      rcases hrun : Dlock.handler node.lockWorld
        (node.turns ++ [.request (entry.request index node.ack)]) .spawn with ⟨r, h'⟩
      rw [hrun] at hnot ⊢
      cases r with
      | error e => rfl
      | ok u => exact absurd rfl hnot
    rw [hnone]
    exact iff_of_false (by simp) h

end Handlers

/-- What `apply` needs for a request. -/
def Node.Ready (node : Node K V) : CacheRequest K V → Prop
  | .put idx _ _ _ | .getRemove idx _ | .replace idx _ _ _ | .delete idx _ | .clear idx
  | .clearCounters idx | .counterSet idx _ _ | .counterAdd idx _ _ | .counterDel idx _ =>
    node.Runs idx
  | .clearAll => ∀ i < node.caches.length, node.Runs i
  | .lock _ _ | .lockRelease _ _ | .lockAlive _ _ => node.LocksRun
  | .notify => True
  | .get _ _ | .lockAwait _ _ | .counterGet _ _ => False

theorem apply_ok_iff (index : ℕ) (req : CacheRequest K V) (node : Node K V) :
    (∃ r, (apply index req node).1 = .ok r) ↔ node.Ready req := by
  have hlocks : ∀ entry : LockEntry K, (∃ r, ((toLocks index entry >>= fun state =>
      (pure (.lock state) : Exec (Node K V) Panic (CacheResponse V))) node).1 = .ok r) ↔
        node.LocksRun := by
    intro entry
    rw [← toLocks_ok_iff index entry]
    rcases hl : toLocks index entry node with ⟨r, node'⟩
    cases r with
    | ok state => simp [bind_ok hl]
    | error e => simp [bind_error hl]
  cases req with
  | get | lockAwait | counterGet => exact iff_of_false (by simp [apply]) id
  | getRemove | replace | counterAdd =>
    refine toCache_bind_ok fun r node hfits => ?_
    obtain ⟨v, rfl⟩ := hfits
    exact ⟨_, rfl⟩
  | clearAll =>
    have hclear := clearEach_ok_iff (range node.caches.length) node
    rw [Node.Ready, apply, get_bind]
    simp only [mem_range] at hclear
    rw [← hclear]
    rcases hl : clearEach (range node.caches.length) node with ⟨r, node'⟩
    cases r with
    | ok u => simp [bind_ok hl]
    | error e => simp [bind_error hl]
  | notify => exact iff_of_true ⟨_, rfl⟩ trivial
  | lock key id => exact hlocks (.lock key id)
  | lockRelease key id => exact hlocks (.lockRelease key id)
  | lockAlive key id => exact hlocks (.lockAlive key id)
  | _ => exact toCache_bind_ok fun r node _ => ⟨_, rfl⟩

section Agreed

variable {nodes : Set (Node K V)}

/-- **A request for the log gets through** iff every node can apply it, if one of them takes it. -/
theorem agreed_kv (req : CacheRequest K V) : Agreed nodes (.kv req) ↔
    ∀ server ∈ nodes, (∀ idx ∈ cacheIdx req, idx < server.caches.length) →
      ∀ replica ∈ nodes, replica.Ready req := by
  refine forall₂_congr fun server _ => ?_
  have hready : (∀ replica ∈ nodes, ∀ index, ∃ r, (apply index req replica).1 = .ok r) ↔
      ∀ replica ∈ nodes, replica.Ready req := by
    simp only [apply_ok_iff, forall_const]
  rw [← hready, handle]
  cases hidx : cacheIdx req with
  | none => simp
  | some idx =>
    by_cases hlt : idx < server.caches.length
    · simp [not_le.mpr hlt, hlt]
    · simp [not_lt.mp hlt, hlt]

theorem agreed_kvGet (idx : ℕ) (key : K) : Agreed nodes (.kvGet (.get idx key)) ↔
    ∀ server ∈ nodes, idx < server.caches.length → server.Runs idx := by
  refine forall₂_congr fun server _ => ?_
  rw [handle]
  by_cases hlt : idx < server.caches.length
  · simp only [not_le.mpr hlt, if_false, hlt, true_imp_iff]
    by_cases h : server.Runs idx
    · obtain ⟨r, c, hr, v, rfl⟩ := toCache_runs (.get key) h
      exact iff_of_true ⟨v, by rw [hr]⟩ h
    · obtain ⟨e, he⟩ := toCache_stops (.get key) h
      exact iff_of_false (by simp [he]) h
  · simp [not_lt.mp hlt, hlt]

theorem awaits_iff {node : Node K V} (key : K) (id : ℕ) : node.Awaits key id ↔ node.LocksRun := by
  have hacks : (acks (node.awaiting key id [])).Nodup := by
    simpa [acks, Node.awaiting, Turn.req?, LockRequest.ack?] using node.channels
  have hok : (Dlock.handler node.lockWorld (node.awaiting key id []) .spawn).1 = .ok () ↔
      node.LocksRun := by
    rw [Node.awaiting, Dlock.handler_snoc_ok]
    refine and_iff_left (Dlock.handleAwait_ok_iff.mpr fun hgone => ?_)
    rw [node.waits] at hgone
    cases hgone
  refine ⟨fun h => hok.mp h.1, fun h => ⟨hok.mpr h, ?_⟩⟩
  exact Dlock.answered_or_registered hacks (by simp [Node.awaiting]) (hok.mpr h)

theorem agreed_lockAwait (key : K) (id : ℕ) : Agreed nodes (.lockAwait (.lockAwait key id)) ↔
    ∀ server ∈ nodes, server.LocksRun :=
  forall₂_congr fun _ _ => awaits_iff key id

theorem agreed_notify : Agreed nodes (.notify .notify) := fun _ _ _ _ _ => ⟨_, rfl⟩

end Agreed

/-! ## What comes back -/

/-- The responses to a request that goes through the Raft. -/
def Gets : CacheRequest K V → CacheResponse V → Prop
  | .put _ _ _ _, r | .delete _ _, r | .clear _, r | .clearCounters _, r | .clearAll, r
  | .notify, r | .counterSet _ _ _, r | .counterDel _ _, r => r = .ok
  | .getRemove _ _, r | .replace _ _ _ _, r => ∃ v, r = .value v
  | .counterAdd _ _ _, r => ∃ v, r = .counterValue (some v)
  | .lock _ _, r => ∃ id, r = .lock (.locked id) ∨ r = .lock (.queued id)
  | .lockRelease _ _, r => r = .lock .released
  | .lockAlive _ _, r => (∃ id, r = .lock (.locked id)) ∨ r = .lock .released
  | .get _ _, _ | .lockAwait _ _, _ | .counterGet _ _, _ => False

theorem toLocks_gets {index : ℕ} {entry : LockEntry K} {node node' : Node K V} {state : LockState}
    (h : toLocks index entry node = (.ok state, node')) : match entry with
    | .lock _ _ => ∃ id, state = .locked id ∨ state = .queued id
    | .lockRelease _ _ => state = .released
    | .lockAlive _ _ => (∃ id, state = .locked id) ∨ state = .released := by
  rw [toLocks, get_bind] at h
  have happly := (unwrap_eq_ok.mp h).1
  have hgets : ∀ req : LockRequest K, req.ack? = some node.ack →
      reply (Dlock.handler node.lockWorld (node.turns ++ [.request req]) .spawn).2.log node.ack =
        some state → ∃ key, req.Gets key state node.ack := by
    intro req hack hreply
    refine Dlock.reply_gets ?_ (mem_append_right _ (mem_singleton.mpr rfl)) hack hreply
    simpa [acks, Turn.req?, hack] using node.channels
  unfold Dlock.applyLock at happly
  rcases hrun : Dlock.handler node.lockWorld
    (node.turns ++ [.request (entry.request index node.ack)]) .spawn with ⟨r, d⟩
  rw [hrun] at happly
  cases r with
  | error e => cases happly
  | ok u =>
    cases entry with
    | lockRelease => exact (Option.some.inj happly).symm
    | lock key id =>
      cases id with
      | none =>
        obtain ⟨key', hget⟩ := hgets (.lock key index node.ack) rfl
          ((congrArg (fun x => reply x.2.log node.ack) hrun).trans happly)
        cases hget with
        | lockLocked => exact ⟨_, .inl rfl⟩
        | lockQueued => exact ⟨_, .inr rfl⟩
      | some id =>
        obtain ⟨key', hget⟩ := hgets (.acquire key id node.ack) rfl
          ((congrArg (fun x => reply x.2.log node.ack) hrun).trans happly)
        cases hget with
        | acquireLocked => exact ⟨_, .inl rfl⟩
        | acquireQueued => exact ⟨_, .inr rfl⟩
    | lockAlive key id =>
      obtain ⟨key', hget⟩ := hgets (.alive key id node.ack) rfl
        ((congrArg (fun x => reply x.2.log node.ack) hrun).trans happly)
      cases hget with
      | aliveLocked => exact .inl ⟨_, rfl⟩
      | aliveReleased => exact .inr rfl

theorem apply_gets {index : ℕ} {req : CacheRequest K V} {node : Node K V} {r : CacheResponse V}
    (h : (apply index req node).1 = .ok r) : Gets req r := by
  have hrun : apply index req node = (.ok r, (apply index req node).2) := Prod.ext h rfl
  cases req with
  | get | lockAwait | counterGet => cases hrun
  | notify => exact (Except.ok.inj h).symm
  | getRemove | replace | counterAdd =>
    obtain ⟨reply, node1, -, hrest⟩ := bind_eq_ok.mp hrun
    obtain ⟨v, node2, -, hpure⟩ := bind_eq_ok.mp hrest
    cases hpure
    exact ⟨v, rfl⟩
  | clearAll =>
    obtain ⟨u, node1, -, hrest⟩ := bind_eq_ok.mp hrun
    obtain ⟨u', node2, -, hpure⟩ := bind_eq_ok.mp hrest
    cases hpure
    rfl
  | lock key id =>
    obtain ⟨state, node1, hlock, hpure⟩ := bind_eq_ok.mp hrun
    cases hpure
    obtain ⟨id', rfl | rfl⟩ := toLocks_gets hlock
    · exact ⟨id', .inl rfl⟩
    · exact ⟨id', .inr rfl⟩
  | lockRelease key id =>
    obtain ⟨state, node1, hlock, hpure⟩ := bind_eq_ok.mp hrun
    cases hpure
    cases toLocks_gets hlock
    rfl
  | lockAlive key id =>
    obtain ⟨state, node1, hlock, hpure⟩ := bind_eq_ok.mp hrun
    cases hpure
    obtain ⟨id', rfl⟩ | rfl := toLocks_gets hlock
    · exact .inl ⟨id', rfl⟩
    · exact .inr rfl
  | _ =>
    obtain ⟨reply, node1, -, hpure⟩ := bind_eq_ok.mp hrun
    cases hpure
    rfl

section Answers

variable {nodes : Set (Node K V)} {resp : ApiStreamResponsePayload V}

theorem responds_kv {req : CacheRequest K V} (h : Responds nodes (.kv req) resp) :
    ∃ res, resp = .kv res ∧ ∀ r, res = .ok r → Gets req r := by
  obtain ⟨server, -, h⟩ := h
  have hwrite : ((∃ e : RaftError, resp = .kv (.error (.clientWrite e))) ∨
      ∃ leader ∈ nodes, ∃ index r, (apply index req leader).1 = .ok r ∧ resp = .kv (.ok r)) →
      ∃ res, resp = .kv res ∧ ∀ r, res = .ok r → Gets req r := by
    rintro (⟨e, rfl⟩ | ⟨leader, -, index, r, hr, rfl⟩)
    · exact ⟨_, rfl, by simp⟩
    · refine ⟨_, rfl, fun r' hr' => ?_⟩
      cases hr'
      exact apply_gets hr
  rw [handle] at h
  cases hidx : cacheIdx req with
  | none =>
    rw [hidx] at h
    exact hwrite h
  | some idx =>
    rw [hidx] at h
    dsimp only at h
    split_ifs at h
    · exact ⟨_, h, by simp⟩
    · exact hwrite h

theorem responds_kvGet {idx : ℕ} {key : K} (h : Responds nodes (.kvGet (.get idx key)) resp) :
    ∃ res, resp = .kv res ∧ ∀ r, res = .ok r → ∃ v, r = .value v := by
  obtain ⟨server, -, h⟩ := h
  rw [handle] at h
  split_ifs at h
  · exact ⟨_, h, by simp⟩
  · obtain ⟨v, -, rfl⟩ := h
    exact ⟨_, rfl, fun r hr => ⟨v, (Except.ok.inj hr).symm⟩⟩

theorem responds_lockAwait {key : K} {id : ℕ}
    (h : Responds nodes (.lockAwait (.lockAwait key id)) resp) :
    resp = .lock (.ok (.locked id)) ∨ resp = .lock (.ok .released) := by
  obtain ⟨server, -, later, state, hacks, hreply, rfl⟩ := h
  obtain ⟨key', hgets⟩ := Dlock.reply_gets hacks
    (mem_append_right _ (mem_cons_self ..)) rfl hreply
  cases hgets with
  | awaitLocked => exact .inl rfl
  | awaitReleased => exact .inr rfl

theorem responds_notify (h : Responds nodes (.notify .notify) resp) : ∃ res, resp = .notify res := by
  obtain ⟨server, -, ⟨e, rfl⟩ | ⟨leader, -, index, r, -, rfl⟩⟩ := h
  · exact ⟨_, rfl⟩
  · exact ⟨_, rfl⟩

end Answers

end Hiqlite.Network
