import Hiqlite.Lib.Path
import Hiqlite.Lib.Table

/-!
# H3 — the RPCs of the Raft network

An RPC is put on the channel of a task (`ws_handler`), which writes it to a websocket under an id and
keeps its ack in `in_flight` until the response with that id is read. The server answers what it is
asked, in any order.

* **`Ok.step`**: every ack is in one place, and what waits was sent on this connection;
* **`rpc_gets_own_answer`**.

The ids are natural numbers. They count the requests that were handed over, which are no more than
the RPCs of the callers, so that the `usize` of the source does not wrap below `2 ^ 64` RPCs.
-/

namespace Hiqlite.Network.RaftClient

open List Option
open Multiset (nodup_of_le mem_of_le coe_add singleton_add nodup_add)

/-! ## Messages -/

/-- The variants of a request to the Raft groups and of the response to it. -/
inductive Kind where
  | appendDB
  | voteDB
  | snapshotDB
  | appendCache
  | voteCache
  | snapshotCache
deriving DecidableEq

/-- An RPC with the body `Q`. `tok` stands for its ack. -/
structure Rpc (Q : Type) where
  tok : ℕ
  kind : Kind
  body : Q
deriving DecidableEq

/-- `RaftStreamResponsePayload` -/
structure Payload (R : Type) where
  kind : Kind
  result : R
deriving DecidableEq

inductive RaftRequest (Q R : Type) where
  | rpc (r : Rpc Q)
  | streamResponse (requestId : ℕ) (payload : Payload R)
  | readerExit
  | shutdown
deriving DecidableEq

/-- The errors with which the task itself answers. -/
inductive Error where
  | connect
  | handOver
  | streamEnded
deriving DecidableEq

/-- A request as it was handed over to the writer of a connection. -/
structure Sent (Q : Type) where
  connection : ℕ
  requestId : ℕ
  rpc : Rpc Q
deriving DecidableEq

/-- What an ack was answered with, and while which connection was open. -/
structure Answer (R : Type) where
  ack : ℕ
  connection : ℕ
  result : Except Error (Payload R)

inductive Phase where
  | connecting
  | failing (left : ℕ)
  | connected
  | closing
  | stopped
  | panicked
deriving DecidableEq

structure Handler (Q R : Type) where
  requestId : ℕ
  inFlight : Table ℕ ℕ
  shutdown : Bool
  phase : Phase
  /-- `rx` -/
  queue : List (RaftRequest Q R)
  /-- `rx_read` of the last connection. -/
  read : List (RaftRequest Q R)
  connection : ℕ
  log : List (Rpc Q)
  sent : List (Sent Q)
  wire : List (Sent Q)
  served : List (Sent Q × Payload R)
  answers : List (Answer R)

inductive Event (R Q : Type) where
  /-- `NetworkConnectionStreaming::send` -/
  | send (kind : Kind) (body : Q)
  | drop
  | abort
  | raftStopped
  | connectError
  | tryRecv
  | retry
  | connect
  /-- The select takes a message of the reader or of the callers; the writer may be gone. -/
  | recv (fromReader writerGone : Bool)
  | recvError (disconnected : Bool)
  | close
  | respond (i : ℕ) (result : R)
  | readerExit

variable {Q R : Type}

namespace Handler

def start : Handler Q R :=
  { requestId := 0, inFlight := ∅, shutdown := false, phase := .connecting, queue := [], read := [],
    connection := 0, log := [], sent := [], wire := [], served := [], answers := [] }

def answer (s : Handler Q R) (ack : ℕ) (result : Except Error (Payload R)) : Handler Q R :=
  { s with answers := s.answers ++ [⟨ack, s.connection, result⟩] }

/-- One look at the channel while there is no connection. -/
def tryRecv (s : Handler Q R) (left : ℕ) : Handler Q R :=
  match s.queue with
  | [] => { s with phase := .failing left }
  | .rpc r :: queue => { s.answer r.tok (.error .connect) with queue := queue, phase := .failing left }
  | .streamResponse _ _ :: queue => { s with queue := queue, phase := .failing left }
  | .readerExit :: queue => { s with queue := queue, phase := .failing left }
  | .shutdown :: queue => { s with queue := queue, phase := .stopped }

def connect (s : Handler Q R) : Handler Q R :=
  if s.inFlight.entries.isEmpty then
    { s with connection := s.connection + 1, read := [], phase := .connected }
  else { s with phase := .panicked }

def receive (s : Handler Q R) (writerGone : Bool) : RaftRequest Q R → Handler Q R
  | .rpc r =>
    if writerGone then { s.answer r.tok (.error .handOver) with phase := .closing }
    else
      { s with
        inFlight := s.inFlight.insert s.requestId r.tok
        requestId := s.requestId + 1
        sent := s.sent ++ [⟨s.connection, s.requestId, r⟩]
        wire := s.wire ++ [⟨s.connection, s.requestId, r⟩] }
  | .streamResponse id payload =>
    match s.inFlight.lookup id with
    | none => s
    | some ack => { s with inFlight := s.inFlight.erase id }.answer ack (.ok payload)
  | .readerExit => { s with phase := .closing }
  | .shutdown => { s with shutdown := true, phase := .closing }

/-- The end of a connection: every ack in flight is answered with an error. -/
def close (s : Handler Q R) : Handler Q R :=
  { s with
    inFlight := ∅
    answers := s.answers ++ s.inFlight.entries.map fun e =>
      ⟨e.2, s.connection, .error .streamEnded⟩
    phase := if s.shutdown then .stopped else .connecting }

def step (s : Handler Q R) : Event R Q → Option (Handler Q R)
  | .send kind body =>
    let r := ⟨s.log.length, kind, body⟩
    some { s with log := s.log ++ [r], queue := s.queue ++ [.rpc r] }
  | .drop => some { s with queue := s.queue ++ [.shutdown] }
  | .abort => some { s with phase := .stopped }
  | .raftStopped => if s.phase = .connecting then some { s with phase := .stopped } else none
  | .connectError => if s.phase = .connecting then some { s with phase := .failing 3 } else none
  | .tryRecv =>
    match s.phase with
    | .failing (left + 1) => some (s.tryRecv left)
    | _ => none
  | .retry => if s.phase = .failing 0 then some { s with phase := .connecting } else none
  | .connect => if s.phase = .connecting then some s.connect else none
  | .recv fromReader writerGone =>
    if s.phase = .connected then
      if fromReader then
        match s.read with
        | [] => none
        | m :: read => some ({ s with read := read }.receive writerGone m)
      else
        match s.queue with
        | [] => none
        | m :: queue => some ({ s with queue := queue }.receive writerGone m)
    else none
  | .recvError disconnected =>
    if s.phase = .connected then
      some { s with shutdown := s.shutdown || disconnected, phase := .closing }
    else none
  | .close => if s.phase = .closing then some s.close else none
  | .respond i result => do
    let x ← s.wire[i]?
    let p : Payload R := ⟨x.rpc.kind, result⟩
    -- the response goes to the reader of the connection that the request came on
    some { s with
      wire := s.wire.eraseIdx i
      served := s.served ++ [(x, p)]
      read := if x.connection = s.connection then s.read ++ [.streamResponse x.requestId p]
        else s.read }
  | .readerExit => some { s with read := s.read ++ [.readerExit] }

/-! ## The invariant -/

def RaftRequest.tok? : RaftRequest Q R → Option ℕ
  | .rpc r => some r.tok
  | _ => none

def toks (l : List (RaftRequest Q R)) : Multiset ℕ := (l.filterMap RaftRequest.tok? : List ℕ)

def acks (s : Handler Q R) : Multiset ℕ :=
  toks s.queue + s.inFlight.values + (s.answers.map Answer.ack : List ℕ)

def unsent (s : Handler Q R) : Multiset ℕ :=
  toks s.queue + (s.sent.map (·.rpc.tok) : List ℕ)

def Idle (s : Handler Q R) : Prop := s.phase = .connecting ∨ ∃ n, s.phase = .failing n

/-- Every ack is in one place, ids are used once, and what waits in `in_flight` or was read belongs to
the connection that is open. -/
structure Ok (s : Handler Q R) : Prop where
  acks : s.acks.Nodup
  unsent : s.unsent.Nodup
  lt : ∀ k ∈ s.acks + s.unsent, k < s.log.length
  queue : ∀ id p, .streamResponse id p ∉ s.queue
  queued : ∀ r, .rpc r ∈ s.queue → s.log[r.tok]? = some r
  logged : ∀ x ∈ s.sent, s.log[x.rpc.tok]? = some x.rpc
  read : ∀ r, .rpc r ∉ s.read
  count : s.requestId = s.sent.length
  ids : ∀ x ∈ s.sent, x.requestId < s.requestId
  distinct : ∀ x ∈ s.sent, ∀ y ∈ s.sent, x.requestId = y.requestId → x = y
  wire : s.wire ⊆ s.sent
  served : ∀ x p, (x, p) ∈ s.served → x ∈ s.sent ∧ p.kind = x.rpc.kind
  responses : ∀ id p, .streamResponse id p ∈ s.read →
    ∃ x, (x, p) ∈ s.served ∧ x.requestId = id ∧ x.connection = s.connection
  waits : ∀ id k, k ∈ s.inFlight.lookup id →
    ∃ x ∈ s.sent, x.requestId = id ∧ x.rpc.tok = k ∧ x.connection = s.connection
  answers : ∀ a ∈ s.answers, ∀ p, a.result = .ok p →
    ∃ x, (x, p) ∈ s.served ∧ x.rpc.tok = a.ack ∧ x.connection = a.connection
  idle : s.Idle → s.inFlight = ∅
  phase : s.phase ≠ .panicked

variable {s t : Handler Q R}

theorem ok_start : (start : Handler Q R).Ok := by
  constructor <;> simp [start, Handler.acks, Handler.unsent, toks]

@[simp] theorem toks_nil : toks ([] : List (RaftRequest Q R)) = 0 := rfl

@[simp] theorem toks_rpc (r : Rpc Q) (l : List (RaftRequest Q R)) :
    toks (.rpc r :: l) = r.tok ::ₘ toks l := rfl

@[simp] theorem toks_shutdown (l : List (RaftRequest Q R)) : toks (.shutdown :: l) = toks l := rfl

@[simp] theorem toks_append (l1 l2 : List (RaftRequest Q R)) :
    toks (l1 ++ l2) = toks l1 + toks l2 := by
  rw [toks, filterMap_append]
  rfl

theorem toks_cons_le (m : RaftRequest Q R) (l : List (RaftRequest Q R)) :
    toks l ≤ toks (m :: l) := by
  cases m with
  | rpc r => exact Multiset.le_cons_self _ _
  | _ => exact le_rfl

/-- What a step may do that hands nothing over and hears nothing from the server. -/
structure Moves (s t : Handler Q R) : Prop where
  log : t.log = s.log
  requestId : t.requestId = s.requestId
  sent : t.sent = s.sent
  wire : t.wire = s.wire
  served : t.served = s.served
  acks : t.acks ≤ s.acks
  toks : toks t.queue ≤ toks s.queue
  queue : ∀ m ∈ t.queue, m ∈ s.queue ∨ m = .shutdown
  read : ∀ m ∈ t.read, m ∈ s.read ∨ m = .readerExit
  connection : t.connection = s.connection ∨ t.read = [] ∧ t.inFlight = ∅
  waits : ∀ id k, k ∈ t.inFlight.lookup id → k ∈ s.inFlight.lookup id
  answers : ∀ a ∈ t.answers, ∀ p, a.result = .ok p → a ∈ s.answers ∨
    a.connection = s.connection ∧ ∃ id, .streamResponse id p ∈ s.read ∧
      a.ack ∈ s.inFlight.lookup id
  idle : t.Idle → t.inFlight = ∅
  phase : t.phase ≠ .panicked

theorem Ok.of_moves (h : s.Ok) (hm : Moves s t) : t.Ok where
  acks := nodup_of_le hm.acks h.acks
  unsent := by
    rw [Handler.unsent, hm.sent]
    exact nodup_of_le (add_le_add_left hm.toks _) h.unsent
  lt k hk := by
    rw [hm.log]
    refine h.lt k (mem_of_le (add_le_add hm.acks ?_) hk)
    rw [Handler.unsent, hm.sent]
    exact add_le_add_left hm.toks _
  queue id p hp := h.queue id p ((hm.queue _ hp).resolve_right nofun)
  queued r hr := by
    rw [hm.log]
    exact h.queued r ((hm.queue _ hr).resolve_right nofun)
  logged := by
    rw [hm.log, hm.sent]
    exact h.logged
  count := by rw [hm.requestId, hm.sent, h.count]
  read r hr := by
    rcases hm.read _ hr with hr | hr
    · exact h.read r hr
    · cases hr
  ids := by
    rw [hm.sent, hm.requestId]
    exact h.ids
  distinct := hm.sent ▸ h.distinct
  wire := by
    rw [hm.wire, hm.sent]
    exact h.wire
  served := by
    rw [hm.served, hm.sent]
    exact h.served
  responses id p hp := by
    rcases hm.connection with hc | ⟨hread, -⟩
    · rw [hc, hm.served]
      rcases hm.read _ hp with hp | hp
      · exact h.responses id p hp
      · cases hp
    · rw [hread] at hp
      cases hp
  waits id k hk := by
    rcases hm.connection with hc | ⟨-, hempty⟩
    · rw [hc, hm.sent]
      exact h.waits id k (hm.waits id k hk)
    · rw [hempty] at hk
      cases hk
  answers a ha p hp := by
    rw [hm.served]
    rcases hm.answers a ha p hp with ha | ⟨hc, id, hread, hack⟩
    · exact h.answers a ha p hp
    · -- the response and the ack have the same id, so they belong to the same request
      obtain ⟨x, hx, hid, hconn⟩ := h.responses id p hread
      obtain ⟨y, hy, hid', htok, -⟩ := h.waits id a.ack hack
      have hxy : x = y := h.distinct x (h.served x p hx).1 y hy (hid.trans hid'.symm)
      exact ⟨x, hx, hxy ▸ htok, hconn.trans hc.symm⟩
  idle := hm.idle
  phase := hm.phase

/-! ## The steps -/

variable {p : Phase} {queue : List (RaftRequest Q R)}

theorem moves_phase (s : Handler Q R) (b : Bool) (hp : p ≠ .panicked)
    (hidle : p = .connecting ∨ (∃ n, p = .failing n) → s.inFlight = ∅) :
    Moves s { s with shutdown := b, phase := p } where
  log := rfl
  requestId := rfl
  sent := rfl
  wire := rfl
  served := rfl
  acks := le_rfl
  toks := le_rfl
  queue _ h := .inl h
  read _ h := .inl h
  connection := .inl rfl
  waits _ _ h := h
  answers _ h _ _ := .inl h
  idle := hidle
  phase := hp

theorem Idle.failing {left : ℕ} (h : s.phase = .failing left) : s.Idle := .inr ⟨left, h⟩

theorem moves_refuse {r : Rpc Q} (hq : s.queue = .rpc r :: queue) (e : Error) (hp : p ≠ .panicked)
    (hidle : p = .connecting ∨ (∃ n, p = .failing n) → s.inFlight = ∅) :
    Moves s { s.answer r.tok (.error e) with queue := queue, phase := p } :=
  { moves_phase s s.shutdown hp hidle with
    acks := le_of_eq (by
      simp only [Handler.acks, answer, hq, toks_rpc, map_append, ← coe_add]
      rw [← singleton_add, show ((([⟨r.tok, s.connection, .error e⟩] : List (Answer R)).map
        Answer.ack : List ℕ) : Multiset ℕ) = {r.tok} from rfl]
      abel)
    toks := by
      rw [hq]
      exact toks_cons_le _ _
    queue := fun m hm => by
      rw [hq]
      exact .inl (mem_cons_of_mem _ hm)
    answers := fun a ha p hok => by
      rcases mem_append.mp ha with ha | ha
      · exact .inl ha
      · rw [mem_singleton.mp ha] at hok
        cases hok }

theorem moves_skip {m : RaftRequest Q R} (hq : s.queue = m :: queue) (b : Bool) (hp : p ≠ .panicked)
    (hidle : p = .connecting ∨ (∃ n, p = .failing n) → s.inFlight = ∅) :
    Moves s { s with queue := queue, shutdown := b, phase := p } :=
  { moves_phase s b hp hidle with
    acks := by
      simp only [Handler.acks, hq, add_assoc]
      exact add_le_add_left (toks_cons_le _ _) _
    toks := by
      rw [hq]
      exact toks_cons_le _ _
    queue := fun m hm => by
      rw [hq]
      exact .inl (mem_cons_of_mem _ hm) }

theorem moves_tryRecv (h : s.Ok) {left : ℕ} (hphase : s.phase = .failing (left + 1)) :
    Moves s (s.tryRecv left) := by
  have hempty : s.inFlight = ∅ := h.idle (Idle.failing hphase)
  unfold Handler.tryRecv
  split
  · exact moves_phase s s.shutdown (by simp) fun _ => hempty
  · rename_i r queue hq
    exact moves_refuse hq .connect (by simp) fun _ => hempty
  -- what is not a request is left out
  all_goals
    rename_i queue hq
    exact moves_skip hq s.shutdown (by simp) fun _ => hempty

theorem moves_connect (h : s.Ok) (hphase : s.phase = .connecting) : Moves s s.connect := by
  have hempty : s.inFlight = ∅ := h.idle (.inl hphase)
  have hconnect : s.connect =
      { s with connection := s.connection + 1, read := [], phase := .connected } := by
    rw [Handler.connect, if_pos]
    rw [hempty]
    rfl
  rw [hconnect]
  exact { moves_phase s s.shutdown (p := .connected) (by simp) (by simp) with
    read := fun m hm => by cases hm
    connection := .inr ⟨rfl, hempty⟩
    idle := fun _ => hempty }

theorem moves_response (hphase : s.phase = .connected) {id : ℕ} {p : Payload R}
    {read : List (RaftRequest Q R)} (hread : s.read = .streamResponse id p :: read) (b : Bool) :
    Moves s ({ s with read := read }.receive b (.streamResponse id p)) := by
  have hsub : ∀ m ∈ read, m ∈ s.read ∨ m = .readerExit := fun m hm => by
    rw [hread]
    exact .inl (mem_cons_of_mem _ hm)
  have hbusy : ¬ s.Idle := by simp [Idle, hphase]
  have hquiet := moves_phase s s.shutdown (p := s.phase) (by simp [hphase]) fun hi => absurd hi hbusy
  cases hlook : s.inFlight.lookup id with
  | none =>
    have heq : { s with read := read }.receive b (.streamResponse id p) = { s with read := read } := by
      simp only [receive, hlook]
    rw [heq]
    exact { hquiet with read := hsub, connection := .inl rfl }
  | some ack =>
    have heq : { s with read := read }.receive b (.streamResponse id p) =
        { s with read := read, inFlight := s.inFlight.erase id }.answer ack (.ok p) := by
      simp only [receive, hlook]
    rw [heq]
    have hvalues := Table.values_erase s.inFlight id
    rw [hlook] at hvalues
    exact { hquiet with
      acks := le_of_eq (by
        simp only [Handler.acks, answer, map_append, ← coe_add, ← hvalues]
        rw [show ((([⟨ack, s.connection, .ok p⟩] : List (Answer R)).map Answer.ack : List ℕ) :
          Multiset ℕ) = {ack} from rfl, show (((some ack).toList : List ℕ) : Multiset ℕ) = {ack}
          from rfl]
        abel)
      read := hsub
      connection := .inl rfl
      waits := fun _ _ hk => Table.mem_lookup_erase hk
      answers := fun a ha p' hok => by
        rcases mem_append.mp ha with ha | ha
        · exact .inl ha
        · rw [mem_singleton.mp ha] at hok ⊢
          cases hok
          exact .inr ⟨rfl, id, hread ▸ mem_cons_self, hlook⟩
      idle := fun hi => absurd hi hbusy }

theorem moves_close (s : Handler Q R) : Moves s s.close :=
  { moves_phase s s.shutdown (p := .stopped) (by simp) (by simp) with
    acks := le_of_eq (by
      simp only [Handler.acks, close, List.map_append, ← coe_add, List.map_map,
        Table.values_empty]
      rw [show (List.map (Answer.ack ∘ fun e : (_ : ℕ) × ℕ =>
        (⟨e.2, s.connection, .error .streamEnded⟩ : Answer R)) s.inFlight.entries : Multiset ℕ) =
        s.inFlight.values from rfl]
      abel)
    connection := .inl rfl
    waits := fun _ _ hk => by cases hk
    answers := fun a ha p hok => by
      rcases mem_append.mp ha with ha | ha
      · exact .inl ha
      · obtain ⟨e, -, rfl⟩ := mem_map.mp ha
        cases hok
    idle := fun _ => rfl
    phase := by
      unfold close
      dsimp only
      split_ifs <;> simp }

theorem moves_readSkip {m : RaftRequest Q R} {read : List (RaftRequest Q R)}
    (hread : s.read = m :: read) (b : Bool) :
    Moves s { s with read := read, shutdown := b, phase := .closing } :=
  { moves_phase s b (p := .closing) (by simp) (by simp) with
    read := fun x hx => by
      rw [hread]
      exact .inl (mem_cons_of_mem _ hx)
    connection := .inl rfl }

theorem Ok.send (h : s.Ok) (kind : Kind) (body : Q) : Ok { s with
    log := s.log ++ [⟨s.log.length, kind, body⟩]
    queue := s.queue ++ [.rpc ⟨s.log.length, kind, body⟩] } := by
  have hnew : ∀ m : Multiset ℕ, m ≤ s.acks + s.unsent → s.log.length ∉ m := fun m hm hmem =>
    lt_irrefl _ (h.lt _ (mem_of_le hm hmem))
  have hlog {k : ℕ} {r : Rpc Q} (hk : s.log[k]? = some r) :
      (s.log ++ [⟨s.log.length, kind, body⟩])[k]? = some r := by
    rwa [List.getElem?_append_left (List.getElem?_eq_some_iff.mp hk).1]
  have hacks : Handler.acks { s with
      log := s.log ++ [⟨s.log.length, kind, body⟩]
      queue := s.queue ++ [.rpc ⟨s.log.length, kind, body⟩] } = s.log.length ::ₘ s.acks := by
    simp only [Handler.acks, toks_append, toks_rpc, toks_nil, ← singleton_add]
    abel
  have hunsent : Handler.unsent { s with
      log := s.log ++ [⟨s.log.length, kind, body⟩]
      queue := s.queue ++ [.rpc ⟨s.log.length, kind, body⟩] } = s.log.length ::ₘ s.unsent := by
    simp only [Handler.unsent, toks_append, toks_rpc, toks_nil, ← singleton_add]
    abel
  exact { h with
    acks := by
      rw [hacks]
      exact Multiset.nodup_cons.mpr ⟨hnew _ (Multiset.le_add_right _ _), h.acks⟩
    unsent := by
      rw [hunsent]
      exact Multiset.nodup_cons.mpr ⟨hnew _ (Multiset.le_add_left _ _), h.unsent⟩
    lt := fun k hk => by
      rw [hacks, hunsent] at hk
      have hold : k ∈ s.acks + s.unsent → k < s.log.length := h.lt k
      simp only [Multiset.mem_add, Multiset.mem_cons] at hk hold
      simp only [length_append, length_singleton]
      by_cases hkl : k = s.log.length
      · omega
      · have := hold (by tauto)
        omega
    queue := fun id p hm => by
      rcases mem_append.mp hm with hm | hm
      · exact h.queue id p hm
      · cases mem_singleton.mp hm
    queued := fun r hr => by
      rcases mem_append.mp hr with hr | hr
      · exact hlog (h.queued r hr)
      · cases mem_singleton.mp hr
        exact getElem?_concat_length
    logged := fun x hx => hlog (h.logged x hx) }

theorem Ok.handOver (h : s.Ok) (hphase : s.phase = .connected) {r : Rpc Q}
    (hq : s.queue = .rpc r :: queue) : Ok ({ s with queue := queue }.receive false (.rpc r)) := by
  have hnone : s.inFlight.lookup s.requestId = none := by
    rw [eq_none_iff_forall_not_mem]
    intro k hk
    obtain ⟨x, hx, hid, -⟩ := h.waits _ _ hk
    exact absurd (h.ids x hx) (by omega)
  have hvalues := Table.values_insert s.inFlight s.requestId r.tok
  rw [hnone] at hvalues
  have hvalues' : Table.values (s.inFlight.insert s.requestId r.tok) = r.tok ::ₘ s.inFlight.values := by
    simpa using hvalues
  have hacks : (({ s with queue := queue }).receive false (.rpc r)).acks = s.acks := by
    simp only [receive, Handler.acks, hq, toks_rpc, hvalues', Bool.false_eq_true, if_false,
      ← singleton_add]
    abel
  have hunsent : (({ s with queue := queue }).receive false (.rpc r)).unsent = s.unsent := by
    simp only [receive, Handler.unsent, hq, toks_rpc, Bool.false_eq_true, if_false, map_append,
      map_cons, map_nil, ← coe_add, ← singleton_add]
    rw [Multiset.coe_singleton]
    abel
  have hnew : ∀ {x : Sent Q}, x ∈ s.sent ++ [⟨s.connection, s.requestId, r⟩] →
      x ∈ s.sent ∨ x = ⟨s.connection, s.requestId, r⟩ := fun hx =>
    (mem_append.mp hx).imp id mem_singleton.mp
  have hconn : ({ s with queue := queue }.receive false (.rpc r)).phase = .connected := hphase
  exact {
    acks := hacks ▸ h.acks
    unsent := hunsent ▸ h.unsent
    lt := by
      rw [hacks, hunsent]
      exact h.lt
    queue := fun id p hm => h.queue id p (hq ▸ mem_cons_of_mem _ hm)
    queued := fun r' hr => h.queued r' (hq ▸ mem_cons_of_mem _ hr)
    logged := fun x hx => by
      rcases hnew hx with hx | rfl
      · exact h.logged x hx
      · exact h.queued r (hq ▸ mem_cons_self)
    read := h.read
    count := by
      change s.requestId + 1 = (s.sent ++ [_]).length
      rw [length_append, h.count]
      rfl
    ids := fun x hx => by
      rcases hnew hx with hx | rfl
      · exact Nat.lt_succ_of_lt (h.ids x hx)
      · exact Nat.lt_succ_self _
    distinct := fun x hx y hy hid => by
      rcases hnew hx with hx | rfl <;> rcases hnew hy with hy | rfl
      · exact h.distinct x hx y hy hid
      · exact absurd (h.ids x hx) (by rw [hid]; exact lt_irrefl _)
      · exact absurd (h.ids y hy) (by rw [← hid]; exact lt_irrefl _)
      · rfl
    wire := fun x hx => by
      rcases mem_append.mp hx with hx | hx
      · exact mem_append_left _ (h.wire hx)
      · exact mem_append_right _ hx
    served := fun x p hx => ⟨mem_append_left _ (h.served x p hx).1, (h.served x p hx).2⟩
    responses := h.responses
    waits := fun id k hk => by
      rcases Table.mem_lookup_insert hk with ⟨rfl, rfl⟩ | hk
      · exact ⟨_, mem_append_right _ (mem_singleton_self _), rfl, rfl, rfl⟩
      · obtain ⟨x, hx, hrest⟩ := h.waits id k hk
        exact ⟨x, mem_append_left _ hx, hrest⟩
    answers := h.answers
    idle := fun hi => by simp [Idle, hconn] at hi
    phase := by simp [hconn] }

theorem Ok.respond (h : s.Ok) {i : ℕ} {x : Sent Q} (hx : s.wire[i]? = some x) (result : R) :
    Ok { s with
      wire := s.wire.eraseIdx i
      served := s.served ++ [(x, ⟨x.rpc.kind, result⟩)]
      read := if x.connection = s.connection then
        s.read ++ [.streamResponse x.requestId ⟨x.rpc.kind, result⟩] else s.read } := by
  have hread : ∀ m ∈ (if x.connection = s.connection then
      s.read ++ [.streamResponse x.requestId ⟨x.rpc.kind, result⟩] else s.read),
      m ∈ s.read ∨ x.connection = s.connection ∧
        m = .streamResponse x.requestId ⟨x.rpc.kind, result⟩ := by
    intro m hm
    split_ifs at hm with hc
    · exact (mem_append.mp hm).imp id fun hm => ⟨hc, mem_singleton.mp hm⟩
    · exact .inl hm
  exact { h with
    read := fun r hr => by
      rcases hread _ hr with hr | ⟨-, hr⟩
      · exact h.read r hr
      · cases hr
    wire := fun y hy => h.wire (mem_of_mem_eraseIdx hy)
    served := fun y p hy => by
      rcases mem_append.mp hy with hy | hy
      · exact h.served y p hy
      · cases mem_singleton.mp hy
        exact ⟨h.wire (mem_of_getElem? hx), rfl⟩
    responses := fun id p hp => by
      rcases hread _ hp with hp | ⟨hc, hp⟩
      · obtain ⟨y, hy, hrest⟩ := h.responses id p hp
        exact ⟨y, mem_append_left _ hy, hrest⟩
      · cases hp
        exact ⟨x, mem_append_right _ (mem_singleton_self _), rfl, hc⟩
    answers := fun a ha p hp => by
      obtain ⟨y, hy, hrest⟩ := h.answers a ha p hp
      exact ⟨y, mem_append_left _ hy, hrest⟩ }

theorem Ok.recv (h : s.Ok) (hphase : s.phase = .connected) (fromReader writerGone : Bool)
    (ht : s.step (.recv fromReader writerGone) = some t) : t.Ok := by
  rw [step, if_pos hphase] at ht
  split_ifs at ht
  · cases hread : s.read with
    | nil =>
      rw [hread] at ht
      cases ht
    | cons m read =>
      rw [hread] at ht
      cases ht
      cases m with
      | rpc r => exact absurd (hread ▸ mem_cons_self) (h.read r)
      | streamResponse id p => exact h.of_moves (moves_response hphase hread writerGone)
      | readerExit => exact h.of_moves (moves_readSkip hread s.shutdown)
      | shutdown => exact h.of_moves (moves_readSkip hread true)
  · cases hq : s.queue with
    | nil =>
      rw [hq] at ht
      cases ht
    | cons m queue =>
      rw [hq] at ht
      cases ht
      cases m with
      | rpc r =>
        cases writerGone with
        | false => exact h.handOver hphase hq
        | true => exact h.of_moves (moves_refuse hq .handOver (by simp) (by simp))
      | streamResponse id p => exact absurd (hq ▸ mem_cons_self) (h.queue id p)
      | readerExit => exact h.of_moves (moves_skip hq s.shutdown (by simp) (by simp))
      | shutdown => exact h.of_moves (moves_skip hq true (by simp) (by simp))

theorem Ok.step {e : Event R Q} (h : s.Ok) (ht : s.step e = some t) : t.Ok := by
  cases e with
  | send kind body =>
    cases ht
    exact h.send kind body
  | drop =>
    cases ht
    exact h.of_moves { moves_phase s s.shutdown h.phase h.idle with
      acks := by simp [Handler.acks]
      toks := by simp
      queue := fun m hm => by simpa using hm
      connection := .inl rfl }
  | abort =>
    cases ht
    exact h.of_moves (moves_phase s s.shutdown (by simp) (by simp))
  | raftStopped =>
    obtain ⟨-, ⟨⟩⟩ := ite_none_right_eq_some.mp ht
    exact h.of_moves (moves_phase s s.shutdown (by simp) (by simp))
  | connectError =>
    obtain ⟨hphase, ⟨⟩⟩ := ite_none_right_eq_some.mp ht
    exact h.of_moves (moves_phase s s.shutdown (by simp) fun _ => h.idle (.inl hphase))
  | tryRecv =>
    rw [Handler.step] at ht
    split at ht
    · rename_i left hphase
      cases ht
      exact h.of_moves (moves_tryRecv h hphase)
    · cases ht
  | retry =>
    obtain ⟨hphase, ⟨⟩⟩ := ite_none_right_eq_some.mp ht
    exact h.of_moves (moves_phase s s.shutdown (by simp) fun _ => h.idle (Idle.failing hphase))
  | connect =>
    obtain ⟨hphase, ⟨⟩⟩ := ite_none_right_eq_some.mp ht
    exact h.of_moves (moves_connect h hphase)
  | recv fromReader writerGone =>
    by_cases hphase : s.phase = .connected
    · exact h.recv hphase fromReader writerGone ht
    · rw [Handler.step, if_neg hphase] at ht
      cases ht
  | recvError disconnected =>
    obtain ⟨-, ⟨⟩⟩ := ite_none_right_eq_some.mp ht
    exact h.of_moves (moves_phase s _ (by simp) (by simp))
  | close =>
    obtain ⟨-, ⟨⟩⟩ := ite_none_right_eq_some.mp ht
    exact h.of_moves (moves_close s)
  | respond i result =>
    obtain ⟨x, hx, ⟨⟩⟩ := bind_eq_some_iff.mp ht
    exact h.respond hx result
  | readerExit =>
    cases ht
    exact h.of_moves { moves_phase s s.shutdown h.phase h.idle with
      read := fun m hm => by simpa using hm
      connection := .inl rfl }

/-- **Each RPC gets its own answer.** No ack is answered twice, and an answer that is not an error
is the response of the server to that very RPC of the caller, read on the connection that the RPC was
sent on. Ids do not wrap while there are fewer than `2 ^ 64` RPCs. -/
theorem rpc_gets_own_answer {es : List (Event R Q)}
    (hrun : Path (fun s e t => Handler.step s e = some t) .start es s) :
    (s.answers.map Answer.ack).Nodup ∧
    (∀ a ∈ s.answers, ∀ p, a.result = .ok p → ∃ x ∈ s.sent, x.rpc.tok = a.ack ∧
      s.log[a.ack]? = some x.rpc ∧ (x, p) ∈ s.served ∧ p.kind = x.rpc.kind ∧
      x.connection = a.connection ∧ ∀ y ∈ s.sent, y.rpc.tok = a.ack → y = x) ∧
    s.phase ≠ .panicked ∧ s.requestId ≤ s.log.length := by
  have h : s.Ok := hrun.invariant (I := fun _ s => s.Ok) ok_start fun _ _ _ _ h ht => h.step ht
  have honce := h.unsent
  rw [Handler.unsent, nodup_add] at honce
  have htoks : (s.sent.map (·.rpc.tok)).Nodup := Multiset.coe_nodup.mp honce.2.1
  refine ⟨?_, fun a ha p hp => ?_, h.phase, ?_⟩
  · have hnodup := h.acks
    rw [Handler.acks, nodup_add] at hnodup
    exact Multiset.coe_nodup.mp hnodup.2.1
  · obtain ⟨x, hx, htok, hconn⟩ := h.answers a ha p hp
    obtain ⟨hsent, hkind⟩ := h.served x p hx
    refine ⟨x, hsent, htok, htok ▸ h.logged x hsent, hx, hkind, hconn, fun y hy hyk => ?_⟩
    exact inj_on_of_nodup_map htoks hy hsent (hyk.trans htok.symm)
  · -- every request is another RPC of the log
    have hsub : s.sent.map (·.rpc.tok) ⊆ range s.log.length := fun k hk => by
      obtain ⟨x, hx, rfl⟩ := List.mem_map.mp hk
      exact List.mem_range.mpr (List.getElem?_eq_some_iff.mp (h.logged x hx)).1
    have := (List.subperm_of_subset htoks hsub).length_le
    rwa [length_map, length_range, ← h.count] at this

/-- A vote is lost with its connection, and the next one is answered. -/
def twoVotes : List (Event ℕ ℕ) :=
  [.send .voteDB 7, .connect, .recv false false, .readerExit, .recv true false, .close, .connect,
    .send .voteDB 8, .recv false false, .respond 0 1, .respond 0 2, .recv true false]

theorem rpc_gets_own_answer_vote : ∃ s : Handler ℕ ℕ, twoVotes.foldlM Handler.step .start = some s ∧
    s.answers = [⟨0, 1, .error .streamEnded⟩, ⟨1, 2, .ok ⟨.voteDB, 2⟩⟩] ∧
    ∀ a ∈ s.answers, ∀ p, a.result = .ok p → ∃ x ∈ s.sent, x.rpc.tok = a.ack ∧
      s.log[a.ack]? = some x.rpc ∧ (x, p) ∈ s.served ∧ p.kind = x.rpc.kind ∧
      x.connection = a.connection ∧ ∀ y ∈ s.sent, y.rpc.tok = a.ack → y = x := by
  have hrun : ∃ s, twoVotes.foldlM Handler.step .start = some s ∧
    s.answers = [⟨0, 1, .error .streamEnded⟩, ⟨1, 2, .ok ⟨.voteDB, 2⟩⟩] := ⟨_, rfl, rfl⟩
  obtain ⟨s, hs, hanswers⟩ := hrun
  exact ⟨s, hs, hanswers, (rpc_gets_own_answer (Path.of_foldlM hs)).2.1⟩

end Handler

end Hiqlite.Network.RaftClient
