import Hiqlite.Lib.Path
import Hiqlite.Lib.Table

/-!
# N1 — the client stream

All requests to the leader go over one websocket, which a manager task (`client_stream`) opens again
when it breaks. A response finds its caller by the request id.

* **`Ok.step`**: acks are neither lost nor doubled;
* **`answers_reach_callers`**: with ids from one counter; `two_counters_mix_up_answers`.
-/

namespace Hiqlite.Client

open List Option
open Multiset (singleton_add nodup_add nodup_of_le mem_of_le coe_add coe_singleton)

inductive Producer
  | client
  /-- The backup endpoint, by way of `AppState`. -/
  | appState
  deriving DecidableEq

/-- A request with the body `Q`. `tok` stands for its ack. -/
structure Request (Q : Type) where
  producer : Producer
  count : ℕ
  tok : ℕ
  body : Q
  deriving DecidableEq

/-- The request id: the counters are `usize`. -/
def Request.id {Q : Type} (r : Request Q) : ℕ := r.count % 2 ^ 64

inductive StreamError
  | connect
  | leaderChange
  deriving DecidableEq

inductive Phase
  | connected
  | closing (shutdown : Bool)
  | stopped
  deriving DecidableEq

/-- The producers, the manager and the server with its responses `R`. -/
structure Stream (Q R : Type) where
  /-- `Client::request_id` -/
  clientId : ℕ
  /-- `AppState::client_request_id` -/
  appId : ℕ
  log : List (Request Q)
  queue : List (Request Q)
  inFlight : Table ℕ ℕ
  inFlightBuf : Table ℕ ℕ
  awaitingTimeout : Bool
  phase : Phase
  /-- Requests that were written to this connection or to an earlier one. -/
  wire : List (Request Q)
  stale : List (Request Q)
  responses : List (ℕ × R)
  served : List (ℕ × R)
  answers : List (ℕ × Except StreamError R)
  overwritten : List ℕ

/-- One step of a producer, the manager or the server. -/
inductive Event (Q R : Type)
  | request (p : Producer) (body : Q)
  /-- The client takes an id for its other stream. -/
  | otherStream
  | accept (i : ℕ)
  | refuse (i : ℕ)
  /-- The server produces the response to a request, also of an earlier connection. -/
  | serve (i : ℕ) (r : R)
  | serveStale (i : ℕ) (r : R)
  | streamResponse
  | leaderChange
  /-- A keepalive ping fails, or there was no frame for too long. -/
  | connectionLost
  | readerError (shutdown : Bool)
  | cleanupBuffer
  | shutdown
  /-- A response that was read when the inner loop is left. -/
  | leftover
  | reconnect
  | stop

variable {Q R : Type}

namespace Stream

def start : Stream Q R :=
  { clientId := 0, appId := 0, log := [], queue := [], inFlight := ∅, inFlightBuf := ∅,
    awaitingTimeout := true, phase := .closing false, wire := [], stale := [], responses := [],
    served := [], answers := [], overwritten := [] }

def counter (s : Stream Q R) : Producer → ℕ
  | .client => s.clientId
  | .appState => s.appId

def newRequestId (s : Stream Q R) : Producer → Stream Q R
  | .client => { s with clientId := s.clientId + 1 }
  | .appState => { s with appId := s.appId + 1 }

/-- Answer all acks of `in_flight` with an error. -/
def drain (s : Stream Q R) (e : StreamError) : Stream Q R :=
  { s with
    inFlight := ∅
    answers := s.answers ++ s.inFlight.entries.map fun x => (x.2, .error e) }

def tryForwardResponse (s : Stream Q R) (awaitingTimeout : Bool) (resp : ℕ × R) : Stream Q R :=
  match s.inFlight.lookup resp.1 with
  | some ack => { s with
      inFlight := s.inFlight.erase resp.1
      answers := s.answers ++ [(ack, .ok resp.2)] }
  | none =>
    if awaitingTimeout then
      match s.inFlightBuf.lookup resp.1 with
      | some ack => { s with
          inFlightBuf := s.inFlightBuf.erase resp.1
          answers := s.answers ++ [(ack, .ok resp.2)] }
      | none => s
    else s

/-- A new connection: the acks in flight go to the buffer. -/
def connect (s : Stream Q R) : Stream Q R :=
  { s with
    inFlight := ∅
    inFlightBuf := s.inFlight ∪ s.inFlightBuf
    overwritten := s.overwritten ++ Table.overlap s.inFlight s.inFlightBuf
    awaitingTimeout := true
    phase := .connected
    wire := []
    stale := s.stale ++ s.wire
    responses := [] }

def step (s : Stream Q R) : Event Q R → Option (Stream Q R)
  | .request p body =>
    let r := ⟨p, s.counter p, s.log.length, body⟩
    some { s.newRequestId p with log := s.log ++ [r], queue := s.queue ++ [r] }
  | .otherStream => some (s.newRequestId .client)
  | .accept i => do
    let r ← s.queue[i]?
    if s.phase = .connected then
      some { s with
        queue := s.queue.eraseIdx i
        inFlight := s.inFlight.insert r.id r.tok
        overwritten := s.overwritten ++ (s.inFlight.lookup r.id).toList
        wire := s.wire ++ [r] }
    else none
  | .refuse i => do
    let r ← s.queue[i]?
    if s.phase = .connected then
      some { s with
        queue := s.queue.eraseIdx i
        answers := s.answers ++ [(r.tok, .error .connect)]
        phase := .closing false }
    else none
  | .serve i resp => do
    let r ← s.wire[i]?
    some { s with
      wire := s.wire.eraseIdx i
      responses := s.responses ++ [(r.id, resp)]
      served := s.served ++ [(r.tok, resp)] }
  | .serveStale i resp => do
    let r ← s.stale[i]?
    some { s with stale := s.stale.eraseIdx i, served := s.served ++ [(r.tok, resp)] }
  | .streamResponse =>
    match s.phase, s.responses with
    | .connected, resp :: rest =>
      some (({ s with responses := rest } : Stream Q R).tryForwardResponse s.awaitingTimeout resp)
    | _, _ => none
  | .leaderChange =>
    if s.phase = .connected then some { s.drain .leaderChange with phase := .closing false }
    else none
  | .connectionLost =>
    if s.phase = .connected then some { s.drain .connect with phase := .closing false } else none
  | .readerError shutdown =>
    if s.phase = .connected then some { s with phase := .closing shutdown } else none
  | .cleanupBuffer =>
    if s.phase = .connected then
      some { s with
        inFlightBuf := ∅
        answers := s.answers ++ s.inFlightBuf.entries.map fun x => (x.2, .error .connect)
        awaitingTimeout := false }
    else none
  | .shutdown => if s.phase = .connected then some { s with phase := .closing true } else none
  | .leftover =>
    match s.phase, s.responses with
    | .closing _, resp :: rest =>
      some (({ s with responses := rest } : Stream Q R).tryForwardResponse false resp)
    | _, _ => none
  | .reconnect => if s.phase = .closing false then some s.connect else none
  | .stop =>
    if s.phase = .closing true then
      some { s with
        inFlight := ∅
        inFlightBuf := ∅
        phase := .stopped
        wire := []
        stale := s.stale ++ s.wire
        responses := [] }
    else none

/-! ## The invariant -/

def toks (l : List (Request Q)) : Multiset ℕ := (l.map Request.tok : List ℕ)

def acks (s : Stream Q R) : Multiset ℕ :=
  toks s.queue + s.inFlight.values + s.inFlightBuf.values + (s.overwritten : Multiset ℕ) +
    (s.answers.map Prod.fst : List ℕ)

def requests (s : Stream Q R) : Multiset ℕ :=
  toks s.queue + toks s.wire + toks s.stale + (s.served.map Prod.fst : List ℕ)

def Waits (s : Stream Q R) (id k : ℕ) : Prop :=
  k ∈ s.inFlight.lookup id ∨ k ∈ s.inFlightBuf.lookup id

/-- What a step of the manager or the server may do. -/
structure Moves (s t : Stream Q R) : Prop where
  log : t.log = s.log
  counter : ∀ p, t.counter p = s.counter p
  acks : t.acks ≤ s.acks
  requests : t.requests ≤ s.requests
  held : ∀ r, r ∈ t.queue ∨ r ∈ t.wire ∨ r ∈ t.stale → r ∈ s.queue ∨ r ∈ s.wire ∨ r ∈ s.stale
  waits : ∀ id k, t.Waits id k → s.Waits id k ∨ ∃ r ∈ s.queue, r.tok = k ∧ r.id = id
  served : s.served ⊆ t.served
  responses : ∀ x ∈ t.responses,
    x ∈ s.responses ∨ ∃ r ∈ s.wire, r.id = x.1 ∧ (r.tok, x.2) ∈ t.served
  answers : ∀ k r, (k, .ok r) ∈ t.answers →
    (k, .ok r) ∈ s.answers ∨ ∃ id, s.Waits id k ∧ (id, r) ∈ s.responses
  overwritten : ∀ k ∈ t.overwritten, k ∈ s.overwritten ∨
    (∃ r ∈ s.queue, k ∈ s.inFlight.lookup r.id) ∨
    ∃ id, (s.inFlight.lookup id).isSome ∧ k ∈ s.inFlightBuf.lookup id

def Distinct (s : Stream Q R) : Prop := ∀ a ∈ s.log, ∀ b ∈ s.log, a.id = b.id → a = b

/-- Acks and requests are in one place each, and answers belong to their ids. -/
structure Ok (s : Stream Q R) : Prop where
  tok : s.log.map Request.tok = range s.log.length
  count : ∀ r ∈ s.log, r.count < s.counter r.producer
  increasing : s.log.Pairwise fun a b => a.producer = b.producer → a.count < b.count
  held : ∀ r, r ∈ s.queue ∨ r ∈ s.wire ∨ r ∈ s.stale → r ∈ s.log
  acks : s.acks.Nodup
  acks_lt : ∀ k ∈ s.acks, k < s.log.length
  requests : s.requests.Nodup
  requests_lt : ∀ k ∈ s.requests, k < s.log.length
  waits : ∀ id k, s.Waits id k → ∃ r ∈ s.log, r.tok = k ∧ r.id = id
  responses : ∀ x ∈ s.responses, ∃ r ∈ s.log, r.id = x.1 ∧ (r.tok, x.2) ∈ s.served
  answers : ∀ k r, (k, .ok r) ∈ s.answers →
    ∃ a ∈ s.log, ∃ b ∈ s.log, a.tok = k ∧ a.id = b.id ∧ (b.tok, r) ∈ s.served
  overwritten : s.Distinct → s.overwritten = []

variable {s t : Stream Q R} {r : Request Q} {i : ℕ}

theorem ok_start : (start : Stream Q R).Ok := by
  constructor <;> simp [start, acks, requests, toks, Waits, Distinct]

theorem toks_append (l1 l2 : List (Request Q)) : toks (l1 ++ l2) = toks l1 + toks l2 := by
  simp [toks]

theorem mem_toks {l : List (Request Q)} (h : r ∈ l) : r.tok ∈ toks l :=
  Multiset.mem_coe.mpr (mem_map_of_mem h)

theorem toks_eraseIdx {l : List (Request Q)} (h : l[i]? = some r) :
    toks l = {r.tok} + toks (l.eraseIdx i) := by
  obtain ⟨hi, rfl⟩ := List.getElem?_eq_some_iff.mp h
  rw [singleton_add]
  exact (Multiset.coe_eq_coe.mpr ((getElem_cons_eraseIdx_perm hi).map Request.tok)).symm

namespace Ok

theorem eq_of_tok (h : s.Ok) {a b : Request Q} (ha : a ∈ s.log) (hb : b ∈ s.log)
    (ht : a.tok = b.tok) : a = b :=
  inj_on_of_nodup_map (h.tok ▸ nodup_range) ha hb ht

theorem disjoint (h : s.Ok) : Disjoint (toks s.queue) s.inFlight.values ∧
    Disjoint (toks s.queue) s.inFlightBuf.values ∧
    Disjoint s.inFlight.values s.inFlightBuf.values := by
  have hnodup := h.acks
  simp only [Stream.acks, nodup_add, Multiset.disjoint_add_left] at hnodup
  obtain ⟨⟨⟨⟨-, -, hqf⟩, -, hqb, hfb⟩, -⟩, -⟩ := hnodup
  exact ⟨hqf, hqb, hfb⟩

theorem not_overwritten (h : s.Ok) (hd : s.Distinct) {k : ℕ} :
    ¬ ((∃ r ∈ s.queue, k ∈ s.inFlight.lookup r.id) ∨
      ∃ id, (s.inFlight.lookup id).isSome ∧ k ∈ s.inFlightBuf.lookup id) := by
  obtain ⟨hqf, -, hfb⟩ := h.disjoint
  rintro (⟨r, hr, hk⟩ | ⟨id, hsome, hk⟩)
  · obtain ⟨a, ha, rfl, hid⟩ := h.waits _ _ (.inl hk)
    have hra : a = r := hd a ha r (h.held r (.inl hr)) hid
    exact Multiset.disjoint_left.mp hqf (mem_toks hr) (Table.mem_values.mpr ⟨_, hra ▸ hk⟩)
  · obtain ⟨k', hk'⟩ := isSome_iff_exists.mp hsome
    obtain ⟨a, ha, rfl, hid⟩ := h.waits _ _ (.inr hk)
    obtain ⟨b, hb, rfl, hid'⟩ := h.waits _ _ (.inl hk')
    have hab : a = b := hd a ha b hb (hid.trans hid'.symm)
    exact Multiset.disjoint_left.mp hfb (Table.mem_values.mpr ⟨_, hk'⟩)
      (Table.mem_values.mpr ⟨_, hab ▸ hk⟩)

theorem of_moves (h : s.Ok) (hm : Moves s t) : t.Ok where
  tok := hm.log ▸ h.tok
  count r hr := by
    rw [hm.log] at hr
    rw [hm.counter]
    exact h.count r hr
  increasing := hm.log ▸ h.increasing
  held r hr := by
    rw [hm.log]
    exact h.held r (hm.held r hr)
  acks := nodup_of_le hm.acks h.acks
  acks_lt k hk := by
    rw [hm.log]
    exact h.acks_lt k (mem_of_le hm.acks hk)
  requests := nodup_of_le hm.requests h.requests
  requests_lt k hk := by
    rw [hm.log]
    exact h.requests_lt k (mem_of_le hm.requests hk)
  waits id k hk := by
    rw [hm.log]
    rcases hm.waits id k hk with hk | ⟨r, hr, rfl, hid⟩
    · exact h.waits id k hk
    · exact ⟨r, h.held r (.inl hr), rfl, hid⟩
  responses x hx := by
    rw [hm.log]
    rcases hm.responses x hx with hx | ⟨r, hr, hid, hserved⟩
    · obtain ⟨r, hr, hid, hserved⟩ := h.responses x hx
      exact ⟨r, hr, hid, hm.served hserved⟩
    · exact ⟨r, h.held r (.inr (.inl hr)), hid, hserved⟩
  answers k r hk := by
    rw [hm.log]
    rcases hm.answers k r hk with hk | ⟨id, hw, hresp⟩
    · obtain ⟨a, ha, b, hb, hak, hab, hserved⟩ := h.answers k r hk
      exact ⟨a, ha, b, hb, hak, hab, hm.served hserved⟩
    · obtain ⟨a, ha, hak, haid⟩ := h.waits id k hw
      obtain ⟨b, hb, hbid, hserved⟩ := h.responses _ hresp
      exact ⟨a, ha, b, hb, hak, haid.trans hbid.symm, hm.served hserved⟩
  overwritten hd := by
    rw [Distinct, hm.log] at hd
    refine eq_nil_iff_forall_not_mem.mpr fun k hk => ?_
    rcases hm.overwritten k hk with hk | hk
    · rw [h.overwritten hd] at hk
      cases hk
    · exact h.not_overwritten hd hk

end Ok

theorem Moves.refl_phase (s : Stream Q R) (p : Phase) : Moves s { s with phase := p } where
  log := rfl
  counter _ := rfl
  acks := le_rfl
  requests := le_rfl
  held _ h := h
  waits _ _ h := .inl h
  served _ h := h
  responses _ h := .inl h
  answers _ _ h := .inl h
  overwritten _ h := .inl h

theorem moves_accept (h : s.queue[i]? = some r) : Moves s { s with
    queue := s.queue.eraseIdx i
    inFlight := s.inFlight.insert r.id r.tok
    overwritten := s.overwritten ++ (s.inFlight.lookup r.id).toList
    wire := s.wire ++ [r] } := by
  have hr : r ∈ s.queue := mem_of_getElem? h
  have herase : ∀ {x}, x ∈ s.queue.eraseIdx i → x ∈ s.queue := fun hx => mem_of_mem_eraseIdx hx
  have hq := toks_eraseIdx h
  refine ⟨rfl, fun p => by cases p <;> rfl, le_of_eq ?_, le_of_eq ?_, ?_, ?_, fun _ hx => hx,
    fun _ hx => .inl hx, fun _ _ hx => .inl hx, ?_⟩
  · have hi := Table.values_insert s.inFlight r.id r.tok
    rw [← singleton_add] at hi
    simp only [acks, hq, ← coe_add]
    calc toks (s.queue.eraseIdx i) + Table.values (s.inFlight.insert r.id r.tok) +
          s.inFlightBuf.values + (↑s.overwritten + ↑(s.inFlight.lookup r.id).toList) +
          ↑(s.answers.map Prod.fst)
        = toks (s.queue.eraseIdx i) + (Table.values (s.inFlight.insert r.id r.tok) +
          ↑(s.inFlight.lookup r.id).toList) + s.inFlightBuf.values + ↑s.overwritten +
          ↑(s.answers.map Prod.fst) := by abel
      _ = {r.tok} + toks (s.queue.eraseIdx i) + s.inFlight.values + s.inFlightBuf.values +
          ↑s.overwritten + ↑(s.answers.map Prod.fst) := by rw [hi]; abel
  · simp only [requests, hq, toks_append]
    have : toks [r] = {r.tok} := rfl
    rw [this]
    abel
  · rintro x (hx | hx | hx)
    · exact .inl (herase hx)
    · rcases mem_append.mp hx with hx | hx
      · exact .inr (.inl hx)
      · exact .inl (mem_singleton.mp hx ▸ hr)
    · exact .inr (.inr hx)
  · rintro id k (hk | hk)
    · rcases Table.mem_lookup_insert hk with ⟨rfl, rfl⟩ | hk
      · exact .inr ⟨r, hr, rfl, rfl⟩
      · exact .inl (.inl hk)
    · exact .inl (.inr hk)
  · intro k hk
    rcases mem_append.mp hk with hk | hk
    · exact .inl hk
    · exact .inr (.inl ⟨r, hr, mem_toList.mp hk⟩)

theorem fst_append {V : Type} (l : List (ℕ × V)) (k : ℕ) (x : V) :
    ((l ++ [(k, x)]).map Prod.fst : Multiset ℕ) = (l.map Prod.fst : Multiset ℕ) + {k} := by
  rw [map_append, ← coe_add]
  rfl

theorem moves_refuse (h : s.queue[i]? = some r) (p : Phase) : Moves s { s with
    queue := s.queue.eraseIdx i
    answers := s.answers ++ [(r.tok, .error .connect)]
    phase := p } :=
  { Moves.refl_phase s p with
    acks := le_of_eq (by
      simp only [acks, toks_eraseIdx h, fst_append]
      abel)
    requests := by
      simp only [requests, toks_eraseIdx h, add_assoc]
      exact le_add_self
    held := fun x hx => hx.imp mem_of_mem_eraseIdx id
    answers := fun k r hk => by
      rcases mem_append.mp hk with hk | hk
      · exact .inl hk
      · simp at hk }

theorem moves_serve (h : s.wire[i]? = some r) (x : R) : Moves s { s with
    wire := s.wire.eraseIdx i
    responses := s.responses ++ [(r.id, x)]
    served := s.served ++ [(r.tok, x)] } :=
  { Moves.refl_phase s s.phase with
    requests := le_of_eq (by
      simp only [requests, toks_eraseIdx h, fst_append]
      abel)
    held := fun y hy => hy.imp id (Or.imp mem_of_mem_eraseIdx id)
    served := fun y hy => mem_append_left _ hy
    responses := fun y hy => by
      rcases mem_append.mp hy with hy | hy
      · exact .inl hy
      · rw [mem_singleton.mp hy]
        exact .inr ⟨r, mem_of_getElem? h, rfl, by simp⟩ }

theorem moves_serveStale (h : s.stale[i]? = some r) (x : R) : Moves s { s with
    stale := s.stale.eraseIdx i
    served := s.served ++ [(r.tok, x)] } :=
  { Moves.refl_phase s s.phase with
    requests := le_of_eq (by
      simp only [requests, toks_eraseIdx h, fst_append]
      abel)
    held := fun y hy => hy.imp id (Or.imp id mem_of_mem_eraseIdx)
    served := fun y hy => mem_append_left _ hy
    responses := fun y hy => .inl hy }

variable {k : ℕ} {x : R} {e : Event Q R}

theorem not_mem_errors {l : List (Sigma fun _ : ℕ => ℕ)} {e : StreamError} :
    (k, .ok x) ∉ l.map (fun y => (y.2, (.error e : Except StreamError R))) := by
  simp

theorem errors_fst (l : List (Sigma fun _ : ℕ => ℕ)) (e : StreamError) :
    ((l.map fun y => (y.2, (.error e : Except StreamError R))).map Prod.fst : Multiset ℕ) =
      Table.listValues l := by
  simp [Table.listValues, Function.comp_def]

theorem moves_drain (s : Stream Q R) (e : StreamError) (p : Phase) :
    Moves s { s.drain e with phase := p } :=
  { Moves.refl_phase s p with
    acks := le_of_eq (by
      simp only [acks, drain, map_append, ← coe_add, errors_fst, Table.values_empty]
      simp only [Table.values]
      abel)
    waits := fun id k hk => by
      rcases hk with hk | hk
      · simp [drain] at hk
      · exact .inl (.inr hk)
    answers := fun k x hk => by
      rcases mem_append.mp hk with hk | hk
      · exact .inl hk
      · exact absurd hk not_mem_errors }

theorem moves_cleanupBuffer (s : Stream Q R) : Moves s { s with
    inFlightBuf := ∅
    answers := s.answers ++ s.inFlightBuf.entries.map fun x => (x.2, .error .connect)
    awaitingTimeout := false } :=
  { Moves.refl_phase s s.phase with
    acks := le_of_eq (by
      simp only [acks, map_append, ← coe_add, errors_fst, Table.values_empty]
      simp only [Table.values]
      abel)
    waits := fun id k hk => by
      rcases hk with hk | hk
      · exact .inl (.inl hk)
      · simp at hk
    answers := fun k x hk => by
      rcases mem_append.mp hk with hk | hk
      · exact .inl hk
      · exact absurd hk not_mem_errors
    overwritten := fun k hk => .inl hk }

theorem moves_connect (s : Stream Q R) : Moves s s.connect where
  log := rfl
  counter p := by cases p <;> rfl
  acks := le_of_eq (by
    have hu := Table.values_union s.inFlight s.inFlightBuf
    simp only [acks, connect, ← coe_add, Table.values_empty]
    calc toks s.queue + 0 + Table.values (s.inFlight ∪ s.inFlightBuf) +
          (↑s.overwritten + ↑(Table.overlap s.inFlight s.inFlightBuf)) + ↑(s.answers.map Prod.fst)
        = toks s.queue + (Table.values (s.inFlight ∪ s.inFlightBuf) +
          ↑(Table.overlap s.inFlight s.inFlightBuf)) + ↑s.overwritten +
          ↑(s.answers.map Prod.fst) := by abel
      _ = _ := by rw [hu]; abel)
  requests := le_of_eq (by
    simp only [requests, connect, toks_append]
    have : toks ([] : List (Request Q)) = 0 := rfl
    rw [this]
    abel)
  held r hr := by
    rcases hr with hr | hr | hr
    · exact .inl hr
    · simp [connect] at hr
    · rcases mem_append.mp hr with hr | hr
      · exact .inr (.inr hr)
      · exact .inr (.inl hr)
  waits id k hk := by
    rcases hk with hk | hk
    · simp [connect] at hk
    · exact .inl (Table.mem_lookup_of_union hk)
  served _ h := h
  responses x hx := by simp [connect] at hx
  answers _ _ h := .inl h
  overwritten k hk := by
    rcases mem_append.mp hk with hk | hk
    · exact .inl hk
    · obtain ⟨id, k', hk', hk⟩ := Table.mem_overlap hk
      exact .inr (.inr ⟨id, isSome_iff_exists.mpr ⟨k', hk'⟩, hk⟩)

theorem answers_append {id : ℕ} (hw : s.Waits id k) (hx : (id, x) ∈ s.responses) {k' : ℕ} {x' : R}
    (h : (k', .ok x') ∈ s.answers ++ [(k, .ok x)]) :
    (k', .ok x') ∈ s.answers ∨ ∃ id, s.Waits id k' ∧ (id, x') ∈ s.responses := by
  rcases mem_append.mp h with h | h
  · exact .inl h
  · cases mem_singleton.mp h
    exact .inr ⟨id, hw, hx⟩

theorem moves_tryForwardResponse {resp : ℕ × R} {rest : List (ℕ × R)}
    (h : s.responses = resp :: rest) (b : Bool) :
    Moves s (({ s with responses := rest } : Stream Q R).tryForwardResponse b resp) := by
  obtain ⟨id, x⟩ := resp
  have hmem : (id, x) ∈ s.responses := by simp [h]
  have hrest : ∀ y ∈ rest, y ∈ s.responses ∨
      ∃ r ∈ s.wire, r.id = y.1 ∧ (r.tok, y.2) ∈ s.served := fun y hy => .inl (by simp [h, hy])
  -- nothing but the response is gone
  have hnone : Moves s { s with responses := rest } :=
    { Moves.refl_phase s s.phase with responses := hrest }
  unfold tryForwardResponse
  cases hf : s.inFlight.lookup id with
  | some k =>
    simp only
    refine { Moves.refl_phase s s.phase with
      acks := le_of_eq ?_, waits := ?_, responses := hrest,
      answers := fun _ _ => answers_append (.inl hf) hmem, overwritten := fun _ hk => .inl hk }
    · have he := Table.values_erase s.inFlight id
      rw [hf] at he
      simp only [acks, fst_append, ← he, toList_some, coe_singleton]
      abel
    · exact fun _ _ hk => .inl (hk.imp Table.mem_lookup_erase fun hk => hk)
  | none =>
    simp only
    cases b with
    | false => exact hnone
    | true =>
      simp only [if_true]
      cases hb : s.inFlightBuf.lookup id with
      | none => exact hnone
      | some k =>
        refine { Moves.refl_phase s s.phase with
          acks := le_of_eq ?_, waits := ?_, responses := hrest,
          answers := fun _ _ => answers_append (.inr hb) hmem,
          overwritten := fun _ hk => .inl hk }
        · have he := Table.values_erase s.inFlightBuf id
          rw [hb] at he
          simp only [acks, fst_append, ← he, toList_some, coe_singleton]
          abel
        · exact fun _ _ hk => .inl (hk.imp (fun hk => hk) Table.mem_lookup_erase)

theorem moves_stop (s : Stream Q R) : Moves s { s with
    inFlight := ∅
    inFlightBuf := ∅
    phase := .stopped
    wire := []
    stale := s.stale ++ s.wire
    responses := [] } where
  log := rfl
  counter p := by cases p <;> rfl
  acks := by
    simp only [acks, Table.values_empty, add_zero]
    gcongr
    rw [add_assoc]
    exact le_self_add
  requests := (moves_connect s).requests
  held := (moves_connect s).held
  waits id k hk := by
    rcases hk with hk | hk <;> simp at hk
  served _ h := h
  responses x hx := by simp at hx
  answers _ _ h := .inl h
  overwritten _ h := .inl h

theorem moves_of_step (h : s.step e = some t) (hreq : ∀ p q, e ≠ .request p q)
    (hother : e ≠ .otherStream) : Moves s t := by
  cases e with
  | request p q => exact absurd rfl (hreq p q)
  | otherStream => exact absurd rfl hother
  | accept i =>
    obtain ⟨r, hr, h⟩ := bind_eq_some_iff.mp h
    obtain ⟨-, h⟩ := ite_none_right_eq_some.mp h
    cases h
    exact moves_accept hr
  | refuse i =>
    obtain ⟨r, hr, h⟩ := bind_eq_some_iff.mp h
    obtain ⟨-, h⟩ := ite_none_right_eq_some.mp h
    cases h
    exact moves_refuse hr _
  | serve i x =>
    obtain ⟨r, hr, h⟩ := bind_eq_some_iff.mp h
    cases h
    exact moves_serve hr x
  | serveStale i x =>
    obtain ⟨r, hr, h⟩ := bind_eq_some_iff.mp h
    cases h
    exact moves_serveStale hr x
  | streamResponse | leftover =>
    simp only [step] at h
    split at h
    next hresp =>
      cases h
      exact moves_tryForwardResponse hresp _
    next => cases h
  | leaderChange | connectionLost =>
    obtain ⟨-, h⟩ := ite_none_right_eq_some.mp h
    cases h
    exact moves_drain s _ _
  | readerError | shutdown =>
    obtain ⟨-, h⟩ := ite_none_right_eq_some.mp h
    cases h
    exact Moves.refl_phase s _
  | cleanupBuffer =>
    obtain ⟨-, h⟩ := ite_none_right_eq_some.mp h
    cases h
    exact moves_cleanupBuffer s
  | reconnect =>
    obtain ⟨-, h⟩ := ite_none_right_eq_some.mp h
    cases h
    exact moves_connect s
  | stop =>
    obtain ⟨-, h⟩ := ite_none_right_eq_some.mp h
    cases h
    exact moves_stop s

theorem counter_newRequestId (s : Stream Q R) (p q : Producer) :
    (s.newRequestId p).counter q = if q = p then s.counter q + 1 else s.counter q := by
  cases p <;> cases q <;> rfl

theorem counter_le (s : Stream Q R) (p q : Producer) : s.counter q ≤ (s.newRequestId p).counter q := by
  rw [counter_newRequestId]
  split_ifs <;> omega

namespace Ok

theorem newRequestId (h : s.Ok) (p : Producer) : (s.newRequestId p).Ok := by
  have hcount : ∀ r ∈ s.log, r.count < (s.newRequestId p).counter r.producer := fun r hr =>
    (h.count r hr).trans_le (counter_le s p r.producer)
  cases p <;> exact { h with count := hcount }

theorem request (h : s.Ok) (p : Producer) (body : Q) : ({ s.newRequestId p with
      log := s.log ++ [⟨p, s.counter p, s.log.length, body⟩]
      queue := s.queue ++ [⟨p, s.counter p, s.log.length, body⟩] } : Stream Q R).Ok := by
  generalize hr : (⟨p, s.counter p, s.log.length, body⟩ : Request Q) = r
  have htok : r.tok = s.log.length := by rw [← hr]
  have hsub : ∀ {a}, a ∈ s.log → a ∈ s.log ++ [r] := fun ha => mem_append_left _ ha
  have hone : toks [r] = {r.tok} := rfl
  -- the new ack is in one place
  have hnew : ∀ m : Multiset ℕ, m.Nodup → (∀ k ∈ m, k < s.log.length) →
      ({r.tok} + m).Nodup ∧ ∀ k ∈ {r.tok} + m, k < (s.log ++ [r]).length := by
    intro m hm hlt
    rw [singleton_add]
    refine ⟨Multiset.nodup_cons.mpr ⟨fun hmem => ?_, hm⟩, fun k hk => ?_⟩
    · exact absurd (hlt _ hmem) (by omega)
    · rw [length_append, length_singleton]
      rcases Multiset.mem_cons.mp hk with rfl | hk
      · omega
      · have := hlt k hk
        omega
  have hacks := hnew _ h.acks h.acks_lt
  have hreqs := hnew _ h.requests h.requests_lt
  have hacks_eq : ({ s.newRequestId p with log := s.log ++ [r], queue := s.queue ++ [r] } :
      Stream Q R).acks = {r.tok} + s.acks := by
    have : ∀ q l, ({ s.newRequestId p with log := l, queue := q } : Stream Q R).acks =
        ({ s with queue := q } : Stream Q R).acks := by cases p <;> exact fun _ _ => rfl
    rw [this]
    simp only [Stream.acks, toks_append, hone]
    abel
  have hreqs_eq : ({ s.newRequestId p with log := s.log ++ [r], queue := s.queue ++ [r] } :
      Stream Q R).requests = {r.tok} + s.requests := by
    have : ∀ q l, ({ s.newRequestId p with log := l, queue := q } : Stream Q R).requests =
        ({ s with queue := q } : Stream Q R).requests := by cases p <;> exact fun _ _ => rfl
    rw [this]
    simp only [Stream.requests, toks_append, hone]
    abel
  constructor
  case tok => simp [h.tok, htok, range_succ]
  case count =>
    intro a ha
    have hcounter : ∀ q, ({ s.newRequestId p with log := s.log ++ [r], queue := s.queue ++ [r] } :
        Stream Q R).counter q = (s.newRequestId p).counter q := fun q => by cases q <;> rfl
    rw [hcounter]
    rcases mem_append.mp ha with ha | ha
    · exact (h.count a ha).trans_le (counter_le s p _)
    · rw [mem_singleton.mp ha, ← hr, counter_newRequestId]
      simp
  case increasing =>
    refine pairwise_append.mpr ⟨h.increasing, pairwise_singleton _ _, ?_⟩
    intro a ha b hb hab
    rw [mem_singleton.mp hb, ← hr] at hab ⊢
    have hlt := h.count a ha
    rwa [hab] at hlt
  case held =>
    intro a ha
    have hcases : a ∈ s.queue ++ [r] ∨ a ∈ s.wire ∨ a ∈ s.stale := by
      cases p <;> exact ha
    rcases hcases with ha | ha
    · rcases mem_append.mp ha with ha | ha
      · exact hsub (h.held a (.inl ha))
      · exact mem_append_right _ ha
    · exact hsub (h.held a (.inr ha))
  case acks => exact hacks_eq ▸ hacks.1
  case acks_lt => exact hacks_eq ▸ hacks.2
  case requests => exact hreqs_eq ▸ hreqs.1
  case requests_lt => exact hreqs_eq ▸ hreqs.2
  case waits =>
    intro id k hk
    have hw : s.Waits id k := by cases p <;> exact hk
    obtain ⟨a, ha, hak⟩ := h.waits id k hw
    exact ⟨a, hsub ha, hak⟩
  case responses =>
    intro x hx
    have hx : x ∈ s.responses := by cases p <;> exact hx
    obtain ⟨a, ha, hid, hserved⟩ := h.responses x hx
    exact ⟨a, hsub ha, hid, by cases p <;> exact hserved⟩
  case answers =>
    intro k x hk
    have hk : (k, .ok x) ∈ s.answers := by cases p <;> exact hk
    obtain ⟨a, ha, b, hb, hak, hab, hserved⟩ := h.answers k x hk
    exact ⟨a, hsub ha, b, hsub hb, hak, hab, by cases p <;> exact hserved⟩
  case overwritten =>
    intro hd
    have hold : s.overwritten = [] := h.overwritten fun a ha b hb => hd a (hsub ha) b (hsub hb)
    cases p <;> exact hold

theorem step (h : s.Ok) {e : Event Q R} (hs : s.step e = some t) : t.Ok := by
  cases e with
  | request p body =>
    cases hs
    exact h.request p body
  | otherStream =>
    cases hs
    exact h.newRequestId .client
  | _ => exact h.of_moves (moves_of_step hs (by simp) (by simp))

end Ok

theorem ok_of_path {evs : List (Event Q R)}
    (h : Path (fun s e t => s.step e = some t) (start : Stream Q R) evs s) : s.Ok :=
  h.invariant (I := fun _ s => s.Ok) ok_start fun _ _ _ _ hok hs => hok.step hs

/-- Requests of one producer with the same id are the same, as long as its counter has not wrapped
around. -/
theorem Ok.eq_of_id (h : s.Ok) {a b : Request Q} (ha : a ∈ s.log) (hb : b ∈ s.log)
    (hp : a.producer = b.producer) (hbound : s.counter a.producer ≤ 2 ^ 64) (hid : a.id = b.id) :
    a = b := by
  have hca := h.count a ha
  have hcb := h.count b hb
  rw [← hp] at hcb
  rw [Request.id, Request.id, Nat.mod_eq_of_lt (by omega), Nat.mod_eq_of_lt (by omega)] at hid
  by_contra hne
  have hpair : s.log.Pairwise fun a b => a.producer = b.producer → a.count ≠ b.count :=
    h.increasing.imp fun hab hp => (hab hp).ne
  have : Std.Symm fun a b : Request Q => a.producer = b.producer → a.count ≠ b.count :=
    ⟨fun _ _ hab hp => (hab hp.symm).symm⟩
  exact hpair.forall ha hb hne hp hid

theorem Ok.distinct (h : s.Ok) {p : Producer} (hp : ∀ r ∈ s.log, r.producer = p)
    (hbound : s.counter p ≤ 2 ^ 64) : s.Distinct := fun a ha b hb hid =>
  h.eq_of_id ha hb ((hp a ha).trans (hp b hb).symm) (hp a ha ▸ hbound) hid

/-- Every response reaches the caller that sent the request. -/
structure Paired (s : Stream Q R) : Prop where
  distinct : (s.inFlight.keys ++ s.inFlightBuf.keys).Nodup
  kept : s.overwritten = []
  once : (s.answers.map Prod.fst).Nodup
  own : ∀ k x, (k, .ok x) ∈ s.answers → (k, x) ∈ s.served

theorem Ok.paired (h : s.Ok) (hd : s.Distinct) : s.Paired where
  distinct := by
    refine Nodup.append s.inFlight.keys_nodup s.inFlightBuf.keys_nodup fun id h1 h2 => ?_
    obtain ⟨k, hk⟩ := isSome_iff_exists.mp (AList.lookup_isSome.mpr h2)
    exact h.not_overwritten hd (.inr ⟨id, AList.lookup_isSome.mpr h1, hk⟩)
  kept := h.overwritten hd
  once := by
    have hnodup := h.acks
    simp only [Stream.acks, nodup_add] at hnodup
    exact Multiset.coe_nodup.mp hnodup.2.1
  own k x hk := by
    obtain ⟨a, ha, b, hb, rfl, hab, hserved⟩ := h.answers k x hk
    rwa [hd a ha b hb hab]

/-! ## Who makes and who serves a request -/

theorem tryForwardResponse_frame (s : Stream Q R) (b : Bool) (resp : ℕ × R) :
    (s.tryForwardResponse b resp).log = s.log ∧ (s.tryForwardResponse b resp).served = s.served := by
  unfold tryForwardResponse
  split
  · exact ⟨rfl, rfl⟩
  · split_ifs
    · split <;> exact ⟨rfl, rfl⟩
    · exact ⟨rfl, rfl⟩

theorem newRequestId_frame (s : Stream Q R) (p : Producer) :
    (s.newRequestId p).log = s.log ∧ (s.newRequestId p).served = s.served := by
  cases p <;> exact ⟨rfl, rfl⟩

theorem log_of_step (h : s.step e = some t) : s.log ⊆ t.log ∧
    ∀ r ∈ t.log, r ∈ s.log ∨ e = .request r.producer r.body := by
  constructor
  · intro r hr
    cases e <;> grind [step, drain, connect, newRequestId_frame, tryForwardResponse_frame]
  · intro r hr
    cases e <;> grind [step, drain, connect, newRequestId_frame, tryForwardResponse_frame]

theorem served_of_step (h : s.step e = some t) (hx : (k, x) ∈ t.served) : (k, x) ∈ s.served ∨
      ∃ i, (e = .serve i x ∧ ∃ r ∈ s.wire[i]?, r.tok = k) ∨
        e = .serveStale i x ∧ ∃ r ∈ s.stale[i]?, r.tok = k := by
  cases e <;> grind [step, drain, connect, newRequestId_frame, tryForwardResponse_frame]

theorem log_of_path {evs : List (Event Q R)}
    (h : Path (fun s e t => s.step e = some t) (start : Stream Q R) evs s) :
    ∀ r ∈ s.log, .request r.producer r.body ∈ evs := by
  refine h.invariant (I := fun evs s => ∀ r ∈ s.log, .request r.producer r.body ∈ evs)
    (by simp [start]) fun ls s e t hlog hs r hr => ?_
  rcases (log_of_step hs).2 r hr with hr | rfl
  · exact mem_append_left _ (hlog r hr)
  · simp

/-- **Every response reaches its caller** in every run whose requests all take their ids from one
counter, before it wraps around. -/
theorem answers_reach_callers {evs : List (Event Q R)} {p : Producer}
    (h : Path (fun s e t => s.step e = some t) start evs s)
    (hp : ∀ p' q, .request p' q ∈ evs → p' = p) (hbound : s.counter p ≤ 2 ^ 64) : s.Paired :=
  (ok_of_path h).paired
    ((ok_of_path h).distinct (fun r hr => hp _ _ (log_of_path h r hr)) hbound)

/-- Two requests over a broken connection and one over the next. -/
theorem answers_reach_callers_reconnect :
    ∃ s : Stream Unit ℕ, Path (fun s e t => s.step e = some t) start
      [.reconnect, .request .client (), .request .client (), .accept 1, .accept 0, .serve 0 7,
        .streamResponse, .readerError false, .reconnect, .request .client (), .accept 0, .serve 0 8,
        .cleanupBuffer, .streamResponse] s ∧ s.Paired := by
  obtain ⟨s, hs⟩ : ∃ s : Stream Unit ℕ, foldlM Stream.step start
      [.reconnect, .request .client (), .request .client (), .accept 1, .accept 0, .serve 0 7,
        .streamResponse, .readerError false, .reconnect, .request .client (), .accept 0, .serve 0 8,
        .cleanupBuffer, .streamResponse] = some s := isSome_iff_exists.mp (by decide +kernel)
  have hpath := Path.of_foldlM hs
  refine ⟨s, hpath, answers_reach_callers (p := .client) hpath (by simp) ?_⟩
  cases hs
  decide +kernel

/-- **Two counters.** The first request of the client and the first one of the backup endpoint both
have the id `0`: the ack of the client is dropped, and the endpoint gets the client's response. -/
theorem two_counters_mix_up_answers : ∃ s ∈ foldlM Stream.step (start : Stream Unit ℕ)
      [.reconnect, .request .client (), .request .appState (), .accept 0, .accept 0, .serve 0 7,
        .streamResponse], s.overwritten = [0] ∧ s.served = [(0, 7)] ∧
          s.answers = [(1, .ok 7)] := by
  decide +kernel

end Stream

end Hiqlite.Client
