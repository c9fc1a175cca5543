import Hiqlite.Client.Stream
import Hiqlite.Lib.Effect

/-!
# N2 — automatic retries

A modifying call is tried a second time if the first answer is that another node is the leader. The
call itself retries, and so does a proxy that a request goes through.

* **`holds_streamReq`**: a request over the stream, through any run of it; **`holds_withRetry`**;
* **`retries_apply_at_most_once`**.
-/

namespace Hiqlite.Client

open List

/-- The errors of `client_write`. -/
inductive RaftError
  | forwardToLeader (leaderId : Option ℕ) (node : Option String)
  | other
  deriving DecidableEq

inductive Error
  | clientWrite (e : RaftError)
  | checkIsLeader (leaderId : Option ℕ) (node : Option String)
  | application
  | connect
  | leaderChange
  | timeout
  | channelClosed
  | rateLimit
  | badRequest
  /-- The calling task has panicked, so that there is no result. -/
  | panicked
  deriving DecidableEq

abbrev Result (A : Type) := Except Error A

def Error.isForwardToLeader : Error → Option (Option ℕ × Option String)
  | .clientWrite (.forwardToLeader leaderId node) => some (leaderId, node)
  | .checkIsLeader leaderId node => some (leaderId, node)
  | _ => none

def wasLeaderUpdateError (e : Error) : Bool :=
  match e.isForwardToLeader with
  | some (some _, some _) => true
  | _ => false

variable {A U : Type}

/-- How often an update was applied when the result of a call is `r`. -/
structure Once (r : Result A) (n : ℕ) : Prop where
  le : n ≤ 1
  ok : ∀ a, r = .ok a → n = 1
  forward : ∀ e, r = .error e → e.isForwardToLeader.isSome → n = 0

/-- What openraft promises for `client_write`. -/
def Openraft (clientWrite : U → Effect (Except RaftError (Except Unit A))) : Prop :=
  ∀ u, (clientWrite u).Holds fun r n => n ≤ 1 ∧ (∀ a, r = .ok a → n = 1) ∧
    ∀ leaderId node, r = .error (.forwardToLeader leaderId node) → n = 0

theorem Once.of_error {e : Error} {n : ℕ} (he : e.isForwardToLeader = none) (hn : n ≤ 1) :
    Once (.error e : Result A) n :=
  ⟨hn, by simp, fun e' h hs => by
    cases h
    simp [he] at hs⟩

/-! ## One attempt -/

/-- The kinds of requests and of the responses to them. -/
inductive Kind
  | execute
  | executeReturning
  | kv
  | notify
  | backup
  | other
  deriving DecidableEq

structure Body (U : Type) where
  kind : Kind
  update : U

/-- A response, and how often the update was applied when it was produced. -/
structure Response (A : Type) where
  kind : Kind
  result : Result A
  applied : ℕ

def flatten : Except RaftError (Except Unit A) → Result A
  | .ok (.ok a) => .ok a
  | .ok (.error _) => .error .application
  | .error e => .error (.clientWrite e)

/-- The local path of a call, with the timeout of `client_write_local`. -/
def localWrite (x : Effect (Except RaftError (Except Unit A))) (timeout : Bool) :
    Effect (Result A) := { p | (∃ r, (r, p.2) ∈ x ∧ p.1 = flatten r) ∨
      timeout = true ∧ p.1 = .error .timeout ∧ ∃ r, (r, p.2) ∈ x }

/-- The backup endpoint sends backup requests, and a response is of the kind of its request. -/
def Legal (server : Body U → Effect (Result A)) (s : Stream (Body U) (Response A)) :
    Event (Body U) (Response A) → Prop
  | .request .appState body => body.kind = .backup
  | .serve i resp => ∀ r ∈ s.wire[i]?,
      resp.kind = r.body.kind ∧ (resp.result, resp.applied) ∈ server r.body
  | .serveStale i resp => ∀ r ∈ s.stale[i]?,
      resp.kind = r.body.kind ∧ (resp.result, resp.applied) ∈ server r.body
  | _ => True

def Runs (server : Body U → Effect (Result A)) (evs : List (Event (Body U) (Response A)))
    (s : Stream (Body U) (Response A)) : Prop :=
  Path (fun s e t => s.step e = some t ∧ Legal server s e) .start evs s

/-- How often the update of the request `k` was applied. -/
def applied (s : Stream (Body U) (Response A)) (k : ℕ) : ℕ :=
  ((s.served.filter fun x => x.1 = k).map fun x => x.2.applied).sum

def StreamError.toError : StreamError → Error
  | .connect => .connect
  | .leaderChange => .leaderChange

/-- What a caller may return that waits for the ack `k`. -/
inductive Returns (s : Stream (Body U) (Response A)) (k : ℕ) (kind : Kind) : Result A → Prop
  | answered {resp : Response A} (h : (k, .ok resp) ∈ s.answers) :
      Returns s k kind (if resp.kind = kind then resp.result else .error .panicked)
  | failed {e : StreamError} (h : (k, .error e) ∈ s.answers) : Returns s k kind (.error e.toError)
  | timedOut : Returns s k kind (.error .connect)
  | closed : Returns s k kind (.error .channelClosed)

/-- A request over the stream, in a run without a wrap-around of the ids. -/
def streamReq (server : Body U → Effect (Result A)) (body : Body U) :
    Effect (Result A) :=
  { p | p = (.error .channelClosed, 0) ∨ ∃ evs s r, Runs server evs s ∧ r ∈ s.log ∧
      r.producer = .client ∧ r.body = body ∧ s.clientId ≤ 2 ^ 64 ∧ Returns s r.tok body.kind p.1 ∧
      p.2 = applied s r.tok }

/-! ## Calls -/

/-- The retry of a call, whatever its requests are. -/
def withRetry {m : Type → Type} [Monad m] (req : m (Result A)) : m (Result A) := do
  match ← req with
  | .ok a => pure (.ok a)
  | .error e => if wasLeaderUpdateError e then req else pure (.error e)

def rateLimited (req : Effect (Result A)) : Effect (Result A) :=
  .either (pure (.error .rateLimit)) req

section Handlers

variable (clientWrite : U → Effect (Except RaftError (Except Unit A)))
  (server : Body U → Effect (Result A)) (update : U)

/-- To the local raft if this node is the leader, and over the stream otherwise. -/
def request (kind : Kind) (timeout : Bool) : Effect (Result A) :=
  .either (localWrite (clientWrite update) timeout) (streamReq server ⟨kind, update⟩)

def executeReq : Effect (Result A) := request clientWrite server update .execute true

/-- `execute_returning_req`, whose local write has no timeout. -/
def executeReturningReq : Effect (Result A) :=
  request clientWrite server update .executeReturning false

def notifyReq : Effect (Result A) := request clientWrite server update .notify true

/-- `cache_req` of a modifying request. -/
def cacheReq : Effect (Result A) := request clientWrite server update .kv true

/-- `lock_req` of a request that is written to the log. -/
def lockReq : Effect (Result A) := request clientWrite server update .kv true

def execute : Effect (Result A) :=
  rateLimited (withRetry (executeReq clientWrite server update))

def executeReturning : Effect (Result A) :=
  rateLimited (withRetry (executeReturningReq clientWrite server update))

def notify : Effect (Result A) :=
  rateLimited (withRetry (notifyReq clientWrite server update))

def cacheReqRetry : Effect (Result A) := withRetry (cacheReq clientWrite server update)

def cacheModify : Effect (Result A) := rateLimited (cacheReqRetry clientWrite server update)

def lockReqRetry : Effect (Result A) := withRetry (lockReq clientWrite server update)

end Handlers

section Servers

variable (clientWrite : U → Effect (Except RaftError (Except Unit A)))

/-- The handler of a node. A request for a cache that does not exist is refused. -/
def nodeHandler (body : Body U) : Effect (Result A) :=
  .either (localWrite (clientWrite body.update) false) (pure (.error .badRequest))

/-- The handler of a proxy, whose client sends the requests on to `server`. -/
def proxyHandler (server : Body U → Effect (Result A)) (body : Body U) :
    Effect (Result A) :=
  match body.kind with
  | .execute => execute clientWrite server body.update
  | .executeReturning => withRetry (executeReturningReq clientWrite server body.update)
  | .kv => cacheReqRetry clientWrite server body.update
  | .notify => notifyReq clientWrite server body.update
  | .backup | .other => { _p | True }

/-- The other end of a stream: a node, or one of at most `depth` proxies in a row. -/
def serverAt : ℕ → Body U → Effect (Result A)
  | 0, body => nodeHandler clientWrite body
  | depth + 1, body =>
    .either (nodeHandler clientWrite body) (proxyHandler clientWrite (serverAt depth) body)

end Servers

inductive Call
  | execute
  | executeReturning
  | notify
  | cacheModify
  | lockReq
  deriving DecidableEq

def Call.run (clientWrite : U → Effect (Except RaftError (Except Unit A)))
    (server : Body U → Effect (Result A)) (update : U) : Call → Effect (Result A)
  | .execute => Client.execute clientWrite server update
  | .executeReturning => Client.executeReturning clientWrite server update
  | .notify => Client.notify clientWrite server update
  | .cacheModify => Client.cacheModify clientWrite server update
  | .lockReq => lockReqRetry clientWrite server update

/-! ## The contract -/

variable {clientWrite : U → Effect (Except RaftError (Except Unit A))}
  {server : Body U → Effect (Result A)} {req : Effect (Result A)} {body : Body U}
  {update : U}

theorem holds_localWrite (h : Openraft clientWrite) (update : U) (timeout : Bool) :
    (localWrite (clientWrite update) timeout).Holds Once := by
  rintro ⟨r, n⟩ (⟨x, hx, rfl⟩ | ⟨-, rfl, x, hx⟩)
  · obtain ⟨hle, hok, hforward⟩ := h update _ hx
    simp only at hle hok hforward
    cases x with
    | ok y =>
      have hn := hok y rfl
      cases y with
      | ok a => exact ⟨hle, fun _ _ => hn, by simp [flatten]⟩
      | error e => exact Once.of_error rfl hle
    | error e =>
      cases e with
      | forwardToLeader leaderId node =>
        exact ⟨hle, by simp [flatten], fun _ _ _ => hforward _ _ rfl⟩
      | other => exact Once.of_error rfl hle
  · exact Once.of_error rfl (h update _ hx).1

theorem wasLeaderUpdateError_isSome {e : Error} (h : wasLeaderUpdateError e = true) :
    e.isForwardToLeader.isSome := by
  unfold wasLeaderUpdateError at h
  cases he : e.isForwardToLeader with
  | none => simp [he] at h
  | some x => rfl

/-- **A retry** comes after an attempt that was not applied. -/
theorem holds_withRetry (h : req.Holds Once) : (withRetry req).Holds Once := by
  refine Effect.holds_bind h fun r m hr => ?_
  cases r with
  | ok a => exact Effect.holds_pure (P := fun b n => Once b (m + n)) hr
  | error e =>
    by_cases hw : wasLeaderUpdateError e = true
    · simp only [hw, if_true]
      intro p hp
      have hm : m = 0 := hr.forward e rfl (wasLeaderUpdateError_isSome hw)
      rw [hm, zero_add]
      exact h p hp
    · simp only [hw]
      exact Effect.holds_pure (P := fun b n => Once b (m + n)) hr

theorem holds_rateLimited (h : req.Holds Once) : (rateLimited req).Holds Once :=
  Effect.holds_either (Effect.holds_pure (Once.of_error rfl (Nat.zero_le 1))) h

/-! ### The stream -/

structure Recorded (server : Body U → Effect (Result A))
    (s : Stream (Body U) (Response A)) : Prop where
  ok : s.Ok
  backup : ∀ r ∈ s.log, r.producer = .appState → r.body.kind = .backup
  served : ∀ k resp, (k, resp) ∈ s.served → ∃ r ∈ s.log, r.tok = k ∧
    resp.kind = r.body.kind ∧ (resp.result, resp.applied) ∈ server r.body

variable {s : Stream (Body U) (Response A)}

theorem Recorded.step {t : Stream (Body U) (Response A)} {e : Event (Body U) (Response A)}
    (h : Recorded server s) (hs : s.step e = some t) (hl : Legal server s e) :
    Recorded server t where
  ok := h.ok.step hs
  backup r hr hp := by
    rcases (Stream.log_of_step hs).2 r hr with hr | rfl
    · exact h.backup r hr hp
    · rw [hp] at hl
      exact hl
  served k resp hk := by
    have hsub := (Stream.log_of_step hs).1
    rcases Stream.served_of_step hs hk with hk | ⟨i, ⟨rfl, r, hr, rfl⟩ | ⟨rfl, r, hr, rfl⟩⟩
    · obtain ⟨r, hr, hrest⟩ := h.served k resp hk
      exact ⟨r, hsub hr, hrest⟩
    · exact ⟨r, hsub (h.ok.held r (.inr (.inl (mem_of_getElem? hr)))), rfl, hl r hr⟩
    · exact ⟨r, hsub (h.ok.held r (.inr (.inr (mem_of_getElem? hr)))), rfl, hl r hr⟩

theorem recorded_of_runs {evs : List (Event (Body U) (Response A))} (h : Runs server evs s) :
    Recorded server s :=
  h.invariant (I := fun _ s => Recorded server s)
    ⟨Stream.ok_start, by simp [Stream.start], by simp [Stream.start]⟩
    fun _ _ _ _ hrec hs => hrec.step hs.1 hs.2

theorem applied_eq (hn : (s.served.map Prod.fst).Nodup) {k : ℕ} {resp : Response A}
    (h : (k, resp) ∈ s.served) : applied s k = resp.applied := by
  have hfilter : s.served.filter (fun x => x.1 = k) = [(k, resp)] := by
    refine perm_singleton.mp ((perm_ext_iff_of_nodup ((hn.of_map _).filter _)
      (nodup_singleton _)).mpr fun x => ?_)
    rw [mem_filter, mem_singleton, decide_eq_true_eq]
    constructor
    · rintro ⟨hx, hxk⟩
      exact inj_on_of_nodup_map hn hx h hxk
    · rintro rfl
      exact ⟨h, rfl⟩
  rw [applied, hfilter]
  simp

theorem applied_eq_zero {k : ℕ} (h : ∀ resp, (k, resp) ∉ s.served) : applied s k = 0 := by
  have hfilter : s.served.filter (fun x => x.1 = k) = [] := by
    rw [filter_eq_nil_iff]
    rintro ⟨k', resp⟩ hx hk
    rw [decide_eq_true_eq] at hk
    subst hk
    exact h resp hx
  rw [applied, hfilter]
  rfl

theorem Recorded.served_nodup (h : Recorded server s) : (s.served.map Prod.fst).Nodup := by
  have hnodup := h.ok.requests
  simp only [Stream.requests, Multiset.nodup_add] at hnodup
  exact Multiset.coe_nodup.mp hnodup.2.1

theorem Recorded.applied_le (h : Recorded server s) (hserver : (server body).Holds Once)
    {r : Request (Body U)} (hr : r ∈ s.log) (hbody : r.body = body) : applied s r.tok ≤ 1 := by
  by_cases hs : ∃ resp, (r.tok, resp) ∈ s.served
  · obtain ⟨resp, hresp⟩ := hs
    obtain ⟨a, ha, hat, -, hmem⟩ := h.served _ _ hresp
    rw [h.ok.eq_of_tok ha hr hat, hbody] at hmem
    rw [applied_eq h.served_nodup hresp]
    exact (hserver _ hmem).le
  · rw [applied_eq_zero (fun resp hresp => hs ⟨resp, hresp⟩)]
    exact Nat.zero_le 1

/-- **A request over the stream.** The caller returns `Ok` only with the response to its own
request. -/
theorem holds_streamReq (hserver : (server body).Holds Once) (hkind : body.kind ≠ .backup) :
    (streamReq server body).Holds Once := by
  rintro ⟨res, n⟩ (hp | ⟨evs, s, r, hruns, hr, hclient, hbody, hbound, hret, hn⟩)
  · cases hp
    exact Once.of_error rfl (Nat.zero_le 1)
  · have hrec := recorded_of_runs hruns
    have hle := hrec.applied_le hserver hr hbody
    simp only at hret hn
    subst hn
    cases hret with
    | timedOut | closed => exact Once.of_error rfl hle
    | @failed e h =>
      refine Once.of_error ?_ hle
      cases e <;> rfl
    | @answered resp h =>
      by_cases hk : resp.kind = body.kind
      · rw [if_pos hk]
        -- the response comes from a request of the client with the same id
        obtain ⟨a, ha, b, hb, hat, hab, hserved⟩ := hrec.ok.answers _ _ h
        obtain ⟨b', hb', hbt, hbkind, hmem⟩ := hrec.served _ _ hserved
        rw [hrec.ok.eq_of_tok hb' hb hbt] at hbkind hmem
        have hbc : b.producer = .client := by
          cases hp : b.producer with
          | client => rfl
          | appState => exact absurd ((hk.symm.trans hbkind).trans (hrec.backup b hb hp)) hkind
        rw [hrec.ok.eq_of_tok ha hr hat] at hab
        have hrb : r = b := hrec.ok.eq_of_id hr hb (hclient.trans hbc.symm)
          (by rw [hclient]; exact hbound) hab
        subst hrb
        rw [applied_eq hrec.served_nodup hserved, hbody] at *
        exact hserver _ hmem
      · rw [if_neg hk]
        exact Once.of_error rfl hle

/-! ### All calls -/

theorem holds_request (hraft : Openraft clientWrite) {kind : Kind} {timeout : Bool}
    (hserver : (server ⟨kind, update⟩).Holds Once) (hkind : kind ≠ .backup) :
    (request clientWrite server update kind timeout).Holds Once :=
  Effect.holds_either (holds_localWrite hraft update timeout) (holds_streamReq hserver hkind)

theorem holds_nodeHandler (hraft : Openraft clientWrite) (body : Body U) :
    (nodeHandler clientWrite body).Holds Once :=
  Effect.holds_either (holds_localWrite hraft body.update false)
    (Effect.holds_pure (Once.of_error rfl (Nat.zero_le 1)))

theorem holds_serverAt (hraft : Openraft clientWrite) (depth : ℕ) (body : Body U)
    (hkind : body.kind ≠ .backup ∧ body.kind ≠ .other) :
    (serverAt clientWrite depth body).Holds Once := by
  induction depth generalizing body with
  | zero => exact holds_nodeHandler hraft body
  | succ depth ih =>
    refine Effect.holds_either (holds_nodeHandler hraft body) ?_
    obtain ⟨kind, update⟩ := body
    have hreq : ∀ timeout,
        (request clientWrite (serverAt clientWrite depth) update kind timeout).Holds Once :=
      fun timeout => holds_request hraft (ih ⟨kind, update⟩ hkind) hkind.1
    unfold proxyHandler
    cases kind with
    | execute => exact holds_rateLimited (holds_withRetry (hreq true))
    | executeReturning => exact holds_withRetry (hreq false)
    | kv => exact holds_withRetry (hreq true)
    | notify => exact hreq true
    | backup => exact absurd rfl hkind.1
    | other => exact absurd rfl hkind.2

/-- **Retries never apply an update twice.** Every call of a local or remote client, over any number
of proxies and through any run of the streams, applies its update at most once, and exactly once if
it returns `Ok`. -/
theorem retries_apply_at_most_once (hraft : Openraft clientWrite) (depth : ℕ) (call : Call)
    (update : U) {r : Result A} {n : ℕ}
    (h : (r, n) ∈ call.run clientWrite (serverAt clientWrite depth) update) :
    n ≤ 1 ∧ ∀ a, r = .ok a → n = 1 := by
  have hreq : ∀ kind timeout, kind ≠ .backup ∧ kind ≠ .other →
      (request clientWrite (serverAt clientWrite depth) update kind timeout).Holds Once :=
    fun kind timeout hkind => holds_request hraft (holds_serverAt hraft depth _ hkind) hkind.1
  have hcall : (call.run clientWrite (serverAt clientWrite depth) update).Holds Once := by
    cases call with
    | execute => exact holds_rateLimited (holds_withRetry (hreq .execute true (by simp)))
    | executeReturning =>
      exact holds_rateLimited (holds_withRetry (hreq .executeReturning false (by simp)))
    | notify => exact holds_rateLimited (holds_withRetry (hreq .notify true (by simp)))
    | cacheModify => exact holds_rateLimited (holds_withRetry (hreq .kv true (by simp)))
    | lockReq => exact holds_withRetry (hreq .kv true (by simp))
  exact ⟨(hcall _ h).le, (hcall _ h).ok⟩

/-- A write may succeed, be forwarded, or end with its fate left open. -/
def plainWrite (_ : Unit) : Effect (Except RaftError (Except Unit ℕ)) :=
  { p | p = (.ok (.ok 7), 1) ∨ p = (.error (.forwardToLeader (some 2) (some "node2:8200")), 0) ∨
      p = (.error .other, 0) ∨ p = (.error .other, 1) }

theorem openraft_plainWrite : Openraft plainWrite := by
  rintro u p (rfl | rfl | rfl | rfl) <;> simp

/-- An execute that is forwarded and then succeeds. -/
theorem retries_apply_at_most_once_forwarded :
    (.ok 7, 1) ∈ Call.run plainWrite (serverAt plainWrite 1) () .execute ∧ 1 ≤ 1 ∧
      ∀ a, (.ok 7 : Result ℕ) = .ok a → 1 = 1 := by
  have hlocal : ∀ r n, (r, n) ∈ plainWrite () →
      (flatten r, n) ∈ executeReq plainWrite (serverAt plainWrite 1) () := fun r n h =>
    .inl (.inl ⟨r, h, rfl⟩)
  have hmem : (.ok 7, 1) ∈ Call.run plainWrite (serverAt plainWrite 1) () .execute :=
    .inr ⟨_, 0, 1, hlocal _ 0 (.inr (.inl rfl)), hlocal (.ok (.ok 7)) 1 (.inl rfl), rfl⟩
  exact ⟨hmem, retries_apply_at_most_once openraft_plainWrite 1 .execute () hmem⟩

end Hiqlite.Client
