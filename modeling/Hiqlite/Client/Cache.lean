import Hiqlite.Lib.Dialogue
import Hiqlite.Network.CacheApi

/-!
# N4 — the cache functions of a remote client

A client without a node of its own sends every request over its stream. Each function has a match on
the response with arms that are meant to be unreachable.

* **`mem_cacheReqRetry`**, `mem_lockReqRetry`, `mem_notifyReq`: its requests are among those whose
  updates are counted;
* **`remote_calls_agree`**; `counter_get_panics`.

`listen` and its variants send no request. The loop of `lock` is cut off after a number of rounds.
-/

namespace Hiqlite.Client.Remote

open Cache (CacheRequest)
open Dlock (LockState)
open Network

/-! ## The requests -/

variable {K V T : Type}

abbrev Prog (K V α : Type) : Type :=
  Dialogue (ApiStreamRequestPayload K V) (Result (ApiStreamResponsePayload V)) α

def cacheReq (req : CacheRequest K V) (isRemoteGet : Bool) :
    Prog K V (Result (CacheResponse V)) := do
  match ← Dialogue.send (if isRemoteGet then .kvGet req else .kv req) with
  | .error e => pure (.error e)
  | .ok (.kv res) => pure res
  | .ok _ => .panicked

def cacheReqRetry (req : CacheRequest K V) (isRemoteGet : Bool) :
    Prog K V (Result (CacheResponse V)) := withRetry (cacheReq req isRemoteGet)

def lockReq (req : CacheRequest K V) (isRemoteAwait : Bool) : Prog K V (Result LockState) := do
  match ← Dialogue.send (if isRemoteAwait then .lockAwait req else .kv req) with
  | .error e => pure (.error e)
  | .ok (.kv (.error e)) => pure (.error e)
  | .ok (.kv (.ok (.lock state))) => if isRemoteAwait then .panicked else pure (.ok state)
  | .ok (.lock (.ok .released)) => if isRemoteAwait then pure (.ok .released) else .panicked
  | .ok (.lock (.ok (.locked id))) => if isRemoteAwait then pure (.ok (.locked id)) else .panicked
  | .ok (.lock (.error e)) => pure (.error e)
  | .ok _ => .panicked

def lockReqRetry (req : CacheRequest K V) (isRemoteAwait : Bool) :
    Prog K V (Result LockState) := withRetry (lockReq req isRemoteAwait)

def notifyReq (req : CacheRequest K V) : Prog K V (Result Unit) := do
  match ← Dialogue.send (.notify req) with
  | .error e => pure (.error e)
  | .ok (.notify res) => pure res
  | .ok _ => .panicked

/-! ## The calls -/

inductive Value (V T : Type)
  | unit
  | bytes (v : Option V)
  | decoded (v : Option T)
  | counter (v : Option ℤ)
  | count (v : ℤ)
  | lock (id : ℕ)
  | waiting
  | isLocked (b : Bool)

/-- The public functions. `alive` and `release` are what a held lock sends. -/
inductive Call (K V T : Type)
  | clearCache (cache : ℕ)
  | clearCounters (cache : ℕ)
  | clearCacheAll
  | get (cache : ℕ) (key : K)
  | getBytes (cache : ℕ) (key : K)
  | getSnapshot (cache : ℕ)
  | put (cache : ℕ) (key : K) (value : T) (ttl : Option ℤ)
  | putBytes (cache : ℕ) (key : K) (value : V) (ttl : Option ℤ)
  | delete (cache : ℕ) (key : K)
  | getRemove (cache : ℕ) (key : K)
  | getRemoveBytes (cache : ℕ) (key : K)
  | replace (cache : ℕ) (key : K) (value : T) (ttl : Option ℤ)
  | replaceBytes (cache : ℕ) (key : K) (value : V) (ttl : Option ℤ)
  | counterGet (cache : ℕ) (key : K)
  | counterSet (cache : ℕ) (key : K) (value : ℤ)
  | counterAdd (cache : ℕ) (key : K) (value : ℤ)
  | counterDel (cache : ℕ) (key : K)
  | lock (key : K)
  | alive (key : K) (id : ℕ)
  | release (key : K) (id : ℕ)
  | notify

structure Codec (V T : Type) where
  /-- `serialize_serde` -/
  encode : T → V
  /-- `deserialize_serde` -/
  decode : V → Result T

def expires (now : ℤ) (ttl : Option ℤ) : Option ℤ := ttl.map (Cache.expires now)

def rateLimit {α : Type} (limited : Bool) (req : Prog K V (Result α)) :
    Prog K V (Result α) :=
  if limited then pure (.error .rateLimit) else req

def acknowledged (req : CacheRequest K V) : Prog K V (Result (Value V T)) := do
  match ← cacheReqRetry req false with
  | .ok _ => pure (.ok .unit)
  | .error e => pure (.error e)

def valueOf (req : CacheRequest K V) (isRemoteGet : Bool) : Prog K V (Result (Option V)) := do
  match ← cacheReqRetry req isRemoteGet with
  | .ok (.value v) => pure (.ok v)
  | .ok _ => .panicked
  | .error e => pure (.error e)

def raw (req : Prog K V (Result (Option V))) : Prog K V (Result (Value V T)) := do
  match ← req with
  | .ok v => pure (.ok (.bytes v))
  | .error e => pure (.error e)

def decoded (codec : Codec V T) (req : Prog K V (Result (Option V))) :
    Prog K V (Result (Value V T)) := do
  match ← req with
  | .ok (some v) => pure ((codec.decode v).map fun t => .decoded (some t))
  | .ok none => pure (.ok (.decoded none))
  | .error e => pure (.error e)

def counterGet (cache : ℕ) (key : K) : Prog K V (Result (Value V T)) := do
  match ← cacheReqRetry (.counterGet cache key) true with
  | .ok (.counterValue v) => pure (.ok (.counter v))
  | .ok _ => .panicked
  | .error e => pure (.error e)

def counterAdd (cache : ℕ) (key : K) (value : ℤ) : Prog K V (Result (Value V T)) := do
  match ← cacheReqRetry (.counterAdd cache key value) false with
  | .ok (.counterValue (some v)) => pure (.ok (.count v))
  | .ok _ => .panicked
  | .error e => pure (.error e)

/-- The loop of `Client::lock`, for a number of rounds. -/
def lock (key : K) (ticket : Option ℕ) : ℕ → Prog K V (Result (Value V T))
  | 0 => pure (.ok .waiting)
  | rounds + 1 => do
    match ← lockReqRetry (.lock key ticket) false with
    | .ok (.locked id) => pure (.ok (.lock id))
    | .ok (.queued id) => do
      match ← lockReqRetry (.lockAwait key id) true with
      | .ok (.locked id) => pure (.ok (.lock id))
      | .ok .released => lock key (some id) rounds
      | .ok (.queued _) => .panicked
      | .error e => pure (.error e)
    | .ok .released => .panicked
    | .error e => pure (.error e)

/-- A heartbeat of `spawn_alive_ticker`. -/
def alive (key : K) (id : ℕ) : Prog K V (Result (Value V T)) := do
  match ← lockReqRetry (.lockAlive key id) false with
  | .ok (.locked _) => pure (.ok (.isLocked true))
  | .ok .released => pure (.ok (.isLocked false))
  | .ok (.queued _) => .panicked
  | .error e => pure (.error e)

/-- The task that `drop` of a lock spawns. -/
def release (key : K) (id : ℕ) : Prog K V (Result (Value V T)) := do
  match ← lockReqRetry (.lockRelease key id) false with
  | .ok _ => pure (.ok .unit)
  | .error e => pure (.error e)

def notify : Prog K V (Result (Value V T)) := do
  match ← withRetry (notifyReq .notify) with
  | .ok _ => pure (.ok .unit)
  | .error e => pure (.error e)

/-- **What a call does**, with at most `rounds` rounds of the loop of `lock`. -/
def Call.run (codec : Codec V T) (limited : Bool) (now : ℤ) (rounds : ℕ) :
    Call K V T → Prog K V (Result (Value V T))
  | .clearCache cache => rateLimit limited (acknowledged (.clear cache))
  | .clearCounters cache => rateLimit limited (acknowledged (.clearCounters cache))
  | .clearCacheAll => rateLimit limited (acknowledged .clearAll)
  | .get cache key => decoded codec (valueOf (.get cache key) true)
  | .getBytes cache key => raw (valueOf (.get cache key) true)
  | .getSnapshot _ => pure (.error .badRequest)
  | .put cache key value ttl =>
    rateLimit limited (acknowledged (.put cache key (codec.encode value) (expires now ttl)))
  | .putBytes cache key value ttl =>
    rateLimit limited (acknowledged (.put cache key value (expires now ttl)))
  | .delete cache key => rateLimit limited (acknowledged (.delete cache key))
  | .getRemove cache key => decoded codec (rateLimit limited (valueOf (.getRemove cache key) false))
  | .getRemoveBytes cache key => raw (rateLimit limited (valueOf (.getRemove cache key) false))
  | .replace cache key value ttl => decoded codec (rateLimit limited
      (valueOf (.replace cache key (codec.encode value) (expires now ttl)) false))
  | .replaceBytes cache key value ttl =>
    raw (rateLimit limited (valueOf (.replace cache key value (expires now ttl)) false))
  | .counterGet cache key => Remote.counterGet cache key
  | .counterSet cache key value => rateLimit limited (acknowledged (.counterSet cache key value))
  | .counterAdd cache key value => rateLimit limited (Remote.counterAdd cache key value)
  | .counterDel cache key => rateLimit limited (acknowledged (.counterDel cache key))
  | .lock key => rateLimit limited (Remote.lock key none rounds)
  | .alive key id => Remote.alive key id
  | .release key id => Remote.release key id
  | .notify => rateLimit limited Remote.notify

/-! ## The requests as effects -/

section Outcomes

variable {A U : Type}
  {wire : ApiStreamRequestPayload K V → Effect (Result (ApiStreamResponsePayload V))}
  {q : ApiStreamRequestPayload K V} {req : CacheRequest K V} {update : U}

/-- What comes back for the request `q` is an outcome of `x`, which the response wraps with `pack`, or
the error of the stream. -/
def Carries (wire : ApiStreamRequestPayload K V → Effect (Result (ApiStreamResponsePayload V)))
    (q : ApiStreamRequestPayload K V) (pack : Result A → ApiStreamResponsePayload V)
    (x : Effect (Result A)) : Prop :=
  ∀ p ∈ wire q, ∃ r, (r, p.2) ∈ x ∧ (p.1 = .ok (pack r) ∨ ∃ e, r = .error e ∧ p.1 = .error e)

theorem Carries.mem {pack : Result A → ApiStreamResponsePayload V}
    {x : Effect (Result A)} (h : Carries wire q pack x)
    {f : Result (ApiStreamResponsePayload V) → Prog K V (Result A)}
    (hok : ∀ r, f (.ok (pack r)) = pure r) (herr : ∀ e, f (.error e) = pure (.error e))
    {p : Result A × ℕ}
    (hp : p ∈ (Dialogue.send q >>= f).outcomes wire (.error .panicked)) : p ∈ x := by
  obtain ⟨r, m, n, hr, hn, hsum⟩ := hp
  change (p.1, n) ∈ (f r).outcomes wire (.error .panicked) at hn
  have hdone : ∀ a, (a, m) ∈ x → f r = pure a → p ∈ x := by
    intro a ha hf
    rw [hf] at hn
    obtain ⟨rfl, rfl⟩ : p.1 = a ∧ n = 0 := Prod.mk.inj hn
    rwa [← hsum.trans (Nat.add_zero m)] at ha
  obtain ⟨a, ha, h1 | ⟨e, rfl, h1⟩⟩ := h _ hr
  · exact hdone a ha ((congrArg f h1).trans (hok a))
  · exact hdone _ ha ((congrArg f h1).trans (herr e))

/-- A retry of a client is one of the retries that are counted. -/
theorem mem_withRetry {y : Prog K V (Result A)} {x : Effect (Result A)}
    (h : ∀ p ∈ y.outcomes wire (.error .panicked), p ∈ x) {p : Result A × ℕ}
    (hp : p ∈ (withRetry y).outcomes wire (.error .panicked)) : p ∈ withRetry x := by
  obtain ⟨a, m, n, ha, hb, hsum⟩ :=
    Dialogue.mem_outcomes_bind (.error .panicked) (by exact rfl) hp
  refine ⟨a, m, n, h _ ha, ?_, hsum⟩
  cases a with
  | ok a => exact hb
  | error e =>
    revert hb
    dsimp only
    split_ifs
    · exact h _
    · exact id

/-- **A modifying request** of a remote client is a `cache_req_retry`. -/
theorem mem_cacheReqRetry
    {clientWrite : U → Effect (Except RaftError (Except Unit (CacheResponse V)))}
    {server : Body U → Effect (Result (CacheResponse V))}
    (h : Carries wire (.kv req) .kv (Client.cacheReq clientWrite server update))
    {p : Result (CacheResponse V) × ℕ}
    (hp : p ∈ (cacheReqRetry req false).outcomes wire (.error .panicked)) :
    p ∈ Client.cacheReqRetry clientWrite server update :=
  mem_withRetry (fun _ => h.mem (fun _ => rfl) fun _ => rfl) hp

/-- **A request for a lock** that is written to the log is a `lock_req_retry`. -/
theorem mem_lockReqRetry {clientWrite : U → Effect (Except RaftError (Except Unit LockState))}
    {server : Body U → Effect (Result LockState)}
    (h : Carries wire (.kv req) (fun r => .kv (r.map .lock))
      (Client.lockReq clientWrite server update)) {p : Result LockState × ℕ}
    (hp : p ∈ (lockReqRetry req false).outcomes wire (.error .panicked)) :
    p ∈ Client.lockReqRetry clientWrite server update :=
  mem_withRetry (fun _ => h.mem (fun r => by cases r <;> rfl) fun _ => rfl) hp

/-- **A notification** is the `notify` of a client that is not rate limited. -/
theorem mem_notifyReq {clientWrite : U → Effect (Except RaftError (Except Unit Unit))}
    {server : Body U → Effect (Result Unit)}
    (h : Carries wire (.notify req) .notify (Client.notifyReq clientWrite server update))
    {p : Result Unit × ℕ}
    (hp : p ∈ (withRetry (notifyReq req)).outcomes wire (.error .panicked)) :
    p ∈ Client.notify clientWrite server update :=
  .inr (mem_withRetry (fun _ => h.mem (fun _ => rfl) fun _ => rfl) hp)

end Outcomes

/-! ## When the two sides agree -/

variable [DecidableEq K]

/-- **A call gets through**: its requests do not panic, and it ends with a value or an error. -/
def Agrees (codec : Codec V T) (nodes : Set (Node K V)) (call : Call K V T) : Prop :=
  ∀ limited now rounds,
    (call.run codec limited now rounds).Safe (Agreed nodes) (Answers nodes) fun _ => True

/-- If one of the nodes has the cache `idx`, its handler runs on all of them. -/
def Common (nodes : Set (Node K V)) (idx : ℕ) : Prop :=
  ∀ server ∈ nodes, idx < server.caches.length → ∀ replica ∈ nodes, replica.Runs idx

def Call.Covered (nodes : Set (Node K V)) : Call K V T → Prop
  | .clearCache idx | .clearCounters idx | .put idx _ _ _ | .putBytes idx _ _ _ | .delete idx _
  | .getRemove idx _ | .getRemoveBytes idx _ | .replace idx _ _ _ | .replaceBytes idx _ _ _
  | .counterSet idx _ _ | .counterAdd idx _ _ | .counterDel idx _ => Common nodes idx
  | .clearCacheAll => ∀ replica ∈ nodes, ∀ i < replica.caches.length, replica.Runs i
  | .get idx _ | .getBytes idx _ => ∀ server ∈ nodes, idx < server.caches.length → server.Runs idx
  | .lock _ | .alive _ _ | .release _ _ => ∀ replica ∈ nodes, replica.LocksRun
  | .getSnapshot _ | .notify => True
  | .counterGet _ _ => False

section Safe

variable {nodes : Set (Node K V)} {α : Type}

abbrev Ends (nodes : Set (Node K V)) (P : α → Prop) (x : Prog K V α) : Prop :=
  x.Safe (Agreed nodes) (Answers nodes) P

theorem Ends.withRetry {req : Prog K V (Result α)} {P : Result α → Prop}
    (h : Ends nodes P req) : Ends nodes P (withRetry req) := by
  refine Dialogue.safe_bind.mpr (h.mono fun r hr => ?_)
  cases r with
  | ok a => exact hr
  | error e =>
    dsimp only
    split_ifs
    · exact h
    · exact hr

theorem Ends.rateLimit {req : Prog K V (Result α)} {P : Result α → Prop}
    (h : Ends nodes P req) (he : P (.error .rateLimit)) (limited : Bool) :
    Ends nodes P (Remote.rateLimit limited req) := by
  rw [Remote.rateLimit]
  split_ifs
  · exact he
  · exact h

/-- The result of a request is an error, or what the request may get. -/
def Yields (G : α → Prop) (r : Result α) : Prop := ∀ a, r = .ok a → G a

variable {req : CacheRequest K V} {key : K}

theorem cacheReqRetry_ends {isRemoteGet : Bool} {G : CacheResponse V → Prop}
    (hagreed : Agreed nodes (if isRemoteGet then .kvGet req else .kv req))
    (hG : ∀ resp, Responds nodes (if isRemoteGet then .kvGet req else .kv req) resp →
      ∃ res, resp = .kv res ∧ Yields G res) :
    Ends nodes (Yields G) (cacheReqRetry req isRemoteGet) := by
  refine Ends.withRetry (Dialogue.safe_bind.mpr ⟨hagreed, fun r hr => ?_⟩)
  cases r with
  | error e => exact fun a ha => (nomatch ha)
  | ok resp =>
    obtain ⟨res, rfl, hres⟩ := hG resp hr
    exact hres

theorem cacheReqRetry_kv (hagreed : Agreed nodes (.kv req)) :
    Ends nodes (Yields (Gets req)) (cacheReqRetry req false) :=
  cacheReqRetry_ends hagreed fun _ => responds_kv

theorem cacheReqRetry_get {idx : ℕ}
    (hrun : ∀ server ∈ nodes, idx < server.caches.length → server.Runs idx) :
    Ends nodes (Yields fun r => ∃ v, r = .value v)
      (cacheReqRetry (.get idx key : CacheRequest K V) true) :=
  cacheReqRetry_ends ((agreed_kvGet idx key).mpr hrun) fun _ => responds_kvGet

theorem acknowledged_ends (hagreed : Agreed nodes (.kv req)) :
    Ends nodes (fun _ => True) (acknowledged req : Prog K V (Result (Value V T))) := by
  refine Dialogue.safe_bind.mpr ((cacheReqRetry_kv hagreed).mono fun r _ => ?_)
  cases r <;> trivial

theorem valueOf_ends {isRemoteGet : Bool} {G : CacheResponse V → Prop}
    (h : Ends nodes (Yields G) (cacheReqRetry req isRemoteGet))
    (hG : ∀ r, G r → ∃ v, r = .value v) : Ends nodes (fun _ => True) (valueOf req isRemoteGet) := by
  refine Dialogue.safe_bind.mpr (h.mono fun r hr => ?_)
  cases r with
  | error e => trivial
  | ok a =>
    obtain ⟨v, rfl⟩ := hG a (hr a rfl)
    trivial

theorem raw_ends {req : Prog K V (Result (Option V))} (h : Ends nodes (fun _ => True) req) :
    Ends nodes (fun _ => True) (raw req : Prog K V (Result (Value V T))) := by
  refine Dialogue.safe_bind.mpr (h.mono fun r _ => ?_)
  cases r <;> trivial

theorem decoded_ends {codec : Codec V T} {req : Prog K V (Result (Option V))}
    (h : Ends nodes (fun _ => True) req) : Ends nodes (fun _ => True) (decoded codec req) := by
  refine Dialogue.safe_bind.mpr (h.mono fun r _ => ?_)
  rcases r with e | _ | v <;> trivial

theorem counterAdd_ends {cache : ℕ} {value : ℤ}
    (hagreed : Agreed nodes (.kv (.counterAdd cache key value))) : Ends nodes (fun _ => True)
      (Remote.counterAdd cache key value : Prog K V (Result (Value V T))) := by
  refine Dialogue.safe_bind.mpr ((cacheReqRetry_kv hagreed).mono fun r hr => ?_)
  cases r with
  | error e => trivial
  | ok a =>
    obtain ⟨v, rfl⟩ := hr a rfl
    trivial

theorem lockReqRetry_kv (hagreed : Agreed nodes (.kv req))
    (hreq : ∀ r, Gets req r → ∃ state, r = .lock state) :
    Ends nodes (Yields fun state => Gets req (.lock state)) (lockReqRetry req false) := by
  refine Ends.withRetry (Dialogue.safe_bind.mpr ⟨hagreed, fun r hr => ?_⟩)
  cases r with
  | error e => exact fun a ha => (nomatch ha)
  | ok resp =>
    obtain ⟨res, rfl, hres⟩ := responds_kv hr
    cases res with
    | error e => exact fun a ha => (nomatch ha)
    | ok a =>
      obtain ⟨state, rfl⟩ := hreq a (hres a rfl)
      intro state' hstate
      cases hstate
      exact hres _ rfl

theorem lockReqRetry_await {id : ℕ} (hagreed : Agreed nodes (.lockAwait (.lockAwait key id))) :
    Ends nodes (Yields fun state => state = .locked id ∨ state = .released)
      (lockReqRetry (.lockAwait key id) true) := by
  refine Ends.withRetry (Dialogue.safe_bind.mpr ⟨hagreed, fun r hr => ?_⟩)
  cases r with
  | error e => exact fun a ha => (nomatch ha)
  | ok resp =>
    obtain rfl | rfl := responds_lockAwait hr
    · exact fun a ha => .inl (Except.ok.inj ha).symm
    · exact fun a ha => .inr (Except.ok.inj ha).symm

section

variable (hrun : ∀ node ∈ nodes, node.LocksRun)
include hrun

theorem agreed_locks (hready : ∀ node : Node K V, node.Ready req ↔ node.LocksRun) :
    Agreed nodes (.kv req) :=
  (agreed_kv req).mpr fun _ _ _ replica hr => (hready replica).mpr (hrun replica hr)

theorem lock_ends (key : K) (ticket : Option ℕ) (rounds : ℕ) : Ends nodes (fun _ => True)
      (Remote.lock key ticket rounds : Prog K V (Result (Value V T))) := by
  induction rounds generalizing ticket with
  | zero => trivial
  | succ rounds ih =>
    have hlock : Agreed nodes (.kv (.lock key ticket)) := agreed_locks hrun fun _ => Iff.rfl
    refine Dialogue.safe_bind.mpr ((lockReqRetry_kv hlock ?_).mono fun r hr => ?_)
    · rintro r ⟨id, rfl | rfl⟩ <;> exact ⟨_, rfl⟩
    cases r with
    | error e => trivial
    | ok state =>
      obtain ⟨id, hid | hid⟩ := hr state rfl
      · cases hid
        trivial
      · cases hid
        have hawait := lockReqRetry_await ((agreed_lockAwait key id).mpr hrun)
        refine Dialogue.safe_bind.mpr (hawait.mono fun r hr => ?_)
        cases r with
        | error e => trivial
        | ok state =>
          obtain rfl | rfl := hr state rfl
          · trivial
          · exact ih (some id)

theorem alive_ends (key : K) (id : ℕ) :
    Ends nodes (fun _ => True) (Remote.alive key id : Prog K V (Result (Value V T))) := by
  have halive : Agreed nodes (.kv (.lockAlive key id)) := agreed_locks hrun fun _ => Iff.rfl
  refine Dialogue.safe_bind.mpr ((lockReqRetry_kv halive ?_).mono fun r hr => ?_)
  · rintro r (⟨id, rfl⟩ | rfl) <;> exact ⟨_, rfl⟩
  cases r with
  | error e => trivial
  | ok state =>
    obtain ⟨id, hid⟩ | hid := hr state rfl <;> cases hid <;> trivial

theorem release_ends (key : K) (id : ℕ) :
    Ends nodes (fun _ => True) (Remote.release key id : Prog K V (Result (Value V T))) := by
  have hrelease : Agreed nodes (.kv (.lockRelease key id)) := agreed_locks hrun fun _ => Iff.rfl
  refine Dialogue.safe_bind.mpr ((lockReqRetry_kv hrelease ?_).mono fun r _ => ?_)
  · rintro r rfl
    exact ⟨_, rfl⟩
  cases r <;> trivial

end

theorem notify_ends :
    Ends nodes (fun _ => True) (Remote.notify : Prog K V (Result (Value V T))) := by
  have hreq : Ends nodes (fun _ => True) (notifyReq (.notify : CacheRequest K V)) := by
    refine Dialogue.safe_bind.mpr ⟨agreed_notify, fun r hr => ?_⟩
    cases r with
    | error e => trivial
    | ok resp =>
      obtain ⟨res, rfl⟩ := responds_notify hr
      trivial
  refine Dialogue.safe_bind.mpr ((Ends.withRetry hreq).mono fun r _ => ?_)
  cases r <;> trivial

theorem agreed_common {idx : ℕ} (hidx : cacheIdx req = some idx)
    (hready : ∀ node : Node K V, node.Ready req ↔ node.Runs idx) :
    Agreed nodes (.kv req) ↔ Common nodes idx := by
  simp only [agreed_kv, hidx, hready, Option.mem_some_iff, forall_eq', Common]

theorem agreed_all (hne : nodes.Nonempty) (hidx : cacheIdx req = none) :
    Agreed nodes (.kv req) ↔ ∀ replica ∈ nodes, replica.Ready req := by
  obtain ⟨server, hserver⟩ := hne
  rw [agreed_kv, hidx]
  exact ⟨fun h => h server hserver (by simp), fun h _ _ _ => h⟩

end Safe

/-- **Client and server agree** on a call iff the handlers that it needs run on every node, an index
that one node has all nodes have, and the call is not `counter_get`. -/
theorem remote_calls_agree (codec : Codec V T) {nodes : Set (Node K V)} (hne : nodes.Nonempty)
    (call : Call K V T) : Agrees codec nodes call ↔ call.Covered nodes := by
  constructor
  · intro h
    have hfirst : ∀ q, (call.run codec false 0 1).first = some q → Agreed nodes q :=
      fun q hq => (h false 0 1).first hq
    cases call with
    | get idx key | getBytes idx key => exact (agreed_kvGet idx key).mp (hfirst _ rfl)
    | getSnapshot | notify => trivial
    | clearCacheAll => exact (agreed_all hne rfl).mp (hfirst _ rfl)
    | lock | alive | release => exact (agreed_all hne rfl).mp (hfirst _ rfl)
    | counterGet =>
      obtain ⟨server, hserver⟩ := hne
      exact hfirst _ rfl server hserver
    | _ => exact (agreed_common rfl fun _ => Iff.rfl).mp (hfirst _ rfl)
  · intro hcov limited now rounds
    cases call with
    | get idx key =>
      exact decoded_ends (valueOf_ends (cacheReqRetry_get hcov) fun _ => id)
    | getBytes idx key =>
      exact raw_ends (valueOf_ends (cacheReqRetry_get hcov) fun _ => id)
    | getSnapshot => trivial
    | notify => exact notify_ends.rateLimit trivial limited
    | counterGet => exact hcov.elim
    | lock key => exact (lock_ends hcov key none rounds).rateLimit trivial limited
    | alive key id => exact alive_ends hcov key id
    | release key id => exact release_ends hcov key id
    | getRemove | replace =>
      refine decoded_ends
        (Ends.rateLimit (valueOf_ends (cacheReqRetry_kv ?_) fun _ => id) trivial limited)
      exact (agreed_common rfl fun _ => Iff.rfl).mpr hcov
    | getRemoveBytes | replaceBytes =>
      refine raw_ends (Ends.rateLimit (valueOf_ends (cacheReqRetry_kv ?_) fun _ => id) trivial limited)
      exact (agreed_common rfl fun _ => Iff.rfl).mpr hcov
    | counterAdd =>
      refine Ends.rateLimit (counterAdd_ends ?_) trivial limited
      exact (agreed_common rfl fun _ => Iff.rfl).mpr hcov
    | clearCacheAll =>
      refine Ends.rateLimit (acknowledged_ends ?_) trivial limited
      exact (agreed_all hne rfl).mpr hcov
    | _ =>
      refine Ends.rateLimit (acknowledged_ends ?_) trivial limited
      exact (agreed_common rfl fun _ => Iff.rfl).mpr hcov

def fresh (n : ℕ) : Node ℕ ℕ where
  caches := List.replicate n (some .spawn)
  cacheWorld := ⟨false, fun _ => 0⟩
  lockWorld := ⟨false, fun _ => 0, fun _ => false⟩
  turns := []
  ack := 0
  channels := by decide
  waits := rfl

def plain : Codec ℕ ℕ := ⟨id, .ok⟩

theorem remote_calls_agree_fresh :
    Agrees plain {fresh 1} (.counterAdd 0 7 1) ∧ Agrees plain {fresh 1} (.lock 7) := by
  have hne : ({fresh 1} : Set (Node ℕ ℕ)).Nonempty := Set.singleton_nonempty _
  refine ⟨(remote_calls_agree plain hne _).mpr ?_, (remote_calls_agree plain hne _).mpr ?_⟩
  · rintro server rfl - replica rfl
    exact ⟨_, rfl⟩
  · rintro replica rfl
    rfl

/-- **`counter_get` of a remote client panics the server's task.** It is sent as `KVGet`, for which the
API server expects a `Get`. Where a node has fewer caches than the server, its `apply` panics. -/
theorem counter_get_panics :
    (Call.run plain false 0 1 (.counterGet 0 7)).first = some (.kvGet (.counterGet 0 7)) ∧
    handle (fresh 1).caches.length (.kvGet (.counterGet 0 7) : ApiStreamRequestPayload ℕ ℕ) =
      .unreachable ∧
    ¬ Agrees plain {fresh 1} (.counterGet 0 7) ∧
    ¬ Agrees plain {fresh 2, fresh 1} (.putBytes 1 7 5 none) := by
  refine ⟨rfl, rfl, fun h => (h false 0 1).first rfl (fresh 1) rfl, fun h => ?_⟩
  have hput : Agreed {fresh 2, fresh 1} (.kv (.put 1 7 5 none)) := (h false 0 1).first rfl
  obtain ⟨r, hr⟩ := hput (fresh 2) (.inl rfl) (fresh 1) (.inr rfl) 0
  cases hr

end Hiqlite.Client.Remote
