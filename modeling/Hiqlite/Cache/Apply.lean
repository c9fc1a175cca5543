import Hiqlite.Cache.Snapshot

/-!
# E5 — the tasks of the cache group

The state machine applies batches of log entries (`apply`) and builds snapshots (`build_snapshot_data`).
`apply` holds a lock for writing during a batch, and a build holds it for reading. Most messages of
`apply` to the caches are sent without waiting for an answer.

The handlers of the locks and of the notifications are there or gone: `apply` unwraps their answers,
and a build that of the locks.
-/

namespace Hiqlite.Cache

open Function

/-! ## The log -/

inductive CacheRequest (K V : Type)
  | get (cacheIdx : ℕ) (key : K)
  | put (cacheIdx : ℕ) (key : K) (value : V) (expires : Option ℤ)
  | getRemove (cacheIdx : ℕ) (key : K)
  | replace (cacheIdx : ℕ) (key : K) (value : V) (expires : Option ℤ)
  | delete (cacheIdx : ℕ) (key : K)
  | clear (cacheIdx : ℕ)
  | clearCounters (cacheIdx : ℕ)
  | clearAll
  | notify
  | lock (key : K) (id : Option ℕ)
  | lockAwait (key : K) (id : ℕ)
  | lockRelease (key : K) (id : ℕ)
  | lockAlive (key : K) (id : ℕ)
  | counterGet (cacheIdx : ℕ) (key : K)
  | counterSet (cacheIdx : ℕ) (key : K) (value : ℤ)
  | counterAdd (cacheIdx : ℕ) (key : K) (value : ℤ)
  | counterDel (cacheIdx : ℕ) (key : K)

/-- The payload of an entry, with the type `M` of the memberships. -/
inductive EntryPayload (K V M : Type)
  | blank
  | normal (req : CacheRequest K V)
  | membership (mem : M)

structure Entry (K V M : Type) where
  logId : LogId
  payload : EntryPayload K V M

/-- The handlers that are no caches. -/
inductive Aside
  | locks
  | notifications
  deriving DecidableEq

inductive Instr (K V M : Type)
  /-- `last_applied_log_id = Some(entry.log_id)` -/
  | entry (logId : LogId)
  /-- A message to a cache; `wait` says whether its answer is awaited. -/
  | send (cacheIdx : ℕ) (req : CacheRequestHandler K V) (wait : Bool)
  /-- A message to another handler, with its answer. -/
  | elsewhere (handler : Aside)
  | membership (logId : LogId) (mem : M)
  | unreachable

variable {K V M : Type}

/-- The messages of a request, on a node with `n` caches. -/
def CacheRequest.instrs (n : ℕ) : CacheRequest K V → List (Instr K V M)
  | .get .. => [.unreachable]
  | .put idx key value expires => [.send idx (.put key value expires) false]
  | .getRemove idx key => [.send idx (.getRemove key) true]
  | .replace idx key value expires => [.send idx (.replace key value expires) true]
  | .delete idx key => [.send idx (.delete key) false]
  | .clear idx => [.send idx .clear false]
  | .clearCounters idx => [.send idx .clearCounters false]
  | .clearAll => (List.range n).flatMap fun i => [.send i .clear false, .send i .clearCounters false]
  | .notify => [.elsewhere .notifications]
  | .lock .. => [.elsewhere .locks]
  | .lockAwait .. => [.unreachable]
  | .lockRelease .. => [.elsewhere .locks]
  | .lockAlive .. => [.elsewhere .locks]
  | .counterGet .. => [.unreachable]
  | .counterSet idx key value => [.send idx (.counterSet key value) false]
  | .counterAdd idx key value => [.send idx (.counterAdd key value) true]
  | .counterDel idx key => [.send idx (.counterDel key) false]

def EntryPayload.instrs (n : ℕ) (logId : LogId) : EntryPayload K V M → List (Instr K V M)
  | .blank => []
  | .normal req => req.instrs n
  | .membership mem => [.membership logId mem]

/-- **What `apply` does with an entry.** -/
def Entry.instrs (n : ℕ) (e : Entry K V M) : List (Instr K V M) :=
  .entry e.logId :: e.payload.instrs n e.logId

/-! ## The tasks -/

inductive ReplyTo
  | nobody
  | apply
  | builder (b : ℕ)
  deriving DecidableEq

structure Message (K V : Type) where
  req : CacheRequestHandler K V
  replyTo : ReplyTo

inductive ApplyTask (K V M : Type)
  | idle
  | running (todo : List (Instr K V M)) (last : Option LogId) (waiting : Bool)
  | panicked

inductive Builder (K V : Type)
  | building (caches : List (CacheSnapshot K V)) (waiting : Bool)
  | done

def Builder.isDone : Builder K V → Bool
  | .done => true
  | .building .. => false

/-- **The tasks of the cache group**, with the entries so far and the snapshots. -/
structure System (K V M : Type) where
  caches : ℕ → KvHandler K V
  channels : ℕ → List (Message K V)
  gone : Aside → Bool
  lastAppliedLogId : Option LogId
  lastMembership : Option LogId × M
  apply : ApplyTask K V M
  builders : List (Builder K V)
  snapshots : List (SnapshotMeta (Option LogId × M) × List (CacheSnapshot K V))
  entries : List (Entry K V M)

def System.start (base : ℕ → KvHandler K V) (last : Option LogId) (mem : Option LogId × M) :
    System K V M :=
  ⟨base, fun _ => [], fun _ => false, last, mem, .idle, [], [], []⟩

def System.push (i : ℕ) (m : Message K V) (s : System K V M) : System K V M :=
  { s with channels := update s.channels i (s.channels i ++ [m]) }

def System.deliver (reply : Option (Reply K V)) : ReplyTo → System K V M → System K V M
  | .nobody, s => s
  | .apply, s =>
    match s.apply with
    | .running todo last _ => { s with apply := .running todo last false }
    | _ => s
  | .builder b, s =>
    match s.builders[b]?, reply with
    | some (.building caches _), some (.snapshot snapshot) =>
      { s with builders := s.builders.set b (.building (caches ++ [snapshot]) false) }
    | _, _ => s

def CacheRequestHandler.reads : CacheRequestHandler K V → Bool
  | .get _ | .counterGet _ | .snapshotBuildCacheOnly | .snapshotBuild => true
  | _ => false

inductive Move (K V M : Type)
  | startBatch (entries : List (Entry K V M))
  | apply
  | startBuild
  | build (b : ℕ)
  | handle (i : ℕ)
  | ask (i : ℕ) (req : CacheRequestHandler K V)
  /-- The task of a handler ends. -/
  | stop (a : Aside)

def System.run (n : ℕ) (instr : Instr K V M) (todo : List (Instr K V M)) (last : Option LogId)
    (s : System K V M) : System K V M :=
  match instr with
  | .entry logId => { s with apply := .running todo (some logId) false }
  | .send idx req wait =>
    if idx < n then
      { s.push idx ⟨req, if wait then .apply else .nobody⟩ with apply := .running todo last wait }
    else { s with apply := .panicked }
  | .elsewhere a => { s with apply := if s.gone a then .panicked else .running todo last false }
  | .membership logId mem =>
    { s with lastMembership := (some logId, mem), apply := .running todo last false }
  | .unreachable => { s with apply := .panicked }

variable [DecidableEq K]

/-- **What the tasks do**, on a node with `n` caches. A panic of `apply` or of a build releases the
lock. -/
def System.step (n : ℕ) (w : ℕ → World) (s : System K V M) : Move K V M → Option (System K V M)
  | .startBatch es =>
    match s.apply with
    | .idle =>
      if s.builders.all Builder.isDone then
        some { s with
          apply := .running (es.flatMap (Entry.instrs n)) none false, entries := s.entries ++ es }
      else none
    | _ => none
  | .apply =>
    match s.apply with
    | .running [] last false => some { s with apply := .idle, lastAppliedLogId := last }
    | .running (instr :: todo) last false => some (s.run n instr todo last)
    | _ => none
  | .startBuild =>
    match s.apply with
    | .running .. => none
    | _ => some { s with builders := s.builders ++ [.building [] false] }
  | .build b =>
    match s.builders[b]? with
    | some (.building caches false) =>
      if caches.length < n then
        some { s.push caches.length ⟨.snapshotBuild, .builder b⟩ with
          builders := s.builders.set b (.building caches true) }
      else if s.gone .locks then some { s with builders := s.builders.set b .done }
      else
        some { s with
          builders := s.builders.set b .done
          snapshots := s.snapshots ++ [(⟨s.lastAppliedLogId, s.lastMembership⟩, caches)] }
    | _ => none
  | .handle i =>
    match s.channels i with
    | [] => none
    | m :: rest =>
      match iteration (w i) (some m.req) (s.caches i) with
      | (.ok (.served reply), c) =>
        some (System.deliver reply m.replyTo { s with
          caches := update s.caches i c
          channels := update s.channels i rest })
      | (.ok _, c) => some { s with caches := update s.caches i c }
      | (.error _, _) => none
  | .ask i req => if req.reads then some (s.push i ⟨req, .nobody⟩) else none
  | .stop a => some { s with gone := update s.gone a true }

def System.Step (n : ℕ) (w : ℕ → World) (s : System K V M) (m : Move K V M) (s' : System K V M) : Prop :=
  s.step n w m = some s'

end Hiqlite.Cache
