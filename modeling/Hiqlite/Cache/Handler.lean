import Hiqlite.Lib.Exec
import Hiqlite.Lib.Path
import Hiqlite.Lib.Table

/-!
# E1 — the cache handler

One task (`kv_handler`) owns a cache: values that may expire, counters, and an index that has, for
every time, the keys that are due then.

Every call of `Utc::now()` is a reading of its own. The subtractions are those of `i64`: a debug build
panics where they overflow, a release build wraps around.
-/

namespace Hiqlite.Cache

open Exec


structure World where
  /-- Built with `debug_assertions` and overflow checks. -/
  debugAssertions : Bool
  /-- The readings of `Utc::now().timestamp_micros()`, one after the other. -/
  clock : ℕ → ℤ

inductive Panic
  | overflow
  | outOfSync
  deriving DecidableEq

/-- The values, each with its optional expiry, and the counters of a cache. -/
structure CacheSnapshot (K V : Type) where
  values : Table K (V × Option ℤ)
  counters : Table K ℤ

structure KvHandler (K V : Type) where
  values : Table K (V × Option ℤ)
  counters : Table K ℤ
  expiries : Table ℤ (List K)
  reads : ℕ

inductive CacheRequestHandler (K V : Type)
  | get (key : K)
  | getRemove (key : K)
  | put (key : K) (value : V) (expires : Option ℤ)
  | replace (key : K) (value : V) (expires : Option ℤ)
  | delete (key : K)
  | clear
  | clearCounters
  | snapshotBuildCacheOnly
  | snapshotBuild
  | snapshotInstall (snapshot : CacheSnapshot K V)
  | counterGet (key : K)
  | counterSet (key : K) (value : ℤ)
  | counterAdd (key : K) (delta : ℤ)
  | counterDel (key : K)

inductive Reply (K V : Type)
  | value (v : Option V)
  | entries (kvs : List (K × V))
  | snapshot (s : CacheSnapshot K V)
  | installed
  | counter (v : Option ℤ)
  | count (v : ℤ)

variable {K V : Type}

def InI64 (a : ℤ) : Prop := -2 ^ 63 ≤ a ∧ a < 2 ^ 63

instance (a : ℤ) : Decidable (InI64 a) := by unfold InI64; infer_instance

def saturatingAdd (a b : ℤ) : ℤ := max (-2 ^ 63) (min (2 ^ 63 - 1) (a + b))

def saturatingMul (a b : ℤ) : ℤ := max (-2 ^ 63) (min (2 ^ 63 - 1) (a * b))

/-- The `expires` of `Client::put_bytes` and of `Client::replace_bytes`, for a time to live in
seconds. -/
def expires (now seconds : ℤ) : ℤ := saturatingAdd now (saturatingMul seconds 1000000)

namespace KvHandler

def spawn : KvHandler K V := ⟨∅, ∅, ∅, 0⟩

def time (w : World) (c : KvHandler K V) : ℤ := w.clock (c.reads - 1)

def read (c : KvHandler K V) : KvHandler K V := { c with reads := c.reads + 1 }

def bucket (c : KvHandler K V) (exp : ℤ) : List K := (c.expiries.lookup exp).getD []

def firstExpiry (c : KvHandler K V) : Option ℤ := c.expiries.keys.min?

variable [DecidableEq K]

def expiryOf (c : KvHandler K V) (key : K) : Option ℤ := (c.values.lookup key).bind Prod.snd

/-- Remove one key from the index; an empty bucket is dropped. -/
def removeExpiry (exp : ℤ) (key : K) (c : KvHandler K V) : KvHandler K V :=
  match c.expiries.lookup exp with
  | some keys =>
    if (keys.filter (· ≠ key)).isEmpty then { c with expiries := c.expiries.erase exp }
    else { c with expiries := c.expiries.insert exp (keys.filter (· ≠ key)) }
  | none => c

def dropExpiry (key : K) (c : KvHandler K V) : KvHandler K V :=
  match c.expiryOf key with
  | some exp => c.removeExpiry exp key
  | none => c

omit [DecidableEq K] in
def registerExpiry (key : K) (exp : ℤ) (c : KvHandler K V) : KvHandler K V :=
  { c with expiries := c.expiries.insert exp (c.bucket exp ++ [key]) }

/-- Put a value under a key, with the index brought up to date first. -/
def store (key : K) (value : V) (expires : Option ℤ) (c : KvHandler K V) : KvHandler K V :=
  let c := c.dropExpiry key
  let c := match expires with
    | some exp => c.registerExpiry key exp
    | none => c
  { c with values := c.values.insert key (value, expires) }

/-- Remove the value under a key, with the index brought up to date first. -/
def discard (key : K) (c : KvHandler K V) : KvHandler K V :=
  let c := c.dropExpiry key
  { c with values := c.values.erase key }

def rebuild : List (Sigma fun _ : K => V × Option ℤ) → KvHandler K V → KvHandler K V
  | [], c => c
  | ⟨key, _, some exp⟩ :: entries, c => rebuild entries (c.registerExpiry key exp)
  | ⟨_, _, none⟩ :: entries, c => rebuild entries c

end KvHandler

def now (w : World) : Exec (KvHandler K V) Panic ℤ := do
  modify KvHandler.read
  let c ← Exec.get
  pure (c.time w)

def sub (w : World) (a b : ℤ) : Exec (KvHandler K V) Panic ℤ :=
  if InI64 (a - b) then pure (a - b)
  else if w.debugAssertions then stop .overflow
  else pure ((a - b).bmod (2 ^ 64))

variable [DecidableEq K]

/-- What is found under a key, unless it is over now. -/
def lookup (w : World) (entry : Option (V × Option ℤ)) : Exec (KvHandler K V) Panic (Option V) :=
  match entry with
  | some (value, some exp) => do
    let now ← now w
    if exp ≤ now then pure none else pure (some value)
  | some (value, none) => pure (some value)
  | none => pure none

def process (w : World) : CacheRequestHandler K V →
    Exec (KvHandler K V) Panic (Option (Reply K V))
  | .get key => do
    let c ← Exec.get
    let value ← lookup w (c.values.lookup key)
    pure (some (.value value))
  | .getRemove key => do
    let c ← Exec.get
    modify (KvHandler.discard key)
    let value ← lookup w (c.values.lookup key)
    pure (some (.value value))
  | .put key value expires => do
    modify (KvHandler.store key value expires)
    pure none
  | .replace key value expires => do
    let c ← Exec.get
    modify (KvHandler.store key value expires)
    -- what is stored, without a look at its expiry
    pure (some (.value ((c.values.lookup key).map Prod.fst)))
  | .delete key => do
    modify (KvHandler.discard key)
    pure none
  | .clear => do
    modify fun c => { c with values := ∅, expiries := ∅ }
    pure none
  | .clearCounters => do
    modify fun c => { c with counters := ∅ }
    pure none
  | .snapshotBuildCacheOnly => do
    let c ← Exec.get
    pure (some (.entries (c.values.entries.map fun e => (e.1, e.2.1))))
  | .snapshotBuild => do
    let c ← Exec.get
    pure (some (.snapshot ⟨c.values, c.counters⟩))
  | .snapshotInstall snapshot => do
    modify fun c => { c with
      values := snapshot.values, counters := snapshot.counters, expiries := ∅ }
    modify (KvHandler.rebuild snapshot.values.entries)
    pure (some .installed)
  | .counterGet key => do
    let c ← Exec.get
    pure (some (.counter (c.counters.lookup key)))
  | .counterSet key value => do
    modify fun c => { c with counters := c.counters.insert key value }
    pure none
  | .counterAdd key delta => do
    let c ← Exec.get
    let v := match c.counters.lookup key with
      | some current => saturatingAdd current delta
      | none => delta
    modify fun c => { c with counters := c.counters.insert key v }
    pure (some (.count v))
  | .counterDel key => do
    modify fun c => { c with counters := c.counters.erase key }
    pure none

/-- Remove the keys of a bucket, whose expiry a debug build checks. -/
def removeDue (w : World) (exp : ℤ) : List K → Exec (KvHandler K V) Panic Unit
  | [] => pure ()
  | key :: keys => do
    let c ← Exec.get
    if w.debugAssertions && c.expiryOf key != some exp then stop .outOfSync
    else do
      modify fun c => { c with values := c.values.erase key }
      removeDue w exp keys

inductive Iteration (K V : Type)
  | popped
  | slept
  | served (reply : Option (Reply K V))

/-- Wait for a request or for the end of the time to sleep. -/
def select (w : World) : Option (CacheRequestHandler K V) →
    Exec (KvHandler K V) Panic (Iteration K V)
  | some req => do
    let reply ← process w req
    pure (.served reply)
  | none => pure .slept

/-- **One iteration of the loop**, with the request that comes while it waits. -/
def iteration (w : World) (req : Option (CacheRequestHandler K V)) :
    Exec (KvHandler K V) Panic (Iteration K V) := do
  let c ← Exec.get
  match c.firstExpiry with
  | some exp => do
    let t ← now w
    let left ← sub w exp t
    if left < 1 then do
      modify fun c => { c with expiries := c.expiries.erase exp }
      removeDue w exp (c.bucket exp)
      pure .popped
    else do
      -- the clock is read once more, for the time to sleep
      let t ← now w
      let _ ← sub w exp t
      select w req
  | none => select w req

/-- The request that was answered, and the reply. -/
abbrev Label (K V : Type) := Option (CacheRequestHandler K V × Option (Reply K V))

/-- **What the loop does.** -/
inductive Step (w : World) : KvHandler K V → Label K V → KvHandler K V → Prop
  | popped {c c' : KvHandler K V} {req : Option (CacheRequestHandler K V)}
      (h : iteration w req c = (.ok .popped, c')) : Step w c none c'
  | slept {c c' : KvHandler K V} (h : iteration w none c = (.ok .slept, c')) : Step w c none c'
  | served {c c' : KvHandler K V} {req : CacheRequestHandler K V} {reply : Option (Reply K V)}
      (h : iteration w (some req) c = (.ok (.served reply), c')) : Step w c (some (req, reply)) c'

end Hiqlite.Cache
