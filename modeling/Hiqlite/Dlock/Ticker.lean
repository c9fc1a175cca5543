import Hiqlite.Dlock.Exclusion
import Hiqlite.Dlock.Panics

/-!
# D8 — the heartbeat of a held lock

A client that holds a lock runs a task (`spawn_alive_ticker`) that sends a heartbeat every
`LOCK_ALIVE_INTERVAL` and keeps the flag that `Lock::is_locked` reads. A heartbeat and its answer may
take any time or get lost.

* **`is_locked_honest`**: while the flag says so, the handler has granted the key to nobody else;
  **`hanging_heartbeat_lies`**.
-/

namespace Hiqlite.Dlock

open List Option

def second : ℤ := 1000000000

structure Env where
  debugAssertions : Bool
  /-- The readings of the common clock in nanoseconds, one after the other. -/
  nanos : ℕ → ℤ
  gone : Ack → Bool
  /-- `(d.as_seconds_f32() * 1000.0) as u64` for a duration in nanoseconds. -/
  asMillis : ℤ → ℤ

namespace Env

def world (env : Env) : World := ⟨env.debugAssertions, fun n => env.nanos n / second, env.gone⟩

def aliveInterval (env : Env) : ℤ := if env.debugAssertions then 500000000 else 3 * second

def valid (env : Env) : ℤ := env.world.lockValidSeconds * second

/-- For how long the client counts on a lease when heartbeats fail, in milliseconds. -/
def trusted (env : Env) : ℤ := (env.valid - env.aliveInterval) / 1000000

end Env

def requestTimeout : ℤ := 120 * second

inductive Phase
  | spawned
  | waiting (due : ℤ)
  /-- It waits for the answer to the heartbeat that was due at `due`. -/
  | asking (due next : ℤ) (attempt : ℕ) (sentAt : ℤ) (retried : Bool)
  | stopped

structure Ticker where
  id : ℕ
  /-- The length of the handler's log when the ticket got the lock. -/
  since : ℕ
  isLocked : Bool
  lastRenew : ℤ
  phase : Phase

/-- One client with its lock, the handler, and the heartbeats on their way. -/
structure System (K : Type) where
  handler : Handler K
  running : Bool
  reads : ℕ
  ticker : Option Ticker
  attempts : ℕ
  requests : List ℕ
  responses : List (ℕ × LockState)

inductive SystemTurn (K : Type)
  | other (t : Turn K)
  /-- `Client::lock` returns: it got the answer at `n` in the handler's log. -/
  | acquired (n : ℕ)
  | start
  /-- The ticker ticks and is due again at `next`. -/
  | tick (next : ℤ)
  | applied (attempt : ℕ)
  | answered
  /-- The client gets an error, which may say that the leader changed. -/
  | failed (leaderChanged : Bool)

variable {K : Type}

namespace System

def init : System K := ⟨.spawn, true, 0, none, 0, [], []⟩

def awake (s : System K) : Handler K := { s.handler with reads := s.reads }

def now (env : Env) (s : System K) : ℤ := env.nanos (s.reads - 1)

variable [DecidableEq K] (env : Env) (key : K)

def take (s : System K) (t : Turn K) : System K :=
  let out := turn env.world t s.awake
  { s with handler := out.2, running := out.1.isOk, reads := out.2.reads }

def goOn (s : System K) (tk : Ticker) : System K := { s with ticker := some tk, reads := s.reads + 1 }

def ask (s : System K) (tk : Ticker) (due next : ℤ) (retried : Bool) : System K :=
  { s.goOn { tk with phase := .asking due next s.attempts (env.nanos s.reads) retried } with
    attempts := s.attempts + 1
    requests := s.requests ++ [s.attempts] }

def settle (s : System K) (tk : Ticker) (next : ℤ) : LockState → System K
  | .locked _ => s.goOn { tk with
      isLocked := true, lastRenew := env.nanos s.reads, phase := .waiting next }
  | .released => s.goOn { tk with isLocked := false, phase := .stopped }
  -- `unreachable!`: the task panics
  | .queued _ => s.goOn { tk with phase := .stopped }

def giveUp (s : System K) (tk : Ticker) (next : ℤ) : System K :=
  if env.trusted < env.asMillis (env.nanos s.reads - tk.lastRenew) then
    s.goOn { tk with isLocked := false, phase := .stopped }
  else s.goOn { tk with phase := .waiting next }

def turn (s : System K) : SystemTurn K → Option (System K)
  | .other t => if s.running then some (s.take env t) else none
  | .acquired n =>
    match s.ticker, s.handler.log[n]? with
    | none, some (.sent _ key' (.locked id) _ _) =>
      if key' = key then some (s.goOn ⟨id, n + 1, true, env.nanos s.reads, .spawned⟩) else none
    | _, _ => none
  | .start =>
    match s.ticker with
    | some tk =>
      match tk.phase with
      | .spawned =>
        some (s.goOn { tk with phase := .waiting (env.nanos s.reads + env.aliveInterval) })
      | _ => none
    | none => none
  | .tick next =>
    match s.ticker with
    | some tk =>
      match tk.phase with
      | .waiting due =>
        -- `MissedTickBehavior::Delay`: a tick that is late moves the next one
        if due ≤ env.nanos s.reads ∧ due + env.aliveInterval ≤ next ∧
            next ≤ env.nanos s.reads + env.aliveInterval then
          some (s.ask env tk due next false)
        else none
      | _ => none
    | none => none
  | .applied attempt =>
    match s.ticker with
    | some tk =>
      if s.running ∧ attempt ∈ s.requests then
        let s' := s.take env (.request (.alive key tk.id 0))
        some { s' with
          requests := s.requests.erase attempt
          responses := s.responses ++ ((reply (s'.handler.log.drop s.handler.log.length) 0).map
            (attempt, ·)).toList }
      else none
    | none => none
  | .answered =>
    match s.ticker with
    | some tk =>
      match tk.phase with
      | .asking _ next attempt _ _ =>
        (s.responses.lookup attempt).map (s.settle env tk next)
      | _ => none
    | none => none
  | .failed leaderChanged =>
    match s.ticker with
    | some tk =>
      match tk.phase with
      | .asking due next _ _ retried =>
        -- `lock_req_retry` asks once more when the leader changed
        if leaderChanged && !retried then some (s.ask env tk due next true)
        else some (s.giveUp env tk next)
      | _ => none
    | none => none

def Waits (s s' : System K) : Prop :=
  ∀ tk ∈ s.ticker, ∀ due next attempt sentAt retried,
    tk.phase = .asking due next attempt sentAt retried → s'.now env ≤ sentAt + requestTimeout

/-- **The turns of client and handler.** -/
def Step (s : System K) (t : SystemTurn K) (s' : System K) : Prop :=
  s.turn env key t = some s' ∧ s.Waits env s'

end System

def Event.Usurps (key : K) (id : ℕ) : Event K → Prop
  | .grant key' ticket _ _ _ => key' = key ∧ ticket ≠ id
  | _ => False

/-- **The flag is honest**: while `is_locked` returns `true`, the handler has granted the key to no
other ticket since it told this one that it has the lock. -/
def Honest (key : K) (s : System K) : Prop :=
  ∀ tk ∈ s.ticker, tk.isLocked = true → ∀ e ∈ s.handler.log.drop tk.since, ¬ e.Usurps key tk.id

/-! ## What happens to a lease -/

section Lease

variable [DecidableEq K] {w : World} {h h' : Handler K} {key : K} {id : ℕ} {t0 e : ℤ}

omit [DecidableEq K] in
theorem not_usurps {es : List (Event K)} (hnone : ∀ b t, Lease.Event.grant key b t ∉ leases es) :
    ∀ x ∈ es, ¬ x.Usurps key id := by
  intro x hx husurps
  cases x with
  | grant key' ticket now origin queue =>
    obtain ⟨rfl, -⟩ := husurps
    exact hnone ticket now (mem_filterMap.mpr ⟨_, hx, rfl⟩)
  | _ => exact husurps

/-- **A handler keeps a lease.** While it lasts and nobody releases the ticket, nobody is granted
the key. -/
theorem Tracked.keeps (hclock : Monotone w.clock) (ht : Tracked w t0 h) {R : Rules w K}
    {rs : List (LockRequest K)} (hclosed : ∀ data, ¬ R.install data) (hrel : ¬ R.release key id)
    (hgo : Goes w R h rs h') (hold : h.holder key = some (id, e)) (htime : h'.time w ≤ e) :
    (∃ e', h'.holder key = some (id, e') ∧ e ≤ e') ∧
      ∃ es, h'.log = h.log ++ es ∧ ∀ x ∈ es, ¬ x.Usurps key id := by
  obtain ⟨es, hes, hmeets⟩ := hgo.logs
  obtain ⟨r', hpath', hr', hle'⟩ := ht.goes hclock hclosed hgo
  obtain ⟨r, hpath, hr, -⟩ := ht
  rw [hes, leases_append] at hpath'
  obtain ⟨r1, hfirst, hrest⟩ := hpath'.of_append
  obtain rfl : r1 = r := Path.unique (fun _ _ _ _ h1 h2 => h1.unique h2) hfirst hpath
  have hold' : r1.holder key = some (id, e) := (hr key).trans hold
  have hlease := Lease.leaseEnd_le hpath (Lease.recorded hpath key id e hold')
  obtain ⟨⟨e', hend, hle⟩, hnone⟩ := Lease.held hold' hlease hrest
    (fun hmem => hrel (hmeets _ (mem_of_mem_leases hmem))) (hle'.trans htime)
  exact ⟨⟨e', (hr' key).symm.trans hend, hle⟩, es, hes, not_usurps hnone⟩

theorem Tracked.since_told (ht : Tracked w t0 h) {before es : List (Event K)} {ack : Ack}
    {l : LockQueue} (hlog : h.log = before ++ .sent ack key (.locked id) t (some l) :: es)
    (hrel : .release key id ∉ es) (htime : h.time w ≤ l.exp) :
    (∃ e, h.holder key = some (id, e) ∧ l.exp ≤ e) ∧ ∀ x ∈ es, ¬ x.Usurps key id := by
  obtain ⟨r, hpath, hr, hle⟩ := ht
  have htold : leases h.log = leases before ++ ([.told key id t l.exp] ++ leases es) := by
    rw [hlog, leases_append]
    rfl
  rw [htold] at hpath
  obtain ⟨r1, hfirst, hrest⟩ := hpath.of_append
  obtain ⟨r2, hone, hrest⟩ := hrest.of_append
  obtain ⟨r3, hstep, hnil⟩ := hone.of_cons
  obtain rfl := hnil.of_nil
  have hold : r2.holder key = some (id, l.exp) := by
    cases hstep with
    | told _ hold => exact hold
  have hlease := Lease.leaseEnd_le (hfirst.trans hone)
    (Lease.recorded (hfirst.trans hone) key id l.exp hold)
  obtain ⟨⟨e, hend, hle'⟩, hnone⟩ := Lease.held hold hlease hrest
    (fun hmem => hrel (mem_of_mem_leases hmem)) (hle.trans htime)
  exact ⟨⟨e, (hr key).symm.trans hend, hle'⟩, not_usurps hnone⟩

/-- **A heartbeat** of the holder renews its lease and is answered `Locked`, any other one is answered
`Released`. -/
theorem alive_cases (w : World) (h : Handler K) (key : K) (id : ℕ) (ack : Ack) :
    (∃ lock, (turn w (.request (.alive key id ack)) h).2.log =
        h.log ++ [.renew key id (w.clock h.reads),
          .sent ack key (.locked id) (w.clock h.reads) (some lock)] ∧
      (turn w (.request (.alive key id ack)) h).2.holder key =
        some (id, w.clock h.reads + w.lockValidSeconds)) ∨
    (∃ now lock, (turn w (.request (.alive key id ack)) h).2.log =
      h.log ++ [.sent ack key .released now lock]) := by
  change (∃ lock, (handleAlive w key id ack h).2.log = _ ∧
    (handleAlive w key id ack h).2.holder key = _) ∨
      (∃ now lock, (handleAlive w key id ack h).2.log = _)
  rw [handleAlive, Exec.get_bind]
  cases hlock : h.locks.lookup key with
  | none =>
    right
    rw [send_snd]
    exact ⟨_, _, rfl⟩
  | some lock =>
    dsimp only
    split_ifs with hid
    · left
      have hnow : now w h = (.ok (h.read.time w), h.read) := rfl
      rw [Exec.bind_ok hnow, Exec.modify_bind, Exec.modify_bind, send_snd]
      exact ⟨{ lock with exp := w.clock h.reads + w.lockValidSeconds }, by simp [Handler.answer],
        (holder_of_lookup (AList.lookup_insert _)).trans (by simp [hid])⟩
    · right
      rw [send_snd]
      exact ⟨_, _, rfl⟩

/-- Only the releases in `P`, and no locks from elsewhere. -/
def Rules.only {w : World} (P : K → ℕ → Prop) : Rules w K :=
  ⟨fun _ _ => True, fun _ _ _ => True, P, fun _ => False, fun _ _ => True, fun _ _ _ => trivial⟩

theorem meets_only {t : Turn K} (ht : ¬ t.Installs) :
    t.Meets w (.only fun key id => t = .request (.release key id)) h := by
  cases t with
  | tick => trivial
  | request req =>
    cases req with
    | lock => exact ⟨fun _ => trivial, fun _ => trivial⟩
    | acquire => exact ⟨fun _ => trivial, fun _ _ _ _ => trivial, fun _ _ _ _ => trivial⟩
    | release => exact rfl
    | await => exact fun _ _ _ _ => trivial
    | snapshotInstall => exact ht trivial
    | _ => trivial

end Lease

/-! ## Heartbeats that are settled in time -/

namespace Env

def slack (env : Env) : ℤ := if env.debugAssertions then 0 else 200000000

/-- The conversion to milliseconds is off by no more than two of them. -/
def Accurate (env : Env) : Prop :=
  ∀ d, env.asMillis d ≤ env.trusted → d ≤ (env.trusted + 2) * 1000000

/-- The client goes on after the `j`-th heartbeat in a row failed. -/
def Going (env : Env) (j : ℕ) : Prop :=
  j = 0 ∨ j * env.aliveInterval ≤ (env.trusted + 2) * 1000000 + env.slack

variable {env : Env}

theorem slack_nonneg : 0 ≤ env.slack := by
  unfold slack
  split_ifs <;> decide

theorem going_le {j : ℕ} (h : env.Going j) :
    (j + 1) * env.aliveInterval + (j + 3) * env.slack ≤ env.valid := by
  unfold Going trusted valid World.lockValidSeconds world aliveInterval slack second at *
  cases hdebug : env.debugAssertions <;> simp [hdebug] at h ⊢ <;> omega

theorem two_slack_le : 2 * env.slack ≤ env.valid := by
  unfold valid World.lockValidSeconds world slack second
  cases env.debugAssertions <;> simp

theorem div_le {t' : ℤ} (h : t' ≤ t + env.valid) :
    t' / second ≤ t / second + env.world.lockValidSeconds := by
  unfold valid second at *
  omega

end Env

variable [DecidableEq K] (env : Env) (key : K)

/-- No locks come from elsewhere, nobody else releases the ticket, and `Client::lock` returns no
later than `slack` after the lease was given. -/
def Punctual (s : System K) : SystemTurn K → Prop
  | .other t => ¬ t.Installs ∧ ∀ tk ∈ s.ticker, t ≠ .request (.release key tk.id)
  | .acquired n => ∀ ack id t lock, s.handler.log[n]? = some (.sent ack key (.locked id) t lock) →
      .release key id ∉ s.handler.log.drop (n + 1) ∧ ∃ l, lock = some l ∧
        (env.nanos s.reads - env.slack) / second + env.world.lockValidSeconds ≤ l.exp
  | _ => True

/-- The task starts, and every heartbeat is sent and settled, no later than `slack` after it is due. -/
def InTime (s s' : System K) : Prop :=
  ∀ tk ∈ s.ticker,
    match tk.phase with
    | .spawned => s'.now env ≤ tk.lastRenew + env.slack
    | .waiting due => s'.now env ≤ due + env.slack
    | .asking due _ _ _ _ => s'.now env ≤ due + env.slack
    | .stopped => True

/-- The `j + 1`-st heartbeat after `t` is due at `due`. -/
def Due (t due : ℤ) : Prop :=
  ∃ j : ℕ, env.Going j ∧ t + (j + 1) * env.aliveInterval ≤ due ∧
    due ≤ t + (j + 1) * env.aliveInterval + (j + 2) * env.slack

/-- Where the ticker is, if it counts on a lease that was given at `t`. -/
def Phase.Fits (t now : ℤ) : Phase → Prop
  | .spawned => True
  | .waiting due => Due env t due
  | .asking due next _ _ _ => Due env t due ∧ due + env.aliveInterval ≤ next ∧
      next ≤ due + env.slack + env.aliveInterval ∧ due ≤ now
  | .stopped => False

/-- The ticker counts on a lease that was given at `t`, and rightly so. -/
structure Held (s : System K) (tk : Ticker) (t : ℤ) : Prop where
  lease : ∃ e, s.handler.holder key = some (tk.id, e) ∧
    t / second + env.world.lockValidSeconds ≤ e ∧
    ∀ due next attempt sentAt retried, tk.phase = .asking due next attempt sentAt retried →
      ∀ id, (attempt, .locked id) ∈ s.responses → due / second + env.world.lockValidSeconds ≤ e
  renewed : t ≤ tk.lastRenew ∧ tk.lastRenew ≤ t + env.slack
  past : t ≤ s.now env
  fits : tk.phase.Fits env t (s.now env)
  since : tk.since ≤ s.handler.log.length
  alone : ∀ e ∈ s.handler.log.drop tk.since, ¬ e.Usurps key tk.id

structure Good (s : System K) : Prop where
  tracked : Tracked env.world (env.world.clock 0) s.awake
  asked : ∀ attempt ∈ s.requests, attempt < s.attempts
  told : ∀ r ∈ s.responses, r.1 < s.attempts ∧ ∀ id, r.2 ≠ .queued id
  held : ∀ tk ∈ s.ticker, tk.phase = .stopped ∧ tk.isLocked = false ∨ ∃ t, Held env key s tk t

variable {env key} {s s' : System K} {tk : Ticker} {t : ℤ}

theorem Good.honest (hg : Good env key s) : Honest key s := by
  intro tk htk hlocked
  rcases hg.held tk htk with ⟨-, hoff⟩ | ⟨t, hheld⟩
  · rw [hlocked] at hoff
    cases hoff
  · exact hheld.alone

theorem Held.now_le (hheld : Held env key s tk t) (htk : s.ticker = some tk)
    (htime : InTime env s s') : s'.now env ≤ t + env.valid := by
  have hlimit := htime tk htk
  have hfits := hheld.fits
  obtain ⟨-, hrenew⟩ := hheld.renewed
  have htwo := env.two_slack_le
  cases hphase : tk.phase with
  | spawned =>
    simp only [hphase] at hlimit
    omega
  | waiting due =>
    simp only [hphase, Phase.Fits] at hlimit hfits
    obtain ⟨j, hgoing, -, hdue⟩ := hfits
    have := Env.going_le hgoing
    linarith
  | asking due next attempt sentAt retried =>
    simp only [hphase, Phase.Fits] at hlimit hfits
    obtain ⟨⟨j, hgoing, -, hdue⟩, -⟩ := hfits
    have := Env.going_le hgoing
    linarith
  | stopped =>
    rw [hphase] at hfits
    exact hfits.elim

/-! ## Turns of the handler -/

theorem monotone_world (hclock : Monotone env.nanos) : Monotone env.world.clock := fun _ _ h =>
  Int.ediv_le_ediv (by decide) (hclock h)

theorem Held.take (hclock : Monotone env.nanos) (hg : Good env key s)
    (hheld : Held env key s tk t) (htk : s.ticker = some tk) {t' : Turn K} (hinst : ¬ t'.Installs)
    (hrel : t' ≠ .request (.release key tk.id)) (htime : InTime env s (s.take env t')) :
    Held env key (s.take env t') tk t := by
  have hgo := turn_goes (w := env.world) (h := s.awake) (meets_only hinst)
  have hnow := hheld.now_le htk htime
  have hreads : s.now env ≤ (s.take env t').now env :=
    hclock (Nat.sub_le_sub_right hgo.reads_le 1)
  obtain ⟨e, hold, hle, hresp⟩ := hheld.lease
  have hlast : (turn env.world t' s.awake).2.time env.world ≤ e := (Env.div_le hnow).trans hle
  obtain ⟨⟨e', hold', hle'⟩, es, hes, hnone⟩ :=
    hg.tracked.keeps (monotone_world hclock) (fun _ h => h) hrel hgo hold hlast
  have hlog : (s.take env t').handler.log = s.handler.log ++ es := hes
  refine ⟨⟨e', hold', hle.trans hle', fun due next attempt sentAt retried hphase id hid =>
    (hresp due next attempt sentAt retried hphase id hid).trans hle'⟩, hheld.renewed,
    hheld.past.trans hreads, ?_, ?_, ?_⟩
  · have hfits := hheld.fits
    cases hphase : tk.phase with
    | asking =>
      rw [hphase] at hfits
      exact ⟨hfits.1, hfits.2.1, hfits.2.2.1, hfits.2.2.2.trans hreads⟩
    | _ => rwa [hphase] at hfits
  · rw [hlog, length_append]
    exact hheld.since.trans (Nat.le_add_right _ _)
  · rw [hlog, drop_append_of_le_length hheld.since]
    intro x hx
    exact (mem_append.mp hx).elim (hheld.alone x) (hnone x)

theorem Good.other (hclock : Monotone env.nanos) (hg : Good env key s) {t' : Turn K}
    (hinst : ¬ t'.Installs) (hrel : ∀ tk ∈ s.ticker, t' ≠ .request (.release key tk.id))
    (htime : InTime env s (s.take env t')) : Good env key (s.take env t') := by
  refine ⟨hg.tracked.goes (monotone_world hclock) (fun _ h => h) (turn_goes (meets_only hinst)),
    hg.asked, hg.told, fun tk htk => ?_⟩
  rcases hg.held tk htk with hoff | ⟨t, hheld⟩
  · exact .inl hoff
  · exact .inr ⟨t, hheld.take hclock hg htk hinst (hrel tk htk) htime⟩

theorem take_alive (env : Env) (key : K) (s : System K) (id : ℕ) :
    ∃ state, reply ((s.take env (.request (.alive key id 0))).handler.log.drop
        s.handler.log.length) 0 = some state ∧ (∀ id', state ≠ .queued id') ∧
      ((∃ id', state = .locked id') → (s.take env (.request (.alive key id 0))).handler.holder key =
        some (id, env.nanos s.reads / second + env.world.lockValidSeconds)) := by
  rcases alive_cases env.world s.awake key id 0 with ⟨lock, hlog, hold⟩ | ⟨now, lock, hlog⟩
  · have hlog' : (s.take env (.request (.alive key id 0))).handler.log = s.handler.log ++ _ := hlog
    rw [hlog', drop_left]
    exact ⟨.locked id, by simp [reply], by simp, fun _ => hold⟩
  · have hlog' : (s.take env (.request (.alive key id 0))).handler.log = s.handler.log ++ _ := hlog
    rw [hlog', drop_left]
    exact ⟨.released, by simp [reply], by simp, by simp⟩

variable {attempt : ℕ} {due next : ℤ} {retried : Bool}

section

variable (hclock : Monotone env.nanos)
include hclock

section

variable (hg : Good env key s)
include hg

theorem Good.applied (htk : s.ticker = some tk) (hmem : attempt ∈ s.requests)
    (hs : s.turn env key (.applied attempt) = some s') (htime : InTime env s s') :
    Good env key s' := by
  obtain ⟨state, hreply, hplain, hlocked⟩ := take_alive env key s tk.id
  simp only [System.turn, htk, hmem, and_true, hreply, map_some, toList_some] at hs
  split_ifs at hs
  cases hs
  have hinst : ¬ (Turn.request (.alive key tk.id 0) : Turn K).Installs := fun h => h
  have hbase := hg.other hclock hinst (fun _ _ h => nomatch h) htime
  refine ⟨hbase.tracked, fun a ha => hg.asked a (mem_of_mem_erase ha), fun r hr => ?_,
    fun tk' htk' => ?_⟩
  · rcases mem_append.mp hr with hr | hr
    · exact hg.told r hr
    · rw [mem_singleton.mp hr]
      exact ⟨hg.asked _ hmem, hplain⟩
  · obtain rfl : tk = tk' := some.inj (htk.symm.trans htk')
    rcases hg.held tk htk with hoff | ⟨t, hheld⟩
    · exact .inl hoff
    · have hheld' := hheld.take hclock hg htk hinst (fun h => nomatch h) htime
      obtain ⟨e, hold, hle, hresp⟩ := hheld'.lease
      refine .inr ⟨t, ⟨e, hold, hle, fun due next a sentAt retried hphase id hid => ?_⟩,
        hheld'.renewed, hheld'.past, hheld'.fits, hheld'.since, hheld'.alone⟩
      rcases mem_append.mp hid with hid | hid
      · exact hresp due next a sentAt retried hphase id hid
      · -- the heartbeat was due before it came, and so before the lease that it renewed
        have hfits := hheld.fits
        rw [hphase] at hfits
        obtain ⟨-, hstate⟩ := Prod.mk.inj (mem_singleton.mp hid)
        have hnew := hlocked ⟨id, hstate.symm⟩
        rw [hold] at hnew
        cases hnew
        have hdue : due ≤ env.nanos s.reads := hfits.2.2.2.trans (hclock (Nat.sub_le _ _))
        have := Int.ediv_le_ediv (show 0 < second by decide) hdue
        omega

/-! ## Turns of the client -/

theorem Good.goOn
    (hheld : tk.phase = .stopped ∧ tk.isLocked = false ∨ ∃ t, Held env key (s.goOn tk) tk t) :
    Good env key (s.goOn tk) := by
  refine ⟨hg.tracked.later (monotone_world hclock) (Nat.le_succ _), hg.asked, hg.told, ?_⟩
  intro tk' htk'
  obtain rfl : tk = tk' := some.inj htk'
  exact hheld

theorem Good.ask (hheld : Held env key s tk t) (hdue : Due env t due)
    (hnext : due + env.aliveInterval ≤ next) (hlate : next ≤ due + env.slack + env.aliveInterval)
    (hpast : due ≤ env.nanos s.reads) : Good env key (s.ask env tk due next retried) := by
  refine ⟨hg.tracked.later (monotone_world hclock) (Nat.le_succ _), fun a ha => ?_, fun r hr => ?_,
    fun tk' htk' => ?_⟩
  · rcases mem_append.mp ha with ha | ha
    · exact (hg.asked a ha).trans (Nat.lt_succ_self _)
    · rw [mem_singleton.mp ha]
      exact Nat.lt_succ_self _
  · exact ⟨(hg.told r hr).1.trans (Nat.lt_succ_self _), (hg.told r hr).2⟩
  · cases htk'
    obtain ⟨e, hold, hle, -⟩ := hheld.lease
    refine .inr ⟨t, ⟨e, hold, hle, fun due' next' a sentAt retried' hphase id hid => ?_⟩,
      hheld.renewed, hheld.past.trans (hclock (Nat.sub_le _ _)), ⟨hdue, hnext, hlate, hpast⟩,
      hheld.since, hheld.alone⟩
    -- there is no answer yet to a heartbeat that is sent now
    cases hphase
    exact absurd (hg.told _ hid).1 (lt_irrefl _)

theorem Good.start (htk : s.ticker = some tk) (hphase : tk.phase = .spawned)
    (htime : env.nanos s.reads ≤ tk.lastRenew + env.slack) :
    Good env key (s.goOn { tk with phase := .waiting (env.nanos s.reads + env.aliveInterval) }) := by
  refine hg.goOn hclock ?_
  rcases hg.held tk htk with ⟨hoff, -⟩ | ⟨t, hheld⟩
  · rw [hphase] at hoff
    cases hoff
  · obtain ⟨e, hold, hle, -⟩ := hheld.lease
    have hpast : t ≤ env.nanos s.reads := hheld.past.trans (hclock (Nat.sub_le _ _))
    obtain ⟨-, hrenew⟩ := hheld.renewed
    refine .inr ⟨t, ⟨e, hold, hle, fun _ _ _ _ _ h => nomatch h⟩, hheld.renewed, hpast,
      ⟨0, .inl rfl, ?_, ?_⟩, hheld.since, hheld.alone⟩
    · push_cast
      linarith
    · push_cast
      linarith

theorem Good.settle (htk : s.ticker = some tk) {sentAt : ℤ}
    (hphase : tk.phase = .asking due next attempt sentAt retried) {state : LockState}
    (hstate : (attempt, state) ∈ s.responses) (htime : env.nanos s.reads ≤ due + env.slack) :
    Good env key (s.settle env tk next state) := by
  rcases hg.held tk htk with ⟨hoff, -⟩ | ⟨t, hheld⟩
  · rw [hphase] at hoff
    cases hoff
  · cases state with
    | queued id => exact absurd rfl ((hg.told _ hstate).2 id)
    | released => exact hg.goOn hclock (.inl ⟨rfl, rfl⟩)
    | locked id =>
      obtain ⟨e, hold, -, hresp⟩ := hheld.lease
      have hfits := hheld.fits
      rw [hphase] at hfits
      obtain ⟨-, hnext, hlate, hdue⟩ := hfits
      have hpast : due ≤ env.nanos s.reads := hdue.trans (hclock (Nat.sub_le _ _))
      have hslack := env.slack_nonneg
      -- from now on the client counts on the lease that this heartbeat brought
      refine hg.goOn hclock (.inr ⟨due, ⟨e, hold, hresp due next attempt sentAt retried hphase id
        hstate, fun _ _ _ _ _ h => nomatch h⟩, ⟨hpast, htime⟩, hpast, ⟨0, .inl rfl, ?_, ?_⟩,
        hheld.since, hheld.alone⟩)
      · push_cast
        linarith
      · push_cast
        linarith

end

theorem Good.giveUp (hacc : env.Accurate) (hg : Good env key s) (htk : s.ticker = some tk)
    {sentAt : ℤ} (hphase : tk.phase = .asking due next attempt sentAt retried) :
    Good env key (s.giveUp env tk next) := by
  rcases hg.held tk htk with ⟨hoff, -⟩ | ⟨t, hheld⟩
  · rw [hphase] at hoff
    cases hoff
  · unfold System.giveUp
    split_ifs with hlost
    · exact hg.goOn hclock (.inl ⟨rfl, rfl⟩)
    · obtain ⟨e, hold, hle, -⟩ := hheld.lease
      have hfits := hheld.fits
      rw [hphase] at hfits
      obtain ⟨⟨j, hgoing, hlow, hhigh⟩, hnext, hlate, hdue⟩ := hfits
      have hpast : due ≤ env.nanos s.reads := hdue.trans (hclock (Nat.sub_le _ _))
      obtain ⟨-, hrenew⟩ := hheld.renewed
      have helapsed := hacc _ (not_lt.mp hlost)
      refine hg.goOn hclock (.inr ⟨t, ⟨e, hold, hle, fun _ _ _ _ _ h => nomatch h⟩, hheld.renewed,
        hheld.past.trans (hclock (Nat.sub_le _ _)), ⟨j + 1, .inr ?_, ?_, ?_⟩, hheld.since,
        hheld.alone⟩)
      all_goals
        push_cast
        linarith

theorem Good.acquired (hg : Good env key s) {n id : ℕ} {ack : Ack} {now : ℤ} {l : LockQueue}
    (hlog : s.handler.log[n]? = some (.sent ack key (.locked id) now (some l)))
    (hrel : .release key id ∉ s.handler.log.drop (n + 1))
    (hlease : (env.nanos s.reads - env.slack) / second + env.world.lockValidSeconds ≤ l.exp) :
    Good env key (s.goOn ⟨id, n + 1, true, env.nanos s.reads, .spawned⟩) := by
  have hslack := env.slack_nonneg
  have htwo := env.two_slack_le
  have hsplit : s.awake.log = s.handler.log.take n ++ .sent ack key (.locked id) now (some l) ::
      s.handler.log.drop (n + 1) := by
    obtain ⟨hn, hget⟩ := List.getElem?_eq_some_iff.mp hlog
    rw [← hget, List.getElem_cons_drop, List.take_append_drop]
    rfl
  have htime : s.awake.time env.world ≤ l.exp := by
    refine le_trans ?_ hlease
    refine (Int.ediv_le_ediv (by decide) (hclock (Nat.sub_le s.reads 1))).trans ?_
    exact Env.div_le (by linarith)
  obtain ⟨⟨e, hold, hle⟩, halone⟩ := hg.tracked.since_told hsplit hrel htime
  refine hg.goOn hclock (.inr ⟨env.nanos s.reads - env.slack, ⟨e, hold, hlease.trans hle,
    fun _ _ _ _ _ h => nomatch h⟩, ⟨by simpa using hslack, by simp⟩, ?_, trivial, ?_, halone⟩)
  · change env.nanos s.reads - env.slack ≤ env.nanos s.reads
    linarith
  · obtain ⟨hn, -⟩ := List.getElem?_eq_some_iff.mp hlog
    exact hn

theorem Good.step (hacc : env.Accurate) (hg : Good env key s) {t' : SystemTurn K}
    (hpunctual : Punctual env key s t') (htime : InTime env s s')
    (hs : s.turn env key t' = some s') : Good env key s' := by
  cases t' with
  | other t' =>
    simp only [System.turn] at hs
    split_ifs at hs
    cases hs
    exact hg.other hclock hpunctual.1 hpunctual.2 htime
  | acquired n =>
    simp only [System.turn] at hs
    split at hs
    · next ack key' id now lock htk hlog =>
      split_ifs at hs with hkey
      cases hs
      subst hkey
      obtain ⟨hrel, l, rfl, hlease⟩ := hpunctual _ _ _ _ hlog
      exact hg.acquired hclock hlog hrel hlease
    · cases hs
  | start =>
    cases htk : s.ticker with
    | none => simp [System.turn, htk] at hs
    | some tk =>
      have hlimit := htime tk htk
      cases hphase : tk.phase with
      | spawned =>
        simp only [System.turn, htk, hphase] at hs hlimit
        cases hs
        exact hg.start hclock htk hphase hlimit
      | _ => simp [System.turn, htk, hphase] at hs
  | tick next =>
    cases htk : s.ticker with
    | none => simp [System.turn, htk] at hs
    | some tk =>
      have hlimit := htime tk htk
      cases hphase : tk.phase with
      | waiting due =>
        simp only [System.turn, htk, hphase] at hs hlimit
        split_ifs at hs with hguard
        cases hs
        rcases hg.held tk htk with ⟨hoff, -⟩ | ⟨t, hheld⟩
        · rw [hphase] at hoff
          cases hoff
        · have hfits := hheld.fits
          rw [hphase] at hfits
          have hread : env.nanos s.reads ≤ due + env.slack := hlimit
          exact hg.ask hclock hheld hfits hguard.2.1 (by linarith [hguard.2.2]) hguard.1
      | _ => simp [System.turn, htk, hphase] at hs
  | applied attempt =>
    cases htk : s.ticker with
    | none => simp [System.turn, htk] at hs
    | some tk =>
      have hmem : attempt ∈ s.requests := by
        simp only [System.turn, htk] at hs
        split_ifs at hs with hguard
        exact hguard.2
      exact hg.applied hclock htk hmem hs htime
  | answered =>
    cases htk : s.ticker with
    | none => simp [System.turn, htk] at hs
    | some tk =>
      have hlimit := htime tk htk
      cases hphase : tk.phase with
      | asking due next attempt sentAt retried =>
        simp only [System.turn, htk, hphase] at hs hlimit
        obtain ⟨state, hstate, rfl⟩ := map_eq_some_iff.mp hs
        have hread : env.nanos s.reads ≤ due + env.slack := by
          cases state <;> exact hlimit
        obtain ⟨rs, rs', hrs, -⟩ := lookup_eq_some_iff.mp hstate
        exact hg.settle hclock htk hphase (by simp [hrs]) hread
      | _ => simp [System.turn, htk, hphase] at hs
  | failed leaderChanged =>
    cases htk : s.ticker with
    | none => simp [System.turn, htk] at hs
    | some tk =>
      cases hphase : tk.phase with
      | asking due next attempt sentAt retried =>
        simp only [System.turn, htk, hphase] at hs
        split_ifs at hs
        · cases hs
          rcases hg.held tk htk with ⟨hoff, -⟩ | ⟨t, hheld⟩
          · rw [hphase] at hoff
            cases hoff
          · have hfits := hheld.fits
            rw [hphase] at hfits
            exact hg.ask hclock hheld hfits.1 hfits.2.1 hfits.2.2.1
              (hfits.2.2.2.trans (hclock (Nat.sub_le _ _)))
        · cases hs
          exact hg.giveUp hclock hacc htk hphase
      | _ => simp [System.turn, htk, hphase] at hs

end

theorem Good.init : Good env key (.init : System K) :=
  ⟨Tracked.spawn, fun _ h => (nomatch h), fun _ h => (nomatch h), fun _ h => (nomatch h)⟩

/-- **Heartbeats that are settled in time keep the flag honest.** In every run whose turns are
punctual and in time, `is_locked` is `true` only while nobody else was granted the key. -/
theorem is_locked_honest (env : Env) (key : K) (hclock : Monotone env.nanos) (hacc : env.Accurate)
    (ts : List (SystemTurn K)) {s : System K}
    (hrun : Path (fun s t s' => System.Step env key s t s' ∧ Punctual env key s t ∧ InTime env s s')
      .init ts s) : Honest key s :=
  Good.honest (hrun.invariant (I := fun _ => Good env key) Good.init
    fun _ _ _ _ hg h => hg.step hclock hacc h.2.1 h.2.2 h.1.1)

/-- The first heartbeat is sent after three seconds, the next request of the handler comes after
eleven. -/
def hanging : Env :=
  ⟨false, fun n => if n < 3 then 0 else if n < 4 then 3 * second else 11 * second, fun _ => false,
    fun d => d / 1000000⟩

theorem hanging_monotone : Monotone hanging.nanos := by
  intro m n hmn
  simp only [hanging, second]
  split_ifs <;> omega

theorem hanging_accurate : hanging.Accurate := by
  intro d hd
  have hmillis : hanging.asMillis d = d / 1000000 := rfl
  rw [hmillis] at hd
  omega

/-- Another client waits in the queue. The first heartbeat is answered, the second one fails, and the
third one is answered. -/
def beating : Env :=
  { hanging with nanos n := (if n < 5 then 0 else if n < 8 then 3 else if n < 10 then 6 else
      if n < 13 then 9 else 11) * second }

theorem beating_monotone : Monotone beating.nanos := by
  intro m n hmn
  simp only [beating, second]
  split_ifs <;> omega

def Ticker.timely (env : Env) (now : ℤ) (tk : Ticker) : Bool :=
  match tk.phase with
  | .spawned => now ≤ tk.lastRenew + env.slack
  | .waiting due => now ≤ due + env.slack
  | .asking due _ _ sentAt _ => now ≤ due + env.slack && now ≤ sentAt + requestTimeout
  | .stopped => true

/-- A turn of the ticker, a request for the lock or a sweep, in time. -/
def timelyTurn (env : Env) (s : System ℕ) (t : SystemTurn ℕ) : Option (System ℕ) :=
  match t with
  | .acquired _ | .other (.request (.release _ _)) | .other (.request (.snapshotInstall _ _)) => none
  | t => (s.turn env 7 t).filter fun s' => s.ticker.all (·.timely env (s'.now env))

theorem step_of_timelyTurn {env : Env} {s s' : System ℕ} {t : SystemTurn ℕ}
    (h : timelyTurn env s t = some s') :
    System.Step env 7 s t s' ∧ Punctual env 7 s t ∧ InTime env s s' := by
  unfold timelyTurn at h
  split at h
  · cases h
  · cases h
  · cases h
  next hacquired hrelease hinstall =>
  obtain ⟨hturn, hall⟩ := filter_eq_some_iff.mp h
  have htimely : ∀ tk ∈ s.ticker, tk.timely env (s'.now env) = true := fun tk htk => by
    rwa [mem_def.mp htk] at hall
  refine ⟨⟨hturn, fun tk htk due next a sentAt b hphase => ?_⟩, ?_, fun tk htk => ?_⟩
  · have := htimely tk htk
    simp only [Ticker.timely, hphase, Bool.and_eq_true, decide_eq_true_eq] at this
    exact this.2
  · cases t with
    | other t =>
      cases t with
      | request req =>
        exact ⟨by cases req <;> simp_all [Turn.Installs], fun tk _ heq => hrelease _ _ (by rw [heq])⟩
      | tick order => exact ⟨id, fun _ _ heq => by cases heq⟩
    | acquired n => exact (hacquired n rfl).elim
    | _ => trivial
  · have := htimely tk htk
    unfold Ticker.timely at this
    split at this <;> simp_all

def oneLocked : System ℕ :=
  (System.init.take beating (.request (.lock 7 1 0))).goOn ⟨1, 2, true, 0, .spawned⟩

def threeBeats : List (SystemTurn ℕ) :=
  [.start, .other (.request (.lock 7 2 0)), .tick (6 * second), .applied 0, .answered,
    .tick (9 * second), .failed false, .tick (12 * second), .applied 2, .answered, .other (.tick [7])]

theorem is_locked_honest_run : ∃ s : System ℕ, threeBeats.foldlM (timelyTurn beating) oneLocked =
      some s ∧ s.now beating = 11 * second ∧ s.ticker.map (·.lastRenew) = some (9 * second) ∧
    s.ticker.map (·.isLocked) = some true ∧
    (s.handler.locks.lookup 7).map LockQueue.queue = some [2] ∧ Honest 7 s := by
  have hfirst : Path (fun s t s' => System.Step beating 7 s t s' ∧ Punctual beating 7 s t ∧
      InTime beating s s') .init [.other (.request (.lock 7 1 0)), .acquired 1] oneLocked := by
    refine (Path.nil.snoc (step_of_timelyTurn rfl)).snoc
      ⟨⟨rfl, fun _ h => nomatch h⟩, ?_, fun _ h => nomatch h⟩
    rintro ack id t lock hlog
    cases hlog
    exact ⟨by decide +kernel, _, rfl, by decide +kernel⟩
  refine ⟨_, rfl, ?_, ?_, ?_, ?_, is_locked_honest beating 7 beating_monotone hanging_accurate
    (_ ++ threeBeats) (hfirst.trans ((Path.of_foldlM rfl).mono fun _ _ _ => step_of_timelyTurn))⟩ <;>
    decide +kernel

/-- **A heartbeat that hangs lies.** The first heartbeat is lost. Eight seconds later, long before its
timeout, the handler grants the key to the ticket 2, and `is_locked` still returns `true`. -/
theorem hanging_heartbeat_lies : Monotone hanging.nanos ∧ hanging.Accurate ∧ ∃ s : System ℕ,
    Path (System.Step hanging 7) .init [.other (.request (.lock 7 1 0)), .acquired 1, .start,
      .tick (6 * second), .other (.request (.lock 7 2 0))] s ∧
    (∃ tk ∈ s.ticker, tk.isLocked = true) ∧ ¬ Honest 7 s := by
  have hidle : ∀ {s s' : System ℕ}, (∀ tk ∈ s.ticker, ∀ due next a sentAt b,
      tk.phase ≠ .asking due next a sentAt b) → s.Waits hanging s' := fun h tk htk _ _ _ _ _ hphase =>
    absurd hphase (h tk htk _ _ _ _ _)
  refine ⟨hanging_monotone, hanging_accurate, _, Path.snoc (Path.snoc (Path.snoc (Path.snoc
    (Path.snoc Path.nil ⟨rfl, hidle ?granted⟩) ⟨rfl, hidle ?acquired⟩) ⟨rfl, hidle ?started⟩)
    ⟨rfl, hidle ?sent⟩) ⟨rfl, ?hangs⟩, ⟨_, rfl, rfl⟩, fun hhonest => ?lies⟩
  case granted => exact fun _ h => nomatch h
  case acquired => exact fun _ h => nomatch h
  case started =>
    rintro tk htk due next a sentAt b hphase
    cases htk
    cases hphase
  case sent =>
    rintro tk htk due next a sentAt b hphase
    cases htk
    cases hphase
  case hangs =>
    rintro tk htk due next a sentAt b hphase
    cases htk
    cases hphase
    decide +kernel
  case lies =>
    exact hhonest _ rfl rfl (.grant 7 2 11 .first []) (by decide +kernel) ⟨rfl, by decide⟩

end Hiqlite.Dlock
