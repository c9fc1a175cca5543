import Hiqlite.Lib.Path

/-!
# N5 — the rate limiter

A call takes a token or, if there is none, may wait in a queue for the ticker, which refills the bucket
once a second and then serves the queue. A caller that has gone away leaves its token for the others.

* **`Balanced`**, `Limiter.act_balanced`; **`limiter_never_overdraws`**; `refund_without_token`.
-/

namespace Hiqlite.Client

open Function

/-! ## The bucket -/

structure RateLimitConfig where
  rps : UInt32
  burst : UInt32

inductive Layer
  | cache
  | db
  deriving DecidableEq

structure RateLimit where
  message : String
  deriving DecidableEq

def Layer.limitHit : Layer → RateLimit
  | .cache => ⟨"Raft rate-limit hit for the Cache layer"⟩
  | .db => ⟨"Raft rate-limit hit for the DB layer"⟩

def saturatingAdd (a b : UInt32) : UInt32 := UInt32.ofNat (min (a.toNat + b.toNat) (2 ^ 32 - 1))

/-- Add `rps` tokens every second, never exceeding `burst`. -/
def refillBucket (current rps burst : UInt32) : UInt32 := min (saturatingAdd current rps) burst

/-- `try_rate_limit_cache`, `try_rate_limit_db` of a layer with a limit: take a token. -/
def tryRateLimit (layer : Layer) (current : UInt32) : Except RateLimit Unit × UInt32 :=
  if 0 < current then (.ok (), current - 1) else (.error layer.limitHit, current)

def rateLimitAwaitSize : ℕ := 64

/-! ## Callers and the ticker -/

/-- A caller of `rate_limit_cache` or `rate_limit_db`, or of the direct calls. -/
inductive Caller
  | idle
  | refused (e : RateLimit)
  | waiting
  | gone
  | done (r : Except RateLimit Unit)

inductive Ticker (ι : Type)
  | asleep
  | draining
  | sending (i : ι) (r : Except RateLimit Unit)
  | refund (r : Except RateLimit Unit)

/-- The limiter of one layer, with callers `ι`. -/
structure Limiter (ι : Type) where
  bucket : UInt32
  queue : List ι
  ticker : Ticker ι
  callers : ι → Caller
  passed : ℕ
  added : ℕ

inductive LimitEvent (ι : Type)
  | ask (i : ι)
  | enqueue (i : ι)
  | cancel (i : ι)
  | tick
  | pop
  | send
  | giveBack

namespace Limiter

variable {ι : Type} [DecidableEq ι]

def new (config : RateLimitConfig) : Limiter ι where
  bucket := config.rps
  queue := []
  ticker := .asleep
  callers _ := .idle
  passed := 0
  added := 0

def granted (r : Except RateLimit Unit) : ℕ :=
  match r with
  | .ok _ => 1
  | .error _ => 0

def act (layer : Layer) (config : RateLimitConfig) (s : Limiter ι) : LimitEvent ι → Option (Limiter ι)
  | .ask i =>
    match s.callers i, tryRateLimit layer s.bucket with
    | .idle, (.ok _, bucket) => some { s with
        bucket := bucket
        callers := update s.callers i (.done (.ok ()))
        passed := s.passed + 1 }
    | .idle, (.error e, bucket) => some { s with
        bucket := bucket
        callers := update s.callers i (.refused e) }
    | _, _ => none
  | .enqueue i =>
    match s.callers i with
    | .refused e =>
      if s.queue.length < rateLimitAwaitSize then some { s with
        queue := s.queue ++ [i]
        callers := update s.callers i .waiting }
      else some { s with callers := update s.callers i (.done (.error e)) }
    | _ => none
  | .cancel i =>
    match s.callers i with
    | .waiting => some { s with callers := update s.callers i .gone }
    | _ => none
  | .tick =>
    match s.ticker with
    | .asleep =>
      let bucket := refillBucket s.bucket config.rps config.burst
      some { s with
        bucket := bucket
        added := s.added + (bucket.toNat - s.bucket.toNat)
        ticker := .draining }
    | _ => none
  | .pop =>
    match s.ticker, s.queue with
    | .draining, [] => some { s with ticker := .asleep }
    | .draining, i :: queue => some { s with
        queue := queue
        bucket := (tryRateLimit layer s.bucket).2
        ticker := .sending i (tryRateLimit layer s.bucket).1 }
    | _, _ => none
  | .send =>
    match s.ticker with
    | .sending i r =>
      match s.callers i with
      | .gone => some { s with ticker := .refund r }
      | _ => some { s with
          ticker := .draining
          callers := update s.callers i (.done r)
          passed := s.passed + granted r }
    | _ => none
  | .giveBack =>
    match s.ticker with
    -- The token goes back whatever the result was.
    | .refund _ => some { s with bucket := s.bucket + 1, ticker := .draining }
    | _ => none

end Limiter

/-! ## The balance -/

variable {ι : Type} {layer : Layer} {config : RateLimitConfig} {s s' : Limiter ι}

def Ticker.held : Ticker ι → ℕ
  | .sending _ r => Limiter.granted r
  | .refund r => Limiter.granted r
  | _ => 0

/-- **No token comes from nowhere**, and the bucket does not exceed its size. -/
structure Balanced (config : RateLimitConfig) (s : Limiter ι) : Prop where
  tokens : s.passed + s.bucket.toNat + s.ticker.held ≤ config.rps.toNat + s.added
  size : s.bucket.toNat + s.ticker.held ≤ max config.rps.toNat config.burst.toNat
  refund : ∀ r, s.ticker = .refund r → r = .ok ()

/-- A caller that is about to be refused by the ticker is still there. -/
def Limiter.Alive (s : Limiter ι) : Prop :=
  ∀ i e, s.ticker = .sending i (.error e) → s.callers i ≠ .gone

theorem tryRateLimit_cases (layer : Layer) (current : UInt32) :
    (∃ b : UInt32, tryRateLimit layer current = (.ok (), b) ∧ b.toNat + 1 = current.toNat) ∨
      tryRateLimit layer current = (.error layer.limitHit, current) := by
  unfold tryRateLimit
  split_ifs with h
  · refine .inl ⟨_, rfl, ?_⟩
    have hpos : 0 < current.toNat := UInt32.lt_iff_toNat_lt.mp h
    have hle : (1 : UInt32) ≤ current := UInt32.le_iff_toNat_le.mpr hpos
    rw [UInt32.toNat_sub_of_le _ _ hle]
    change current.toNat - 1 + 1 = _
    omega
  · exact .inr rfl

theorem refillBucket_le (current rps burst : UInt32) :
    (refillBucket current rps burst).toNat ≤ burst.toNat := by
  unfold refillBucket
  change (if _ ≤ burst then _ else burst : UInt32).toNat ≤ _
  split_ifs with h
  · exact UInt32.le_iff_toNat_le.mp h
  · exact le_rfl

variable [DecidableEq ι] {e : LimitEvent ι}

theorem Limiter.act_balanced (h : s.act layer config e = some s') (hs : Balanced config s)
    (halive : e = .send → s.Alive) : Balanced config s' := by
  obtain ⟨htokens, hsize, hrefund⟩ := hs
  cases e with
  | ask i =>
    simp only [act] at h
    cases hc : s.callers i with
    | idle =>
      rcases tryRateLimit_cases layer s.bucket with ⟨b, htake, hb⟩ | htake
      · rw [hc, htake] at h
        cases h
        exact ⟨by dsimp only; omega, by dsimp only; omega, hrefund⟩
      · rw [hc, htake] at h
        cases h
        exact ⟨htokens, hsize, hrefund⟩
    | _ => simp [hc] at h
  | enqueue i =>
    simp only [act] at h
    split at h
    · split_ifs at h <;> cases h <;> exact ⟨htokens, hsize, hrefund⟩
    · cases h
  | cancel i =>
    simp only [act] at h
    split at h <;> cases h
    exact ⟨htokens, hsize, hrefund⟩
  | tick =>
    simp only [act] at h
    split at h <;> cases h
    next hticker =>
    rw [hticker] at htokens hsize
    have hle := refillBucket_le s.bucket config.rps config.burst
    refine ⟨?_, ?_, nofun⟩ <;> simp only [Ticker.held] at htokens hsize ⊢ <;> omega
  | pop =>
    simp only [act] at h
    split at h <;> cases h
    · next hticker _ =>
      rw [hticker] at htokens hsize
      exact ⟨htokens, hsize, nofun⟩
    · next hticker _ =>
      rw [hticker] at htokens hsize
      simp only [Ticker.held, add_zero] at htokens hsize
      refine ⟨?_, ?_, nofun⟩ <;>
        rcases tryRateLimit_cases layer s.bucket with ⟨b, htake, hb⟩ | htake <;>
        simp only [Ticker.held, htake, granted] <;> omega
  | send =>
    simp only [act] at h
    split at h
    · next i r hticker =>
      rw [hticker] at htokens hsize
      split at h
      · next hgone =>
        -- The receiver was dropped, so that a token was taken for it.
        cases h
        refine ⟨htokens, hsize, fun r' hr => ?_⟩
        cases hr
        cases r with
        | ok u => rfl
        | error e => exact absurd hgone (halive rfl i e hticker)
      · cases h
        refine ⟨?_, ?_, nofun⟩ <;> simp only [Ticker.held] at htokens hsize ⊢ <;> omega
    · cases h
  | giveBack =>
    simp only [act] at h
    split at h <;> cases h
    next r hticker =>
    obtain rfl := hrefund r hticker
    rw [hticker] at htokens hsize
    simp only [Ticker.held, granted] at htokens hsize
    have hlt : s.bucket.toNat + 1 < 2 ^ 32 := by
      have h1 := config.rps.toNat_lt
      have h2 := config.burst.toNat_lt
      omega
    have hadd : (s.bucket + 1).toNat = s.bucket.toNat + 1 := by
      rw [UInt32.toNat_add]
      exact Nat.mod_eq_of_lt hlt
    refine ⟨?_, ?_, nofun⟩ <;> simp only [Ticker.held, hadd] <;> omega

omit [DecidableEq ι] in
theorem balanced_new (config : RateLimitConfig) : Balanced config (.new config : Limiter ι) :=
  ⟨by simp [Limiter.new, Ticker.held], by simp [Limiter.new, Ticker.held], nofun⟩

/-- **The limiter never hands out tokens it does not have**, in every run in which a caller that the
ticker is about to refuse has not gone away. -/
theorem limiter_never_overdraws {l : List (LimitEvent ι)}
    (h : Path (fun s e s' => s.act layer config e = some s' ∧ (e = .send → s.Alive))
      (.new config) l s) : s.passed + s.bucket.toNat ≤ config.rps.toNat + s.added ∧
      s.bucket.toNat ≤ max config.rps.toNat config.burst.toNat := by
  have hs : Balanced config s := by
    refine h.invariant (I := fun _ s => Balanced config s) (balanced_new config) ?_
    intro l t e u ht hstep
    exact Limiter.act_balanced hstep.1 ht hstep.2
  have htokens := hs.tokens
  have hsize := hs.size
  omega

/-- `Alive`, where the ticker sends. -/
def Limiter.servesLiving (s : Limiter ι) : LimitEvent ι → Bool
  | .send => match s.ticker with
    | .sending i (.error _) => match s.callers i with
      | .gone => false
      | _ => true
    | _ => true
  | _ => true

omit [DecidableEq ι] in
theorem Limiter.alive_of_servesLiving (h : s.servesLiving e = true) : e = .send → s.Alive := by
  rintro rfl i err hticker hgone
  simp [servesLiving, hticker, hgone] at h

/-- Two tokens a second. Of four callers that wait, the second goes away and leaves its token to the
third, and the last one is refused. -/
def goneWithToken : List (LimitEvent ℕ) :=
  [.ask 1, .ask 2, .ask 3, .enqueue 3, .ask 4, .enqueue 4, .ask 5, .enqueue 5, .ask 6, .enqueue 6,
    .cancel 4, .tick, .pop, .send, .pop, .send, .giveBack, .pop, .send, .pop, .send, .pop]

theorem limiter_never_overdraws_queue : ∃ s : Limiter ℕ,
    goneWithToken.foldlM (fun s e => if s.servesLiving e then s.act .db ⟨2, 2⟩ e else none)
      (.new ⟨2, 2⟩) = some s ∧ s.passed = 4 ∧ s.added = 2 ∧ s.bucket = 0 ∧
    s.passed + s.bucket.toNat ≤ (⟨2, 2⟩ : RateLimitConfig).rps.toNat + s.added := by
  refine ⟨_, rfl, rfl, rfl, rfl, (@limiter_never_overdraws ℕ .db ⟨2, 2⟩ _ _ goneWithToken ?_).1⟩
  exact (Path.of_foldlM_if rfl).mono fun _ _ _ h => ⟨h.2, Limiter.alive_of_servesLiving h.1⟩

/-- One token a second. Two callers wait, and the last one goes away. -/
def goneFromEmpty : List (LimitEvent ℕ) :=
  [.ask 1, .ask 2, .enqueue 2, .ask 3, .enqueue 3, .cancel 3, .tick, .pop, .send, .pop, .send,
    .giveBack]

/-- **A caller that has gone away from an empty bucket leaves a token that it never had.** -/
theorem refund_without_token : ∃ s : Limiter ℕ,
    Path (fun s e s' => s.act .db ⟨1, 1⟩ e = some s') (.new ⟨1, 1⟩) goneFromEmpty s ∧
      s.passed = 2 ∧ s.bucket = 1 ∧ s.added = 1 := by
  refine ⟨_, Path.of_foldlM (f := Limiter.act .db ⟨1, 1⟩) rfl, ?_, ?_, ?_⟩ <;> rfl

end Hiqlite.Client
