import Hiqlite.Cache.Ttl

/-!
# E8 — the expiry index under every expiry and every clock

The index follows the values whatever the clock reads (**`index_mirrors_values`**). Whether the loop
removes in time is another matter: it subtracts the clock from the first expiry before it knows
anything of that expiry (**`headSound_iff`**).
-/

namespace Hiqlite.Cache

open List Option KvHandler

variable {K V : Type} [DecidableEq K] {w : World}

/-! ## Every reachable state -/

section Run

variable {c : KvHandler K V}
  {ls : List (Label K V)}

/-- **The index mirrors the values**: in every reachable state a key is listed once at the expiry of
its value and nowhere else, and no bucket is empty. -/
theorem index_mirrors_values (hrun : Path (Step w) .spawn ls c) :
    (∀ k e, (c.bucket e).count k = if c.expiryOf k = some e then 1 else 0) ∧
    (∀ e, c.expiries.lookup e ≠ some []) ∧
    (∀ req c', iteration w req c = (.ok .popped, c') → ∃ exp, c.firstExpiry = some exp ∧
      c'.expiries = c.expiries.erase exp ∧
      ∀ k, c'.values.lookup k = if c.expiryOf k = some exp then none else c.values.lookup k) ∧
    ∀ req c', iteration w req c ≠ (.error .outOfSync, c') := by
  have h := Synced.run hrun
  refine ⟨fun k e => ?_, h.filled, fun req c' hiter => ?_, fun req c' hiter => ?_⟩
  · rw [bucket, (h.nodup e).count]
    exact if_congr (h.mem e k) rfl rfl
  · rcases iteration_ends w h req with ⟨exp, left, hfirst, -, -, heq⟩ | ⟨-, n, heq⟩ |
      ⟨q, reply, n, c1, -, -, heq⟩ | ⟨exp, n, c1, -, -, heq⟩ <;>
      cases heq.symm.trans hiter
    exact ⟨exp, hfirst, rfl, pop_lookup h⟩
  · rcases iteration_ends w h req with ⟨exp, left, -, -, -, heq⟩ | ⟨-, n, heq⟩ |
      ⟨q, reply, n, c1, -, -, heq⟩ | ⟨exp, n, c1, -, -, heq⟩ <;>
      cases heq.symm.trans hiter

/-- Two keys that are due at the same time. -/
theorem index_mirrors_values_two : ∃ c : KvHandler ℕ ℕ,
    Path (Step ticking) .spawn
      [some (.put 1 5 (some 100), none), some (.put 2 6 (some 100), none)] c ∧
    ∀ k e, (c.bucket e).count k = if c.expiryOf k = some e then 1 else 0 := by
  have hrun : ∃ c : KvHandler ℕ ℕ, Path (Step ticking) .spawn
      [some (.put 1 5 (some 100), none), some (.put 2 6 (some 100), none)] c :=
    ⟨_, (Path.single (Step.served rfl)).snoc (Step.served rfl)⟩
  obtain ⟨c, hrun⟩ := hrun
  exact ⟨c, hrun, (index_mirrors_values hrun).1⟩

/-- **An expiry in the cache came with a request**, for the same key. -/
theorem came_with (hrun : Path (Step w) .spawn ls c) : ∀ k e, c.expiryOf k = some e →
    ∃ req ∈ requests ls, ∃ v, req.effect k = some (some (v, some e)) := by
  have hinv : c.Synced ∧ ∀ k e, c.expiryOf k = some e →
      ∃ req ∈ requests ls, ∃ v, req.effect k = some (some (v, some e)) := by
    refine hrun.invariant (I := fun ls c => c.Synced ∧ ∀ k e, c.expiryOf k = some e →
      ∃ req ∈ requests ls, ∃ v, req.effect k = some (some (v, some e)))
      ⟨Indexed.empty, fun _ _ h => nomatch h⟩ ?_
    rintro ls c l c' ⟨hsynced, ih⟩ hstep
    refine ⟨hsynced.step hstep, fun k e he => ?_⟩
    have happend : requests (ls ++ [l]) = requests ls ++ requests [l] := filterMap_append
    rw [happend]
    have hold : c.expiryOf k = some e → ∃ req ∈ requests ls ++ requests [l], ∃ v,
        req.effect k = some (some (v, some e)) := fun he => by
      obtain ⟨req, hreq, hv⟩ := ih k e he
      exact ⟨req, mem_append_left _ hreq, hv⟩
    rcases step_cases hsynced hstep with
      ⟨-, exp, left, -, -, -, rfl⟩ | ⟨-, n, rfl⟩ | ⟨req, reply, n, rfl, hprocess⟩
    · change (c.pop exp).expiryOf k = some e at he
      rw [pop_expiryOf hsynced] at he
      split_ifs at he
      exact hold he
    · exact hold he
    · have hlater : Synced { c with reads := c.reads + n } := hsynced
      obtain ⟨reply', c1, hprocess', -, hlook, -⟩ := process_spec (w := w) hlater req
      obtain ⟨-, rfl⟩ := Prod.mk.inj (hprocess'.symm.trans hprocess)
      obtain ⟨⟨v, e'⟩, hx, rfl⟩ := bind_eq_some_iff.mp he
      rw [hlook] at hx
      cases heffect : req.effect k with
      | none =>
        rw [heffect] at hx
        exact hold (bind_eq_some_iff.mpr ⟨_, hx, rfl⟩)
      | some o =>
        rw [heffect] at hx
        exact ⟨req, mem_append_right _ (by simp [requests]), v,
          heffect.trans (congrArg some hx)⟩
  exact hinv.2

end Run

/-! ## Extreme expiries -/

def yearsEnd : ℤ := 16756761600000000

def World.InYears (w : World) : Prop := ∀ n, 0 ≤ w.clock n ∧ w.clock n < yearsEnd

/-- The head of the loop does not overflow, and where it goes on to wait, every indexed expiry is
ahead. -/
def HeadSound (w : World) (c : KvHandler K V) : Prop :=
  ∀ debug, (∀ c', loopHead { w with debugAssertions := debug } c ≠ (.error .overflow, c')) ∧
    ∀ d c', loopHead { w with debugAssertions := debug } c = (.ok (.sleep d), c') →
      ∀ e ∈ c.expiries.keys, c'.time w < e

/-- The clock has not passed the first expiry by more than an `i64`, and does not reach it between
two readings. -/
def Tame (w : World) (c : KvHandler K V) : Prop :=
  ∀ exp, c.firstExpiry = some exp → -2 ^ 63 + w.clock c.reads ≤ exp ∧
    ¬ (w.clock c.reads < exp ∧ exp ≤ w.clock (c.reads + 1))

section Extreme

variable {c : KvHandler K V} {exp : ℤ}
  {ls : List (Label K V)}

theorem inI64_expires (now seconds : ℤ) : InI64 (expires now seconds) := by
  unfold expires saturatingAdd InI64
  omega

theorem difference_of_inI64 {a b : ℤ} (h : InI64 (a - b)) : difference w a b = .ok (a - b) :=
  if_pos h

theorem loopHead_of_none (h : c.Synced) (hfirst : c.firstExpiry = none) :
    loopHead w c = (.ok (.sleep none), c) := by
  rw [loopHead_eq h, hfirst]

section

variable (h : c.Synced) (hfirst : c.firstExpiry = some exp)
include h hfirst

theorem loopHead_of_overflow (hdebug : w.debugAssertions = true)
    (hin : ¬ InI64 (exp - w.clock c.reads)) : loopHead w c = (.error .overflow, c.read) := by
  have hdiff : difference w exp (w.clock c.reads) = .error .overflow := by
    rw [difference, if_neg hin, if_pos hdebug]
  rw [loopHead_eq h, hfirst]
  simp only [hdiff]

theorem loopHead_of_due (hin : InI64 (exp - w.clock c.reads)) (hdue : exp ≤ w.clock c.reads) :
    loopHead w c = (.ok .popped, (c.pop exp).read) := by
  have hleft : exp - w.clock c.reads < 1 := by omega
  rw [loopHead_eq h, hfirst]
  simp only [difference_of_inI64 hin, hleft, if_true]

theorem loopHead_of_wait (hin : InI64 (exp - w.clock c.reads)) (hlate : w.clock c.reads < exp)
    (hin' : InI64 (exp - w.clock (c.reads + 1))) : loopHead w c =
      (.ok (.sleep (some (asU64 (exp - w.clock (c.reads + 1))))), c.read.read) := by
  have hleft : ¬ exp - w.clock c.reads < 1 := by omega
  rw [loopHead_eq h, hfirst]
  simp only [difference_of_inI64 hin, difference_of_inI64 hin', hleft, if_false]

end

theorem HeadSound.tame (hyears : w.InYears) (h : c.Synced) (hsound : HeadSound w c) : Tame w c := by
  intro exp hfirst
  have ht := hyears c.reads
  have ht' := hyears (c.reads + 1)
  unfold yearsEnd at ht ht'
  obtain ⟨hover, hwait⟩ := hsound true
  have hin : InI64 (exp - w.clock c.reads) := by
    by_contra hin
    exact hover _ (loopHead_of_overflow h hfirst rfl hin)
  refine ⟨by have := hin.1; omega, fun ⟨hlt, hle⟩ => ?_⟩
  have hin' : InI64 (exp - w.clock (c.reads + 1)) := ⟨by omega, by omega⟩
  have hlast : w.clock (c.reads + 1) < exp :=
    hwait _ _ (loopHead_of_wait h hfirst hin hlt hin') exp (min?_mem hfirst)
  omega

theorem Tame.headSound (hyears : w.InYears) (h : c.Synced)
    (hi64 : ∀ exp, c.firstExpiry = some exp → InI64 exp) (htame : Tame w c) : HeadSound w c := by
  intro debug
  have ht := hyears c.reads
  have ht' := hyears (c.reads + 1)
  unfold yearsEnd at ht ht'
  cases hfirst : c.firstExpiry with
  | none =>
    have hkeys : c.expiries.keys = [] := min?_eq_none_iff.mp hfirst
    rw [loopHead_of_none h hfirst, hkeys]
    exact ⟨nofun, fun _ _ _ e he => nomatch he⟩
  | some exp =>
    obtain ⟨hlow, hhigh⟩ := hi64 exp hfirst
    obtain ⟨hge, hnot⟩ := htame exp hfirst
    have hin : InI64 (exp - w.clock c.reads) := ⟨by omega, by omega⟩
    by_cases hdue : exp ≤ w.clock c.reads
    · rw [loopHead_of_due (w := { w with debugAssertions := debug }) h hfirst hin hdue]
      exact ⟨nofun, nofun⟩
    · have hlater : w.clock (c.reads + 1) < exp := by
        by_contra hle
        exact hnot ⟨by omega, by omega⟩
      have hin' : InI64 (exp - w.clock (c.reads + 1)) := ⟨by omega, by omega⟩
      rw [loopHead_of_wait (w := { w with debugAssertions := debug }) h hfirst hin
        (not_le.mp hdue) hin']
      refine ⟨nofun, fun d c' hc' e he => ?_⟩
      cases hc'
      have hmin : exp ≤ e := (min?_eq_some_iff.mp hfirst).2 e he
      exact lt_of_lt_of_le hlater hmin

/-- **When an expiry cannot break a cache.** The client's computation never overflows. The loop of the
handler, in a state that it reaches with expiries in `i64` and a clock in the years 1970 to 2500, is
sound iff the first expiry is tame. -/
theorem headSound_iff (hyears : w.InYears) (hrun : Path (Step w) .spawn ls c)
    (hi64 : ∀ req ∈ requests ls, ∀ k v e, req.effect k = some (some (v, some e)) → InI64 e) :
    (∀ now seconds, InI64 (saturatingMul seconds 1000000) ∧ InI64 (expires now seconds)) ∧
    (HeadSound w c ↔ Tame w c) := by
  have h := Synced.run hrun
  refine ⟨fun now seconds => ⟨?_, inI64_expires now seconds⟩,
    fun hsound => hsound.tame hyears h, fun htame => htame.headSound hyears h ?_⟩
  · unfold saturatingMul InI64
    omega
  · intro exp hfirst
    obtain ⟨k, hk⟩ := exists_expiryOf h (min?_mem hfirst)
    obtain ⟨req, hreq, v, heffect⟩ := came_with hrun k exp hk
    exact hi64 req hreq k v exp heffect

end Extreme

/-- A value with an ordinary time to live. -/
theorem headSound_iff_put : ∃ c : KvHandler ℕ ℕ,
    Path (Step ticking) .spawn [some (.put 1 5 (some (expires 10 60)), none)] c ∧
    (HeadSound ticking c ↔ Tame ticking c) := by
  have hrun : ∃ c : KvHandler ℕ ℕ, Path (Step ticking) .spawn
      [some (.put 1 5 (some (expires 10 60)), none)] c := ⟨_, Path.single (Step.served rfl)⟩
  obtain ⟨c, hrun⟩ := hrun
  refine ⟨c, hrun, (headSound_iff (fun n => ⟨?_, ?_⟩) hrun ?_).2⟩
  · simp only [ticking]
    omega
  · simp only [ticking, yearsEnd]
    omega
  · rintro req hreq k v e he
    obtain rfl : req = .put 1 5 (some (expires 10 60)) := by simpa [requests] using hreq
    simp only [CacheRequestHandler.effect, ite_none_right_eq_some, some.injEq,
      Prod.mk.injEq] at he
    obtain ⟨-, -, rfl⟩ := he
    exact inI64_expires 10 60

def tenMicros (debug : Bool) : World := ⟨debug, fun n => 20 + 10 * n⟩

/-- **The shortest time to live breaks a cache, and so does an unlucky reading of the clock**: an
expiry between two readings makes the handler wait for half a million years. -/
theorem expiry_breaks_cache : (∃ c c' : KvHandler ℕ ℕ, Path (Step (tenMicros true)) .spawn
        [some (.put 1 5 (some (expires 10 (-2 ^ 63))), none)] c ∧
      loopHead (tenMicros true) c = (.error .overflow, c')) ∧
    (∃ (c c' : KvHandler ℕ ℕ) (d : Option ℕ), Path (Step (tenMicros false)) .spawn
        [some (.put 1 5 (some (expires 10 (-2 ^ 63))), none), some (.put 2 6 (some 15), none)] c ∧
      loopHead (tenMicros false) c = (.ok (.sleep d), c') ∧ 15 ∈ c.expiries.keys ∧
      15 ≤ c'.time (tenMicros false)) ∧
    (∃ (c c' : KvHandler ℕ ℕ), Path (Step (tenMicros true)) .spawn
        [some (.put 1 5 (some 25), none)] c ∧
      loopHead (tenMicros true) c = (.ok (.sleep (some (2 ^ 64 - 5))), c') ∧
      25 ∈ c.expiries.keys ∧ 25 ≤ c'.time (tenMicros true)) := by
  refine ⟨⟨_, _, Path.single (Step.served rfl), rfl⟩, ⟨_, _, _,
    (Path.single (Step.served rfl)).snoc (Step.served rfl), rfl, ?_, ?_⟩,
    ⟨_, _, Path.single (Step.served rfl), rfl, ?_, ?_⟩⟩
  all_goals decide

end Hiqlite.Cache
