import Hiqlite.Cache.Same

/-!
# E9 — replicated caches

Every node sends the committed writes to its own handler, in the order of the log, between reads of
its own clients and under a clock of its own. A node that joins late starts from a snapshot.

* **`caches_converge`**: two replicas differ only in values that are over on the one that lacks them;
* **`snapshot_replay_converges`**: so do a replica of the whole log and one that was given a snapshot
  and the rest of the log.
-/

namespace Hiqlite.Cache

open List Exec KvHandler
open Expiring

variable {K V : Type} [DecidableEq K]

namespace CacheRequestHandler

omit [DecidableEq K] in
/-- A request that changes the contents, and therefore comes out of the log. -/
def isWrite : CacheRequestHandler K V → Bool
  | .get _ | .counterGet _ | .snapshotBuild | .snapshotBuildCacheOnly => false
  | _ => true

def onCounters (t : Table K ℤ) : CacheRequestHandler K V → Table K ℤ
  | .clearCounters => ∅
  | .snapshotInstall s => s.counters
  | .counterSet key value => t.insert key value
  | .counterAdd key delta => t.insert key (match t.lookup key with
    | some current => saturatingAdd current delta
    | none => delta)
  | .counterDel key => t.erase key
  | _ => t

variable {req : CacheRequestHandler K V}

theorem effect_of_read (h : req.isWrite = false) (k : K) : req.effect k = none := by
  cases req <;> first | rfl | cases h

theorem onCounters_of_read (h : req.isWrite = false) (t : Table K ℤ) : req.onCounters t = t := by
  cases req <;> first | rfl | cases h

end CacheRequestHandler

open CacheRequestHandler (isWrite onCounters effect_of_read onCounters_of_read)

def writes (ls : List (Label K V)) : List (CacheRequestHandler K V) := (requests ls).filter isWrite

def countersAfter (reqs : List (CacheRequestHandler K V)) : Table K ℤ := reqs.foldl onCounters ∅

/-! ## What the writes determine -/

theorem lastEffect_filter (k : K) (reqs : List (CacheRequestHandler K V)) :
    lastEffect k (reqs.filter isWrite) = lastEffect k reqs := by
  rw [lastEffect, filterMap_filter, lastEffect]
  congr 2
  refine filterMap_congr fun req _ => ?_
  cases h : req.isWrite with
  | true => rfl
  | false => exact (effect_of_read h k).symm

theorem countersAfter_filter (reqs : List (CacheRequestHandler K V)) :
    countersAfter (reqs.filter isWrite) = countersAfter reqs := by
  rw [countersAfter, foldl_filter, countersAfter]
  congr 1
  funext t req
  cases h : req.isWrite with
  | true => rfl
  | false => exact (onCounters_of_read h t).symm

variable {w w1 w2 : World} {c c1 c2 : KvHandler K V} {ls ls1 ls2 : List (Label K V)}

theorem process_counters {req : CacheRequestHandler K V} {reply : Option (Reply K V)}
    (h : process w req c = (.ok reply, c1)) : c1.counters = req.onCounters c.counters := by
  cases req with
  | get key =>
    obtain ⟨c', hlook, hc'⟩ := lookup_eq w (c.values.lookup key) c
    rw [process, get_bind, bind_ok hlook] at h
    cases h
    rcases hc' with rfl | rfl <;> rfl
  | getRemove key =>
    obtain ⟨c', hlook, hc'⟩ := lookup_eq w (c.values.lookup key) (c.discard key)
    rw [process, get_bind, modify_bind, bind_ok hlook] at h
    cases h
    rcases hc' with rfl | rfl <;> simp [KvHandler.discard, KvHandler.read, onCounters]
  | snapshotInstall s =>
    cases h
    exact (install_fields s c).2.1
  | counterAdd key delta =>
    cases h
    rfl
  | _ =>
    cases h
    simp [KvHandler.discard, onCounters]

theorem counters_run (hrun : Path (Step w) spawn ls c) : c.counters = countersAfter (writes ls) := by
  rw [writes, countersAfter_filter]
  refine (hrun.invariant (I := fun ls c => c.Synced ∧ c.counters = countersAfter (requests ls))
    ⟨Indexed.empty, rfl⟩ ?_).2
  rintro ls c l c' ⟨hsynced, ih⟩ hstep
  refine ⟨hsynced.step hstep, ?_⟩
  rw [requests, filterMap_append, countersAfter, foldl_append]
  rcases step_cases hsynced hstep with
    ⟨rfl, exp, left, -, -, -, rfl⟩ | ⟨rfl, n, rfl⟩ | ⟨req, reply, n, rfl, hprocess⟩
  · exact ih
  · exact ih
  · rw [process_counters hprocess]
    exact congrArg (onCounters · req) ih

/-- A clock that does not go back and reads times of `i64`. -/
structure World.Fair (w : World) : Prop where
  mono : Monotone w.clock
  sane : w.Sane

def WritesInRange (ls : List (Label K V)) : Prop := ∀ req ∈ writes ls, req.InRange

theorem refines_writes (hw : w.Fair) (hrun : Path (Step w) spawn ls c) (hrange : WritesInRange ls) :
    c.InRange ∧ ∀ k, Swept (c.time w) (lastEffect k (writes ls)) (c.values.lookup k) := by
  have href := Refines.run hw.mono hw.sane hrun fun req hreq k v e he => by
    cases hwrite : req.isWrite with
    | true => exact hrange req (mem_filter.mpr ⟨hreq, hwrite⟩) k v e he
    | false =>
      rw [effect_of_read hwrite k] at he
      cases he
  exact ⟨href.range, fun k => by rw [writes, lastEffect_filter]; exact href.left k⟩

theorem lastEffect_append (k : K) (a b : List (CacheRequestHandler K V)) : lastEffect k (a ++ b) =
    ((b.filterMap (·.effect k)).getLast?.or (a.filterMap (·.effect k)).getLast?).join := by
  rw [lastEffect, filterMap_append, getLast?_append]

/-! ## Replicas -/

/-- **Replicated caches converge.** Two handlers that were sent the same writes in the same order have
the same counters, and under every key the same value, or one of them has none because its expiry is
over there. -/
theorem caches_converge (hw1 : w1.Fair) (hw2 : w2.Fair) (hrun1 : Path (Step w1) spawn ls1 c1)
    (hrun2 : Path (Step w2) spawn ls2 c2) (hrange : WritesInRange ls1)
    (hsame : writes ls1 = writes ls2) : c1.counters = c2.counters ∧
      ∀ k, Agree (c1.time w1) (c2.time w2) (c1.values.lookup k) (c2.values.lookup k) := by
  refine ⟨by rw [counters_run hrun1, counters_run hrun2, hsame], fun k => ?_⟩
  have h1 := (refines_writes hw1 hrun1 hrange).2 k
  have h2 := (refines_writes hw2 hrun2 fun req hreq => hrange req (hsame ▸ hreq)).2 k
  rw [hsame] at h1
  exact h1.agree h2

theorem ticking_fair : ticking.Fair where
  mono m n hmn := by
    simp only [ticking]
    omega
  sane n := by
    simp only [ticking]
    omega

/-- A clock that runs ten times as fast. -/
def rushing : World := ⟨true, fun n => min (10 * n) 1000000⟩

theorem rushing_fair : rushing.Fair where
  mono m n hmn := by
    simp only [rushing]
    omega
  sane n := by
    simp only [rushing]
    omega

/-- Two values that expire and a counter. -/
def twoValues : List (Label ℕ ℕ) :=
  [some (.put 1 5 (some 20), none), some (.counterAdd 3 2, some (.count 2)),
    some (.put 2 6 (some 500), none), some (.counterAdd 3 1, some (.count 3))]

/-- The beginning of the same log. A client reads, and the first value is swept. -/
def oneSwept : List (Label ℕ ℕ) :=
  [some (.put 1 5 (some 20), none), some (.get 2, some (.value none)), none,
    some (.counterAdd 3 2, some (.count 2))]

theorem twoValues_run : ∃ c : KvHandler ℕ ℕ, Path (Step ticking) spawn twoValues c ∧
    c.values.lookup 1 = some (5, some 20) :=
  ⟨_, (((Path.nil.snoc (.served rfl)).snoc (.served rfl)).snoc (.served rfl)).snoc (.served rfl), rfl⟩

def afterSwept : KvHandler ℕ ℕ := ⟨∅, (∅ : Table ℕ ℤ).insert 3 2, ∅, 3⟩

theorem oneSwept_run : Path (Step rushing) spawn oneSwept afterSwept :=
  (((Path.nil.snoc (.served rfl)).snoc (.served rfl)).snoc
    (.popped (show iteration rushing none _ = _ from rfl))).snoc (.served rfl)

theorem writesInRange_twoValues : WritesInRange twoValues := by
  rintro req hreq k v e he
  have hputs : req ∈ [.put 1 5 (some 20), .counterAdd 3 2, .put 2 6 (some 500), .counterAdd 3 1] := hreq
  simp only [mem_cons, not_mem_nil, or_false] at hputs
  rcases hputs with rfl | rfl | rfl | rfl <;>
    simp only [CacheRequestHandler.effect, Option.ite_none_right_eq_some, Option.some.injEq,
      Prod.mk.injEq, reduceCtorEq] at he <;>
    obtain ⟨-, -, rfl⟩ := he <;> exact ⟨by decide, by decide⟩

theorem caches_converge_swept : ∃ c c' : KvHandler ℕ ℕ,
    Path (Step ticking) spawn twoValues c ∧
    Path (Step rushing) spawn (oneSwept ++ twoValues.drop 2) c' ∧
    c.values.lookup 1 = some (5, some 20) ∧ c'.values.lookup 1 = none ∧
    c'.values.lookup 2 = some (6, some 500) ∧ c'.counters.lookup 3 = some 3 ∧
    c.counters = c'.counters ∧
    ∀ k, Agree (c.time ticking) (c'.time rushing) (c.values.lookup k) (c'.values.lookup k) := by
  obtain ⟨c, hrun, hvalue⟩ := twoValues_run
  have hrun' : Path (Step rushing) spawn (oneSwept ++ twoValues.drop 2) _ :=
    (oneSwept_run.snoc (.served rfl)).snoc (.served rfl)
  exact ⟨c, _, hrun, hrun', hvalue, rfl, rfl, rfl, caches_converge ticking_fair rushing_fair hrun hrun'
    writesInRange_twoValues rfl⟩

/-- **A snapshot and the rest of the log** lead to the same contents as the whole log, except for
values that are over where they are missing, or were over where the snapshot was taken. -/
theorem snapshot_replay_converges (hw : w.Fair) (hw1 : w1.Fair) (hw2 : w2.Fair)
    (hrun1 : Path (Step w1) spawn ls1 c1) (hrun2 : Path (Step w2) spawn ls2 c2)
    (hrun : Path (Step w) spawn ls c) (hrange : WritesInRange ls)
    {rest : List (CacheRequestHandler K V)} (hlog : writes ls = writes ls1 ++ rest)
    (hjoin : writes ls2 = .snapshotInstall ⟨c1.values, c1.counters⟩ :: rest) :
    c.counters = c2.counters ∧ ∀ k, Agree (c.time w) (max (c1.time w1) (c2.time w2))
      (c.values.lookup k) (c2.values.lookup k) := by
  have hrange1 : WritesInRange ls1 := fun req hreq =>
    hrange req (by rw [hlog]; exact mem_append_left _ hreq)
  obtain ⟨hin1, hleft1⟩ := refines_writes hw1 hrun1 hrange1
  have hrange2 : WritesInRange ls2 := by
    rintro req hreq k v e he
    rw [hjoin] at hreq
    rcases mem_cons.mp hreq with rfl | hreq
    · have hlook : c1.values.lookup k = some (v, some e) := Option.some.inj he
      exact hin1 k e (by rw [expiryOf, hlook]; rfl)
    · exact hrange req (by rw [hlog]; exact mem_append_right _ hreq) k v e he
  constructor
  · rw [counters_run hrun, counters_run hrun2, hlog, hjoin, countersAfter, foldl_append,
      countersAfter, foldl_cons, onCounters, counters_run hrun1]
    rfl
  intro k
  have h := (refines_writes hw hrun hrange).2 k
  have h2 := (refines_writes hw2 hrun2 hrange2).2 k
  refine h.agree (Swept.trans ?_ (h2.mono (le_max_right _ _)))
  have h1 := (hleft1 k).mono (le_max_left _ (c2.time w2))
  rw [hlog, hjoin, ← singleton_append, lastEffect_append, lastEffect_append]
  -- a later write of the key counts on both sides, else what the snapshot has is left of the first ones
  cases (rest.filterMap (·.effect k)).getLast? with
  | some o => exact Swept.refl
  | none => exact h1

theorem snapshot_replay_converges_joined : ∃ c c2 : KvHandler ℕ ℕ,
    Path (Step ticking) spawn twoValues c ∧ Path (Step rushing) spawn oneSwept afterSwept ∧
    Path (Step ticking) spawn (some (.snapshotInstall ⟨afterSwept.values, afterSwept.counters⟩,
      some .installed) :: twoValues.drop 2) c2 ∧
    c.values.lookup 1 = some (5, some 20) ∧ c2.values.lookup 1 = none ∧
    c2.values.lookup 2 = some (6, some 500) ∧ c2.counters.lookup 3 = some 3 ∧
    c.counters = c2.counters ∧ ∀ k, Agree (c.time ticking)
      (max (afterSwept.time rushing) (c2.time ticking)) (c.values.lookup k) (c2.values.lookup k) := by
  obtain ⟨c, hrun, hvalue⟩ := twoValues_run
  have hrun2 : Path (Step ticking) spawn
      (some (.snapshotInstall ⟨afterSwept.values, afterSwept.counters⟩, some .installed) ::
        twoValues.drop 2) _ := ((Path.single (.served rfl)).snoc (.served rfl)).snoc (.served rfl)
  exact ⟨c, _, hrun, oneSwept_run, hrun2, hvalue, rfl, rfl, rfl, snapshot_replay_converges
    ticking_fair rushing_fair ticking_fair oneSwept_run hrun2 hrun writesInRange_twoValues rfl rfl⟩

end Hiqlite.Cache
