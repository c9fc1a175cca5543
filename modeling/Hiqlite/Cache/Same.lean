import Hiqlite.Lib.Coupling
import Hiqlite.Cache.Ttl

/-!
# E3 — caches with the same contents

Two handlers may store the same values and counters in another order, and with another index. They
answer every request alike as long as their clocks read the same.

* **`iteration_same`**; **`KvHandler.Same.alike`**: all later requests; **`alike_spawn_iff`**.
-/

namespace Hiqlite.Cache

open List Exec
open KvHandler (install spawn)
open Expiring

variable {K V : Type} [DecidableEq K] {w : World} {c d : KvHandler K V}

/-! ## The same contents -/

/-- The same contents, and clocks that were read equally often. -/
structure KvHandler.Same (c d : KvHandler K V) : Prop where
  left : c.Synced
  right : d.Synced
  values : ∀ k, c.values.lookup k = d.values.lookup k
  counters : ∀ k, c.counters.lookup k = d.counters.lookup k
  reads : c.reads = d.reads

theorem KvHandler.Same.symm (h : c.Same d) : d.Same c :=
  ⟨h.right, h.left, fun k => (h.values k).symm, fun k => (h.counters k).symm, h.reads.symm⟩

theorem KvHandler.Same.expiryOf (h : c.Same d) (k : K) : c.expiryOf k = d.expiryOf k := by
  rw [KvHandler.expiryOf, h.values k, KvHandler.expiryOf]

theorem KvHandler.Synced.mem_keys (h : c.Synced) (exp : ℤ) :
    exp ∈ c.expiries.keys ↔ ∃ k, c.expiryOf k = some exp := by
  refine ⟨exists_expiryOf h, fun ⟨k, hk⟩ => ?_⟩
  have hmem := (h.mem exp k).mpr hk
  cases hkeys : c.expiries.lookup exp with
  | none =>
    rw [hkeys] at hmem
    cases hmem
  | some keys => exact AList.lookup_isSome.mp (by rw [hkeys]; rfl)

theorem min?_congr {l l' : List ℤ} (h : ∀ a, a ∈ l ↔ a ∈ l') : l.min? = l'.min? := by
  cases hmin : l'.min? with
  | none =>
    rw [min?_eq_none_iff] at hmin ⊢
    subst hmin
    exact eq_nil_iff_forall_not_mem.mpr fun a ha => by simpa using (h a).mp ha
  | some a =>
    rw [min?_eq_some_iff] at hmin ⊢
    exact ⟨(h a).mpr hmin.1, fun b hb => hmin.2 b ((h b).mp hb)⟩

theorem KvHandler.Same.firstExpiry (h : c.Same d) : c.firstExpiry = d.firstExpiry := by
  refine min?_congr fun exp => ?_
  rw [h.left.mem_keys, h.right.mem_keys]
  exact exists_congr fun k => by rw [h.expiryOf k]

theorem KvHandler.Same.read (h : c.Same d) : c.read.Same d.read :=
  { h with reads := congrArg (· + 1) h.reads }

theorem KvHandler.Same.store (h : c.Same d) (key : K) (value : V) (expires : Option ℤ) :
    (c.store key value expires).Same (d.store key value expires) := by
  refine ⟨h.left.store value expires, h.right.store value expires, fun k => ?_, fun k => ?_, ?_⟩
  · rw [store_lookup, store_lookup, h.values k]
  · simpa using h.counters k
  · simpa using h.reads

theorem KvHandler.Same.discard (h : c.Same d) (key : K) : (c.discard key).Same (d.discard key) := by
  refine ⟨h.left.discard, h.right.discard, fun k => ?_, fun k => ?_, ?_⟩
  · rw [discard_lookup, discard_lookup, h.values k]
  · simpa [KvHandler.discard] using h.counters k
  · simpa [KvHandler.discard] using h.reads

theorem KvHandler.Same.pop (h : c.Same d) (exp : ℤ) : (c.pop exp).Same (d.pop exp) := by
  refine ⟨h.left.pop, h.right.pop, fun k => ?_, h.counters, h.reads⟩
  rw [pop_lookup h.left, pop_lookup h.right, h.expiryOf k, h.values k]

omit [DecidableEq K] in
theorem install_fields (s : CacheSnapshot K V) (c : KvHandler K V) :
    (c.install s).values = s.values ∧ (c.install s).counters = s.counters ∧
      (c.install s).reads = c.reads := by
  obtain ⟨idx, hidx⟩ := rebuild_eq s.values.entries
    { c with values := s.values, counters := s.counters, expiries := ∅ }
  rw [install, hidx]
  exact ⟨rfl, rfl, rfl⟩

theorem KvHandler.Same.install (h : c.Same d) (s : CacheSnapshot K V) :
    (c.install s).Same (d.install s) := by
  obtain ⟨hvalues, hcounters, hreads⟩ := install_fields s c
  obtain ⟨hvalues', hcounters', hreads'⟩ := install_fields s d
  refine ⟨c.install_synced s, d.install_synced s, fun k => ?_, fun k => ?_, ?_⟩
  · rw [hvalues, hvalues']
  · rw [hcounters, hcounters']
  · rw [hreads, hreads', h.reads]

theorem KvHandler.Same.setCounters (h : c.Same d) {s t : Table K ℤ}
    (hst : ∀ k, s.lookup k = t.lookup k) :
    KvHandler.Same { c with counters := s } { d with counters := t } :=
  { h with counters := hst }

/-! ## Requests and iterations -/

/-- A request whose answer does not show the order in which the contents are stored. -/
def CacheRequestHandler.Plain : CacheRequestHandler K V → Prop
  | .snapshotBuild | .snapshotBuildCacheOnly => False
  | _ => True

theorem now_same (h : c.Same d) : Coupled KvHandler.Same (now w) (now w) c d := by
  refine ⟨?_, h.read⟩
  rw [now_apply, now_apply, h.reads]

theorem lookup_same (h : c.Same d) (entry : Option (V × Option ℤ)) :
    Coupled KvHandler.Same (lookup w entry) (lookup w entry) c d := by
  rcases entry with - | ⟨value, - | exp⟩
  · exact .pure h none
  · exact .pure h (some value)
  · exact (now_same h).bind fun now c' d' h' =>
      .ite (fun _ => .pure h' none) fun _ => .pure h' (some value)

theorem lookup_insert_congr {α : Type} {s t : Table K α} (h : ∀ k, s.lookup k = t.lookup k) (key : K)
    (a : α) (k : K) : (s.insert key a).lookup k = (t.insert key a).lookup k := by
  by_cases hk : k = key
  · subst hk
    simp
  · simp [AList.lookup_insert_ne hk, h k]

theorem lookup_erase_congr {α : Type} {s t : Table K α} (h : ∀ k, s.lookup k = t.lookup k) (key : K)
    (k : K) : (s.erase key).lookup k = (t.erase key).lookup k := by
  by_cases hk : k = key
  · subst hk
    simp
  · simp [AList.lookup_erase_ne hk, h k]

theorem process_same (h : c.Same d) {req : CacheRequestHandler K V} (hplain : req.Plain) :
    Coupled KvHandler.Same (process w req) (process w req) c d := by
  cases req with
  | get key =>
    refine .get_bind ?_
    rw [h.values key]
    exact (lookup_same h _).bind fun value c' d' h' => .pure h' _
  | getRemove key =>
    refine .get_bind (.modify_bind ?_)
    rw [h.values key]
    exact (lookup_same (h.discard key) _).bind fun value c' d' h' => .pure h' _
  | put key value expires => exact .modify_bind (.pure (h.store key value expires) _)
  | replace key value expires =>
    refine .get_bind (.modify_bind ?_)
    rw [h.values key]
    exact .pure (h.store key value expires) _
  | delete key => exact .modify_bind (.pure (h.discard key) _)
  | clear =>
    exact .modify_bind (.pure ⟨Indexed.empty, Indexed.empty, fun _ => rfl, h.counters, h.reads⟩ _)
  | clearCounters => exact .modify_bind (.pure (h.setCounters fun _ => rfl) _)
  | snapshotBuildCacheOnly | snapshotBuild => exact hplain.elim
  | snapshotInstall s => exact .modify_bind (.modify_bind (.pure (h.install s) _))
  | counterGet key =>
    refine .get_bind ?_
    rw [h.counters key]
    exact .pure h _
  | counterSet key value =>
    exact .modify_bind (.pure (h.setCounters (lookup_insert_congr h.counters key value)) _)
  | counterAdd key delta =>
    refine .get_bind ?_
    simp only [h.counters key]
    exact .modify_bind (.pure (h.setCounters (lookup_insert_congr h.counters key _)) _)
  | counterDel key =>
    exact .modify_bind (.pure (h.setCounters (lookup_erase_congr h.counters key)) _)

variable {req : Option (CacheRequestHandler K V)} {c' : KvHandler K V}

theorem select_same (h : c.Same d) (hplain : ∀ r ∈ req, r.Plain) :
    Coupled KvHandler.Same (select w req) (select w req) c d := by
  cases req with
  | none => exact .pure h _
  | some r => exact (process_same h (hplain r rfl)).bind fun reply c' d' h' => .pure h' _

/-- The head of the loop depends on the contents alone. -/
theorem loopHead_same (h : c.Same d) : Coupled KvHandler.Same (loopHead w) (loopHead w) c d := by
  refine .get_bind ?_
  rw [h.firstExpiry]
  cases d.firstExpiry with
  | none => exact .pure h _
  | some exp =>
    refine .bind_ok (now_apply c) (by rw [now_apply, h.reads]) ?_
    have hsub : ∀ (t : ℤ) (c : KvHandler K V), sub w exp t c = (difference w exp t, c) :=
      fun t c => sub_apply ..
    cases hdiff : difference w exp (w.clock c.reads) with
    | error p => exact .bind_error (by rw [hsub, hdiff]) (by rw [hsub, hdiff]) h.read
    | ok left =>
      refine .bind_ok (by rw [hsub, hdiff]) (by rw [hsub, hdiff])
        (.ite (fun _ => .modify_bind ?_) fun _ => ?_)
      · exact .bind_ok (removeDue_pop h.read.left exp) (removeDue_pop h.read.right exp)
          (.pure (h.read.pop exp) _)
      · refine .bind_ok (now_apply c.read) (by rw [now_apply, h.read.reads]) ?_
        cases hdiff' : difference w exp (w.clock c.read.reads) with
        | error p => exact .bind_error (by rw [hsub, hdiff']) (by rw [hsub, hdiff']) h.read.read
        | ok left' =>
          exact .bind_ok (by rw [hsub, hdiff']) (by rw [hsub, hdiff']) (.pure h.read.read _)

theorem iteration_same (h : c.Same d) (hplain : ∀ r ∈ req, r.Plain) :
    Coupled KvHandler.Same (iteration w req) (iteration w req) c d := by
  rw [iteration_eq]
  refine (loopHead_same h).bind fun head c' d' h' => ?_
  cases head with
  | popped => exact .pure h' _
  | sleep => exact select_same h' hplain

/-! ## Runs -/

theorem iteration_popped (h : iteration w req c = (.ok .popped, c')) :
    iteration w none c = (.ok .popped, c') := by
  rw [iteration_eq] at h ⊢
  obtain ⟨head, c1, hhead, h⟩ := bind_eq_ok.mp h
  rw [bind_ok hhead]
  cases head with
  | popped => exact h
  | sleep =>
    cases req with
    | none => cases h
    | some r =>
      obtain ⟨reply, c'', -, hpure⟩ := bind_eq_ok.mp h
      cases hpure

def PlainLabel (l : Label K V) : Prop :=
  ∀ r ∈ l, r.1.Plain

theorem step_same {l : Label K V} (h : c.Same d)
    (hplain : PlainLabel l) (hstep : Step w c l c') : ∃ d', Step w d l d' ∧ c'.Same d' := by
  cases hstep with
  | popped hiter =>
    obtain ⟨d', heq, h'⟩ := (iteration_same h fun _ hr => by cases hr).exists_eq
      (iteration_popped hiter)
    exact ⟨d', Step.popped heq, h'⟩
  | slept hiter =>
    obtain ⟨d', heq, h'⟩ := (iteration_same h fun _ hr => by cases hr).exists_eq hiter
    exact ⟨d', Step.slept heq, h'⟩
  | @served _ req reply hiter =>
    have hreq : ∀ r ∈ some req, r.Plain := by
      rintro r hr
      obtain rfl := Option.some.inj hr
      exact hplain _ rfl
    obtain ⟨d', heq, h'⟩ := (iteration_same h hreq).exists_eq hiter
    exact ⟨d', Step.served heq, h'⟩

theorem path_same {ls : List (Label K V)} (h : c.Same d)
    (hplain : ∀ l ∈ ls, PlainLabel l) (hpath : Path (Step w) c ls c') :
    ∃ d', Path (Step w) d ls d' ∧ c'.Same d' := by
  induction hpath with
  | nil => exact ⟨d, Path.nil, h⟩
  | snoc hpath hstep ih =>
    obtain ⟨d1, hpath', h1⟩ := ih fun l hl => hplain l (mem_append_left _ hl)
    obtain ⟨d2, hstep', h2⟩ := step_same h1 (hplain _ (by simp)) hstep
    exact ⟨d2, hpath'.snoc hstep', h2⟩

/-- The two handlers do and answer the same from now on. -/
def KvHandler.Alike (c d : KvHandler K V) : Prop :=
  ∀ (w : World) (n : ℕ) (ls : List (Label K V)),
    (∀ l ∈ ls, PlainLabel l) →
      ((∃ c', Path (Step w) { c with reads := n } ls c') ↔
        ∃ d', Path (Step w) { d with reads := n } ls d')

theorem KvHandler.Same.at (h : c.Same d) (n : ℕ) :
    KvHandler.Same { c with reads := n } { d with reads := n } :=
  { h with reads := rfl }

theorem KvHandler.Same.alike (h : c.Same d) : c.Alike d := by
  intro w n ls hplain
  constructor
  · rintro ⟨c', hpath⟩
    obtain ⟨d', hpath', -⟩ := path_same (h.at n) hplain hpath
    exact ⟨d', hpath'⟩
  · rintro ⟨d', hpath⟩
    obtain ⟨c', hpath', -⟩ := path_same (h.at n).symm hplain hpath
    exact ⟨c', hpath'⟩

/-! ## Empty caches -/

def KvHandler.Empty (c : KvHandler K V) : Prop :=
  (∀ k, c.values.lookup k = none) ∧ ∀ k, c.counters.lookup k = none

theorem spawn_synced : (spawn : KvHandler K V).Synced := Indexed.empty

theorem exists_calm (h : c.Synced) : ∃ w : World, (∀ k, ∀ e ∈ c.expiryOf k, ∀ n, w.clock n < e) ∧
    ∀ req, ∃ n, iteration w (some req) c = select w (some req) { c with reads := c.reads + n } := by
  cases hfirst : c.firstExpiry with
  | none =>
    refine ⟨⟨false, fun _ => 0⟩, fun k e he => ?_, fun req => ⟨0, ?_⟩⟩
    · have hmem : e ∈ c.expiries.keys := (h.mem_keys e).mpr ⟨k, he⟩
      rw [KvHandler.firstExpiry, min?_eq_none_iff] at hfirst
      rw [hfirst] at hmem
      cases hmem
    · rw [iteration, get_bind, hfirst]
      rfl
  | some exp =>
    refine ⟨⟨false, fun _ => exp - 1⟩, fun k e he n => ?_, fun req => ⟨2, ?_⟩⟩
    · have hle : exp ≤ e := (min?_eq_some_iff.mp hfirst).2 e ((h.mem_keys e).mpr ⟨k, he⟩)
      exact Int.sub_one_lt_iff.mpr hle
    · have hsub : ∀ c : KvHandler K V, sub ⟨false, fun _ => exp - 1⟩ exp (exp - 1) c = (.ok 1, c) := by
        intro c
        rw [sub, sub_sub_cancel, if_pos (by decide)]
        rfl
      rw [iteration, get_bind, hfirst]
      dsimp only
      rw [bind_ok (now_apply c), bind_ok (hsub _), if_neg (by decide),
        bind_ok (now_apply c.read), bind_ok (hsub _)]
      rfl

theorem spawn_answers {n : ℕ} {req : CacheRequestHandler K V} {reply : Option (Reply K V)}
    (h : ∃ d, Path (Step w) { (spawn : KvHandler K V) with reads := n } [some (req, reply)] d) :
    ∃ d, process w req { (spawn : KvHandler K V) with reads := n } = (.ok reply, d) := by
  obtain ⟨d, hpath⟩ := h
  obtain ⟨d', hstep, -⟩ := hpath.of_cons
  cases hstep with
  | served hiter =>
    have hselect : select w (some req) { (spawn : KvHandler K V) with reads := n } =
        (.ok (.served reply), d') := hiter
    obtain ⟨reply', d'', hprocess, hpure⟩ := bind_eq_ok.mp hselect
    cases hpure
    exact ⟨d', hprocess⟩

/-- **Only a cache without contents answers like an empty one.** -/
theorem alike_spawn_iff (h : c.Synced) : c.Alike .spawn ↔ c.Empty := by
  constructor
  · intro halike
    obtain ⟨w, hcalm, hiter⟩ := exists_calm h
    -- a request that is answered at once here is answered so by the empty cache
    have hanswer : ∀ req : CacheRequestHandler K V, req.Plain → ∃ n reply c' d',
        process w req { c with reads := c.reads + n } = (.ok reply, c') ∧
        process w req { (spawn : KvHandler K V) with reads := c.reads } = (.ok reply, d') := by
      intro req hplain
      obtain ⟨n, heq⟩ := hiter req
      have hsynced : KvHandler.Synced { c with reads := c.reads + n } := h
      obtain ⟨reply, c', hprocess, -⟩ := process_spec (w := w) hsynced req
      have hstep : Step w c (some (req, reply)) c' := by
        refine Step.served ?_
        rw [heq]
        exact bind_ok hprocess
      obtain ⟨d', hspawn⟩ := spawn_answers ((halike w c.reads [some (req, reply)]
        (by simpa [PlainLabel] using hplain)).mp ⟨c', Path.single hstep⟩)
      exact ⟨n, reply, c', d', hprocess, hspawn⟩
    constructor
    · intro k
      obtain ⟨n, reply, c', d', hprocess, hspawn⟩ := hanswer (.get k) trivial
      have hreply := process_answer (.inl rfl) hprocess
      have hnone : reply = some (.value none) := process_answer (.inl rfl) hspawn
      rw [hreply] at hnone
      cases hentry : c.values.lookup k with
      | none => rfl
      | some entry =>
        obtain ⟨v, x⟩ := entry
        have hview : view (c'.time w) (c.values.lookup k) = some v := by
          refine view_eq_some.mpr ⟨x, hentry, fun e he => hcalm k e ?_ _⟩
          rw [KvHandler.expiryOf, hentry]
          exact he
        have hnone' : view (c'.time w) (c.values.lookup k) = none := by
          simpa using hnone
        rw [hview] at hnone'
        cases hnone'
    · intro k
      obtain ⟨n, reply, c', d', hprocess, hspawn⟩ := hanswer (.counterGet k) trivial
      cases hspawn
      injection hprocess with hok _
      injection hok with hok
      injection hok with hok
      injection hok
  · rintro ⟨hvalues, hcounters⟩
    have hsame : KvHandler.Same { c with reads := 0 } (.spawn : KvHandler K V) :=
      ⟨h, spawn_synced, hvalues, hcounters, rfl⟩
    exact hsame.alike

end Hiqlite.Cache
