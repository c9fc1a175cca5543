import Hiqlite.Cache.Handler
import Hiqlite.Lib.Expiring

/-!
# E2 — the cache is a map with expiries

The index of the expiries follows the values through every request, so what the loop removes is over.
A look at a key finds what the last operation on that key left there, unless it is over.

* **`process_spec`**, `iteration_ends`, `step_cases`: what a request, an iteration and a step do;
* **`Refines.step`**: the values are what is left of the last operations; **`cache_is_ttl_map`**.
-/

namespace Hiqlite.Cache

open Expiring Exec Function

variable {K V : Type} [DecidableEq K] {w : World}

/-! ## The index -/

/-- The index `idx` has the key `k` at the time `m k` and nowhere else. -/
structure Indexed (idx : Table ℤ (List K)) (m : K → Option ℤ) : Prop where
  mem : ∀ e k, k ∈ (idx.lookup e).getD [] ↔ m k = some e
  nodup : ∀ e, ((idx.lookup e).getD []).Nodup
  filled : ∀ e, idx.lookup e ≠ some []

def KvHandler.Synced (c : KvHandler K V) : Prop := Indexed c.expiries c.expiryOf

section Index

variable {c : KvHandler K V} {m : K → Option ℤ} {exp : ℤ} {key : K}

omit [DecidableEq K] in
theorem Indexed.empty : Indexed (∅ : Table ℤ (List K)) fun _ => none :=
  ⟨fun _ _ => by simp, fun _ => by simp, fun _ => by simp⟩

theorem Indexed.removeExpiry (h : Indexed c.expiries m) (exp : ℤ) (key : K) :
    Indexed (c.removeExpiry exp key).expiries
      (if m key = some exp then update m key none else m) := by
  -- what is looked up afterwards
  have hlook : ∀ e, ((c.removeExpiry exp key).expiries.lookup e).getD [] =
      if e = exp then ((c.expiries.lookup exp).getD []).filter (· ≠ key)
      else (c.expiries.lookup e).getD [] := by
    intro e
    unfold KvHandler.removeExpiry
    cases hkeys : c.expiries.lookup exp with
    | none =>
      split_ifs with he
      · subst he
        simp [hkeys]
      · rfl
    | some keys =>
      dsimp only
      split_ifs with hempty he he
      · subst he
        rw [AList.lookup_erase]
        exact (List.isEmpty_iff.mp hempty).symm
      · rw [AList.lookup_erase_ne he]
      · subst he
        rw [AList.lookup_insert]
        rfl
      · rw [AList.lookup_insert_ne he]
  refine ⟨fun e k => ?_, fun e => ?_, fun e => ?_⟩
  · rw [hlook]
    have hmem := h.mem e k
    by_cases he : e = exp
    · subst he
      rw [if_pos rfl, List.mem_filter, hmem]
      by_cases hk : k = key
      · subst hk
        split_ifs with hm
        · simp
        · simp [hm]
      · split_ifs <;> simp [hk]
    · rw [if_neg he, hmem]
      split_ifs with hm
      · by_cases hk : k = key
        · subst hk
          simp [hm, Ne.symm he]
        · simp [hk]
      · rfl
  · rw [hlook]
    split_ifs
    · exact (h.nodup exp).filter _
    · exact h.nodup e
  · unfold KvHandler.removeExpiry
    cases hkeys : c.expiries.lookup exp with
    | none => exact h.filled e
    | some keys =>
      dsimp only
      split_ifs with hempty
      · intro hnil
        exact h.filled e (Table.mem_lookup_erase hnil)
      · intro hnil
        rcases Table.mem_lookup_insert hnil with ⟨-, hnil⟩ | hnil
        · exact hempty (List.isEmpty_iff.mpr hnil.symm)
        · exact h.filled e hnil

theorem Indexed.dropExpiry (h : c.Synced) (key : K) :
    Indexed (c.dropExpiry key).expiries (update c.expiryOf key none) := by
  unfold KvHandler.dropExpiry
  cases hexp : c.expiryOf key with
  | none =>
    have hsame : update c.expiryOf key none = c.expiryOf := by
      rw [← hexp]
      exact update_eq_self ..
    rw [hsame]
    exact h
  | some exp =>
    have := h.removeExpiry exp key
    rwa [if_pos hexp] at this

theorem Indexed.registerExpiry (h : Indexed c.expiries m) (hkey : m key = none) (exp : ℤ) :
    Indexed (c.registerExpiry key exp).expiries (update m key (some exp)) := by
  have hlook : ∀ e, ((c.registerExpiry key exp).expiries.lookup e).getD [] =
      if e = exp then (c.expiries.lookup exp).getD [] ++ [key] else (c.expiries.lookup e).getD [] := by
    intro e
    unfold KvHandler.registerExpiry
    split_ifs with he
    · subst he
      rw [AList.lookup_insert]
      rfl
    · rw [AList.lookup_insert_ne he]
  have hnot : ∀ e, key ∉ (c.expiries.lookup e).getD [] := fun e hmem => by
    rw [h.mem, hkey] at hmem
    cases hmem
  refine ⟨fun e k => ?_, fun e => ?_, fun e hnil => ?_⟩
  · rw [hlook]
    by_cases hk : k = key
    · subst hk
      rw [update_self]
      split_ifs with he
      · simp [he]
      · simp [hnot e, Ne.symm he]
    · rw [update_of_ne hk, ← h.mem]
      split_ifs with he
      · subst he
        simp [hk]
      · rfl
  · rw [hlook]
    split_ifs
    · exact (h.nodup exp).append (List.nodup_singleton key) (by simpa using hnot exp)
    · exact h.nodup e
  · rcases Table.mem_lookup_insert hnil with ⟨-, hnil⟩ | hnil
    · simp at hnil
    · exact h.filled e hnil

section

variable (c : KvHandler K V)

theorem expiryOf_insert (value : V) (expires : Option ℤ) :
    KvHandler.expiryOf { c with values := c.values.insert key (value, expires) } =
      update c.expiryOf key expires := by
  funext k
  by_cases hk : k = key
  · subst hk
    simp [KvHandler.expiryOf]
  · simp [KvHandler.expiryOf, hk]

theorem expiryOf_erase : KvHandler.expiryOf { c with values := c.values.erase key } =
      update c.expiryOf key none := by
  funext k
  by_cases hk : k = key
  · subst hk
    simp [KvHandler.expiryOf]
  · simp [KvHandler.expiryOf, hk]

@[simp] theorem dropExpiry_values (key : K) : (c.dropExpiry key).values = c.values := by
  unfold KvHandler.dropExpiry KvHandler.removeExpiry
  repeat' split
  all_goals rfl

@[simp] theorem dropExpiry_counters (key : K) : (c.dropExpiry key).counters = c.counters := by
  unfold KvHandler.dropExpiry KvHandler.removeExpiry
  repeat' split
  all_goals rfl

@[simp] theorem dropExpiry_reads (key : K) : (c.dropExpiry key).reads = c.reads := by
  unfold KvHandler.dropExpiry KvHandler.removeExpiry
  repeat' split
  all_goals rfl

end

theorem KvHandler.Synced.store (h : c.Synced) (value : V) (expires : Option ℤ) :
    (c.store key value expires).Synced := by
  have hdrop := Indexed.dropExpiry h key
  have hsame : (c.dropExpiry key).expiryOf = c.expiryOf := by
    funext k
    simp [KvHandler.expiryOf]
  cases expires with
  | none =>
    change Indexed (c.dropExpiry key).expiries (KvHandler.expiryOf
      { c.dropExpiry key with values := (c.dropExpiry key).values.insert key (value, none) })
    rwa [expiryOf_insert, hsame]
  | some exp =>
    change Indexed ((c.dropExpiry key).registerExpiry key exp).expiries (KvHandler.expiryOf
      { (c.dropExpiry key).registerExpiry key exp with
        values := ((c.dropExpiry key).registerExpiry key exp).values.insert key (value, some exp) })
    have hreg := hdrop.registerExpiry (update_self ..) exp
    rw [update_idem] at hreg
    rw [expiryOf_insert]
    exact hsame ▸ hreg

theorem KvHandler.Synced.discard (h : c.Synced) : (c.discard key).Synced := by
  have hdrop := Indexed.dropExpiry h key
  have hsame : (c.dropExpiry key).expiryOf = c.expiryOf := by
    funext k
    simp [KvHandler.expiryOf]
  change Indexed (c.dropExpiry key).expiries (KvHandler.expiryOf
    { c.dropExpiry key with values := (c.dropExpiry key).values.erase key })
  rwa [expiryOf_erase, hsame]

theorem Indexed.rebuild {entries : List (Sigma fun _ : K => V × Option ℤ)}
    (hnodup : entries.NodupKeys) (h : Indexed c.expiries m) (hm : ∀ k ∈ entries.keys, m k = none) :
    Indexed (KvHandler.rebuild entries c).expiries
      fun k => (entries.dlookup k).elim (m k) Prod.snd := by
  induction entries generalizing c m with
  | nil => exact h
  | cons x entries ih =>
    obtain ⟨key, value, expires⟩ := x
    obtain ⟨hnot, hnodup'⟩ := List.nodupKeys_cons.mp hnodup
    have hkey : m key = none := hm key (by simp)
    have hrest : ∀ k ∈ entries.keys, m k = none := fun k hk => hm k (by simp [hk])
    have hnone : entries.dlookup key = none := List.dlookup_eq_none.mpr hnot
    -- the keys behind this one are other ones
    have hsame : (fun k => ((⟨key, value, expires⟩ :: entries).dlookup k).elim (m k) Prod.snd) =
        fun k => (entries.dlookup k).elim (update m key expires k) Prod.snd := by
      funext k
      by_cases hk : k = key
      · subst hk
        rw [List.dlookup_cons_eq, hnone, Option.elim_none, update_self]
        rfl
      · rw [List.dlookup_cons_ne _ _ hk, update_of_ne hk]
    rw [hsame]
    cases expires with
    | none =>
      have hupdate : update m key none = m := by
        rw [← hkey]
        exact update_eq_self ..
      rw [hupdate]
      exact ih hnodup' h hrest
    | some exp =>
      refine ih hnodup' (h.registerExpiry hkey exp) fun k hk => ?_
      have hne : k ≠ key := fun heq => hnot (heq ▸ hk)
      rw [update_of_ne hne, hrest k hk]

end Index

/-! ## What is due goes -/

section Due

variable {c : KvHandler K V} {exp : ℤ}

def eraseAll (keys : List K) (t : Table K (V × Option ℤ)) : Table K (V × Option ℤ) :=
  keys.foldl (fun t key => t.erase key) t

theorem lookup_eraseAll (keys : List K) (t : Table K (V × Option ℤ)) (k : K) :
    (eraseAll keys t).lookup k = if k ∈ keys then none else t.lookup k := by
  induction keys generalizing t with
  | nil => simp [eraseAll]
  | cons key keys ih =>
    rw [eraseAll, List.foldl_cons, ← eraseAll, ih]
    by_cases hk : k = key
    · subst hk
      simp
    · simp [hk]

theorem removeDue_eq {keys : List K} (hnodup : keys.Nodup)
    (hexp : ∀ k ∈ keys, c.expiryOf k = some exp) :
    removeDue w exp keys c = (.ok (), { c with values := eraseAll keys c.values }) := by
  induction keys generalizing c with
  | nil => rfl
  | cons key keys ih =>
    obtain ⟨hnot, hnodup⟩ := List.nodup_cons.mp hnodup
    have hkey : c.expiryOf key = some exp := hexp key List.mem_cons_self
    rw [removeDue, get_bind]
    simp only [hkey, bne_self_eq_false, Bool.and_false, Bool.false_eq_true, if_false,
      modify_bind]
    refine ih hnodup fun k hk => ?_
    have hne : k ≠ key := fun heq => hnot (heq ▸ hk)
    rw [expiryOf_erase, update_of_ne hne]
    exact hexp k (List.mem_cons_of_mem _ hk)

def KvHandler.pop (exp : ℤ) (c : KvHandler K V) : KvHandler K V :=
  { c with expiries := c.expiries.erase exp, values := eraseAll (c.bucket exp) c.values }

theorem pop_lookup (h : c.Synced) (k : K) :
    (c.pop exp).values.lookup k = if c.expiryOf k = some exp then none else c.values.lookup k := by
  rw [KvHandler.pop, lookup_eraseAll]
  exact if_congr (h.mem exp k) rfl rfl

theorem pop_expiryOf (h : c.Synced) (k : K) :
    (c.pop exp).expiryOf k = if c.expiryOf k = some exp then none else c.expiryOf k := by
  rw [KvHandler.expiryOf, pop_lookup h]
  split_ifs <;> rfl

theorem KvHandler.Synced.pop (h : c.Synced) : (c.pop exp).Synced := by
  refine ⟨fun e k => ?_, fun e => ?_, fun e hnil => h.filled e (Table.mem_lookup_erase hnil)⟩
  · rw [pop_expiryOf h]
    by_cases he : e = exp
    · subst he
      rw [KvHandler.pop, AList.lookup_erase]
      split_ifs with hk
      · simp
      · simp [hk]
    · rw [KvHandler.pop, AList.lookup_erase_ne he, h.mem]
      split_ifs with hk
      · simp [hk, Ne.symm he]
      · rfl
  · by_cases he : e = exp
    · subst he
      simp [KvHandler.pop]
    · rw [KvHandler.pop, AList.lookup_erase_ne he]
      exact h.nodup e

end Due

/-! ## Iterations -/

/-- The clock counts microseconds since 1970 in an `i64`. -/
def World.Sane (w : World) : Prop := ∀ n, 0 ≤ w.clock n ∧ w.clock n < 2 ^ 63

/-- An expiry whose distance to the clock an `i64` can hold. -/
def InRange (e : ℤ) : Prop := -2 ^ 61 ≤ e ∧ e ≤ 2 ^ 61

def KvHandler.InRange (c : KvHandler K V) : Prop := ∀ k, ∀ e ∈ c.expiryOf k, Cache.InRange e

section Iteration

variable {c : KvHandler K V} {exp t : ℤ}

theorem KvHandler.InRange.pop (hrange : c.InRange) (h : c.Synced) : (c.pop exp).InRange := by
  intro k e he
  rw [pop_expiryOf h] at he
  split_ifs at he
  · cases he
  · exact hrange k e he

omit [DecidableEq K] in
theorem now_apply (c : KvHandler K V) : now w c = (.ok (w.clock c.reads), c.read) := rfl

theorem exists_expiryOf (h : c.Synced) (hmem : exp ∈ c.expiries.keys) :
    ∃ k, c.expiryOf k = some exp := by
  obtain ⟨keys, hkeys⟩ := Option.isSome_iff_exists.mp (AList.lookup_isSome.mpr hmem)
  cases keys with
  | nil => exact absurd hkeys (h.filled exp)
  | cons k keys => exact ⟨k, (h.mem exp k).mp (by simp [hkeys])⟩

theorem KvHandler.InRange.first (hrange : c.InRange) (h : c.Synced)
    (hfirst : c.firstExpiry = some exp) : Cache.InRange exp := by
  obtain ⟨k, hk⟩ := exists_expiryOf h (List.min?_mem hfirst)
  exact hrange k exp hk

theorem removeDue_pop (h : c.Synced) (exp : ℤ) :
    removeDue w exp (c.bucket exp) { c with expiries := c.expiries.erase exp } =
      (.ok (), c.pop exp) :=
  removeDue_eq (h.nodup exp) fun k hk => (h.mem exp k).mp hk

/-- The difference of two `i64`: on overflow a debug build panics and a release build wraps around.
-/
def difference (w : World) (a b : ℤ) : Except Panic ℤ :=
  if InI64 (a - b) then .ok (a - b)
  else if w.debugAssertions then .error .overflow
  else .ok ((a - b).bmod (2 ^ 64))

omit [DecidableEq K] in
theorem sub_apply (a b : ℤ) (c : KvHandler K V) : sub w a b c = (difference w a b, c) := by
  unfold sub difference
  split_ifs <;> rfl

def asU64 (a : ℤ) : ℕ := (a % 2 ^ 64).toNat

/-- What the loop does before its select: it removed a bucket, or it goes on to wait. -/
inductive Head where
  | popped
  | sleep (micros : Option ℕ)
deriving DecidableEq

theorem difference_error {a b : ℤ} {p : Panic} (h : difference w a b = .error p) :
    p = .overflow ∧ w.debugAssertions = true ∧ ¬ InI64 (a - b) := by
  unfold difference at h
  split_ifs at h with hin hdebug
  cases h
  exact ⟨rfl, hdebug, hin⟩

/-- Within the range, only what is over has a difference below one. -/
theorem difference_due (hexp : InRange exp) (ht : 0 ≤ t ∧ t < 2 ^ 63) {left : ℤ}
    (h : difference w exp t = .ok left) (hleft : left < 1) : exp ≤ t := by
  obtain ⟨hlow, hhigh⟩ := hexp
  unfold difference at h
  split_ifs at h with hin hdebug
  · cases h
    omega
  · unfold InI64 at hin
    omega

/-- The block that computes `sleep_exp`. -/
def loopHead (w : World) : Exec (KvHandler K V) Panic Head := do
  let c ← Exec.get
  match c.firstExpiry with
  | some exp => do
    let t ← now w
    let left ← sub w exp t
    if left < 1 then do
      modify fun c => { c with expiries := c.expiries.erase exp }
      removeDue w exp (c.bucket exp)
      pure .popped
    else do
      let t ← now w
      let left ← sub w exp t
      pure (.sleep (some (asU64 left)))
  | none => pure (.sleep none)

theorem iteration_eq (req : Option (CacheRequestHandler K V)) : iteration w req = (do
      match ← loopHead w with
      | .popped => pure .popped
      | .sleep _ => select w req) := by
  unfold iteration loopHead
  rw [bind_assoc']
  refine congrArg (_ >>= ·) (funext fun c => ?_)
  cases c.firstExpiry with
  | none => rfl
  | some exp =>
    dsimp only
    rw [bind_assoc']
    refine congrArg (_ >>= ·) (funext fun t => ?_)
    rw [bind_assoc']
    refine congrArg (_ >>= ·) (funext fun left => ?_)
    split_ifs with hleft
    · rw [bind_assoc']
      refine congrArg (_ >>= ·) (funext fun _ => ?_)
      rw [bind_assoc']
      rfl
    · rw [bind_assoc']
      refine congrArg (_ >>= ·) (funext fun t => ?_)
      rw [bind_assoc']
      rfl

theorem loopHead_eq (h : c.Synced) : loopHead w c =
    match c.firstExpiry with
    | none => (.ok (.sleep none), c)
    | some exp =>
      match difference w exp (w.clock c.reads) with
      | .error p => (.error p, c.read)
      | .ok left =>
        if left < 1 then (.ok .popped, (c.pop exp).read)
        else
          match difference w exp (w.clock (c.reads + 1)) with
          | .error p => (.error p, c.read.read)
          | .ok left => (.ok (.sleep (some (asU64 left))), c.read.read) := by
  unfold loopHead
  rw [get_bind]
  cases c.firstExpiry with
  | none => rfl
  | some exp =>
    dsimp only
    rw [bind_ok (now_apply c)]
    cases hdiff : difference w exp (w.clock c.reads) with
    | error p => exact bind_error ((sub_apply ..).trans (by rw [hdiff]))
    | ok left =>
      rw [bind_ok ((sub_apply ..).trans (by rw [hdiff]))]
      dsimp only
      split_ifs with hleft
      · rw [modify_bind]
        exact bind_ok (removeDue_pop (c := c.read) h exp)
      · rw [bind_ok (now_apply c.read)]
        cases hdiff' : difference w exp (w.clock (c.reads + 1)) with
        | error p => exact bind_error ((sub_apply ..).trans (by rw [← hdiff']; rfl))
        | ok left' => exact bind_ok ((sub_apply ..).trans (by rw [← hdiff']; rfl))

/-- The loop removes the first bucket, goes on to wait, or a subtraction panics. -/
theorem loopHead_cases (w : World) (h : c.Synced) :
    (∃ exp left, c.firstExpiry = some exp ∧ difference w exp (w.clock c.reads) = .ok left ∧
      left < 1 ∧ loopHead w c = (.ok .popped, (c.pop exp).read)) ∨
    (∃ d n, loopHead w c = (.ok (.sleep d), { c with reads := c.reads + n })) ∨
    ∃ exp n c', c.firstExpiry = some exp ∧ difference w exp (w.clock n) = .error .overflow ∧
      loopHead w c = (.error .overflow, c') := by
  rw [loopHead_eq h]
  cases c.firstExpiry with
  | none => exact .inr (.inl ⟨none, 0, rfl⟩)
  | some exp =>
    dsimp only
    cases hdiff : difference w exp (w.clock c.reads) with
    | error p =>
      cases (difference_error hdiff).1
      exact .inr (.inr ⟨exp, _, _, rfl, hdiff, rfl⟩)
    | ok left =>
      dsimp only
      split_ifs with hleft
      · exact .inl ⟨exp, left, rfl, hdiff, hleft, rfl⟩
      · cases hdiff' : difference w exp (w.clock (c.reads + 1)) with
        | error p =>
          cases (difference_error hdiff').1
          exact .inr (.inr ⟨exp, _, _, rfl, hdiff', rfl⟩)
        | ok left' => exact .inr (.inl ⟨some (asU64 left'), 2, rfl⟩)

end Iteration

/-! ## Requests -/

/-- What an operation leaves under the key `k`, if it affects that key. -/
def CacheRequestHandler.effect (k : K) : CacheRequestHandler K V → Option (Option (V × Option ℤ))
  | .put key value expires => if key = k then some (some (value, expires)) else none
  | .replace key value expires => if key = k then some (some (value, expires)) else none
  | .getRemove key => if key = k then some none else none
  | .delete key => if key = k then some none else none
  | .clear => some none
  | .snapshotInstall snapshot => some (snapshot.values.lookup k)
  | _ => none

def CacheRequestHandler.InRange (req : CacheRequestHandler K V) : Prop :=
  ∀ k v e, req.effect k = some (some (v, some e)) → Cache.InRange e

section Request

variable {c : KvHandler K V}

omit [DecidableEq K] in
theorem lookup_eq (w : World) (o : Option (V × Option ℤ)) (c : KvHandler K V) :
    ∃ c', lookup w o c = (.ok (view (c'.time w) o), c') ∧ (c' = c ∨ c' = c.read) := by
  match o with
  | none => exact ⟨c, rfl, .inl rfl⟩
  | some (value, none) =>
    exact ⟨c, by simp [lookup, view, Live], .inl rfl⟩
  | some (value, some exp) =>
    refine ⟨c.read, ?_, .inr rfl⟩
    rw [lookup, bind_ok (now_apply c)]
    have htime : c.read.time w = w.clock c.reads := rfl
    by_cases hexp : exp ≤ w.clock c.reads
    · have hover : ¬ Live (w.clock c.reads) (value, some exp) := fun hl =>
        absurd (hl exp rfl) (not_lt.mpr hexp)
      rw [if_pos hexp, htime]
      simp [view, hover]
    · have hlive : Live (w.clock c.reads) (value, some exp) := by
        intro e he
        cases he
        exact not_le.mp hexp
      rw [if_neg hexp, htime]
      simp [view, hlive]

section

variable (c : KvHandler K V) (key : K) (value : V) (expires : Option ℤ)

theorem store_lookup (k : K) : (c.store key value expires).values.lookup k =
      if key = k then some (value, expires) else c.values.lookup k := by
  have hvalues : (c.store key value expires).values = c.values.insert key (value, expires) := by
    cases expires <;> simp [KvHandler.store, KvHandler.registerExpiry]
  rw [hvalues]
  split_ifs with hk
  · subst hk
    exact AList.lookup_insert _
  · exact AList.lookup_insert_ne (Ne.symm hk)

@[simp] theorem store_counters : (c.store key value expires).counters = c.counters := by
  cases expires <;> simp [KvHandler.store, KvHandler.registerExpiry]

@[simp] theorem store_reads : (c.store key value expires).reads = c.reads := by
  cases expires <;> simp [KvHandler.store, KvHandler.registerExpiry]

end

theorem discard_lookup (c : KvHandler K V) (key k : K) :
    (c.discard key).values.lookup k = if key = k then none else c.values.lookup k := by
  have hvalues : (c.discard key).values = c.values.erase key := by simp [KvHandler.discard]
  rw [hvalues]
  split_ifs with hk
  · subst hk
    exact AList.lookup_erase ..
  · exact AList.lookup_erase_ne (Ne.symm hk)

omit [DecidableEq K] in
theorem rebuild_eq (entries : List (Sigma fun _ : K => V × Option ℤ)) (c : KvHandler K V) :
    ∃ idx, KvHandler.rebuild entries c = { c with expiries := idx } := by
  induction entries generalizing c with
  | nil => exact ⟨c.expiries, rfl⟩
  | cons x entries ih =>
    obtain ⟨key, value, expires⟩ := x
    cases expires with
    | none => exact ih c
    | some exp => exact ih (c.registerExpiry key exp)

def KvHandler.install (s : CacheSnapshot K V) (c : KvHandler K V) : KvHandler K V :=
  KvHandler.rebuild s.values.entries { c with values := s.values, counters := s.counters, expiries := ∅ }

theorem KvHandler.install_synced (s : CacheSnapshot K V) (c : KvHandler K V) :
    (c.install s).Synced := by
  obtain ⟨idx, hidx⟩ := rebuild_eq s.values.entries
    { c with values := s.values, counters := s.counters, expiries := ∅ }
  have hindexed := Indexed.rebuild s.values.nodupKeys
    (c := { c with values := s.values, counters := s.counters, expiries := ∅ }) Indexed.empty
    fun _ _ => rfl
  have hexp : (c.install s).expiryOf = fun k => (s.values.entries.dlookup k).elim none Prod.snd := by
    funext k
    rw [KvHandler.install, hidx, KvHandler.expiryOf]
    cases hk : s.values.lookup k with
    | none =>
      have hk' : s.values.entries.dlookup k = none := hk
      rw [hk']
      rfl
    | some x =>
      have hk' : s.values.entries.dlookup k = some x := hk
      rw [hk']
      rfl
  rw [KvHandler.Synced, hexp]
  exact hindexed

theorem process_spec (h : c.Synced) (req : CacheRequestHandler K V) :
    ∃ reply c', process w req c = (.ok reply, c') ∧ c'.Synced ∧
      (∀ k, c'.values.lookup k = (req.effect k).getD (c.values.lookup k)) ∧ c.reads ≤ c'.reads := by
  cases req with
  | get key =>
    obtain ⟨c', hlook, hc'⟩ := lookup_eq w (c.values.lookup key) c
    refine ⟨_, c', bind_ok hlook, ?_⟩
    rcases hc' with rfl | rfl
    · exact ⟨h, fun _ => rfl, le_refl _⟩
    · exact ⟨h, fun _ => rfl, Nat.le_succ _⟩
  | getRemove key =>
    obtain ⟨c', hlook, hc'⟩ := lookup_eq w (c.values.lookup key) (c.discard key)
    refine ⟨_, c', bind_ok hlook, ?_⟩
    have hreads : (c.discard key).reads = c.reads := by simp [KvHandler.discard]
    have hvalues : ∀ k, (c.discard key).values.lookup k =
        ((CacheRequestHandler.getRemove key).effect k).getD (c.values.lookup k) := by
      intro k
      rw [discard_lookup, CacheRequestHandler.effect]
      split_ifs <;> rfl
    rcases hc' with rfl | rfl
    · exact ⟨h.discard, hvalues, hreads.ge⟩
    · exact ⟨h.discard, hvalues, hreads.ge.trans (Nat.le_succ _)⟩
  | put key value expires =>
    refine ⟨_, _, rfl, h.store value expires, fun k => ?_, (store_reads ..).ge⟩
    rw [store_lookup, CacheRequestHandler.effect]
    split_ifs <;> rfl
  | replace key value expires =>
    refine ⟨_, _, rfl, h.store value expires, fun k => ?_, (store_reads ..).ge⟩
    rw [store_lookup, CacheRequestHandler.effect]
    split_ifs <;> rfl
  | delete key =>
    refine ⟨_, _, rfl, h.discard, fun k => ?_, by simp [KvHandler.discard]⟩
    rw [discard_lookup, CacheRequestHandler.effect]
    split_ifs <;> rfl
  | clear => exact ⟨_, _, rfl, Indexed.empty, fun _ => rfl, le_refl _⟩
  | snapshotInstall s =>
    refine ⟨_, c.install s, rfl, c.install_synced s, fun k => ?_, ?_⟩
    · obtain ⟨idx, hidx⟩ := rebuild_eq s.values.entries
        { c with values := s.values, counters := s.counters, expiries := ∅ }
      rw [KvHandler.install, hidx]
      rfl
    · obtain ⟨idx, hidx⟩ := rebuild_eq s.values.entries
        { c with values := s.values, counters := s.counters, expiries := ∅ }
      rw [KvHandler.install, hidx]
  | _ => exact ⟨_, _, rfl, h, fun _ => rfl, le_refl _⟩

/-- **What is found**: the entry, unless it is over at the latest reading. -/
theorem process_answer {c' : KvHandler K V} {key : K} {req : CacheRequestHandler K V}
    {reply : Option (Reply K V)} (hreq : req = .get key ∨ req = .getRemove key)
    (hprocess : process w req c = (.ok reply, c')) :
    reply = some (.value (view (c'.time w) (c.values.lookup key))) := by
  rcases hreq with rfl | rfl
  · obtain ⟨c'', hlook, -⟩ := lookup_eq w (c.values.lookup key) c
    rw [process, get_bind, bind_ok hlook] at hprocess
    cases hprocess
    rfl
  · obtain ⟨c'', hlook, -⟩ := lookup_eq w (c.values.lookup key) (c.discard key)
    rw [process, get_bind, modify_bind, bind_ok hlook] at hprocess
    cases hprocess
    rfl

end Request

/-! ## Runs -/

def requests (ls : List (Label K V)) : List (CacheRequestHandler K V) :=
  ls.filterMap (Option.map Prod.fst)

/-- What the last operation that affected `k` left there. -/
def lastEffect (k : K) (reqs : List (CacheRequestHandler K V)) : Option (V × Option ℤ) :=
  (reqs.filterMap (CacheRequestHandler.effect k)).getLast?.join

theorem lastEffect_snoc (k : K) (reqs : List (CacheRequestHandler K V))
    (req : CacheRequestHandler K V) :
    lastEffect k (reqs ++ [req]) = (req.effect k).getD (lastEffect k reqs) := by
  unfold lastEffect
  rw [List.filterMap_append]
  cases heffect : req.effect k with
  | none | some => simp [heffect]

/-- The values are what is left of the last operations. -/
structure Refines (w : World) (reqs : List (CacheRequestHandler K V)) (c : KvHandler K V) : Prop where
  synced : c.Synced
  range : c.InRange
  left : ∀ k, Swept (c.time w) (lastEffect k reqs) (c.values.lookup k)

section Run

variable {c c' : KvHandler K V} {reqs : List (CacheRequestHandler K V)}

omit [DecidableEq K] in
theorem time_le (hclock : Monotone w.clock) (h : c.reads ≤ c'.reads) : c.time w ≤ c'.time w :=
  hclock (Nat.sub_le_sub_right h 1)

theorem iteration_ends (w : World) (h : c.Synced) (req : Option (CacheRequestHandler K V)) :
    (∃ exp left, c.firstExpiry = some exp ∧ difference w exp (w.clock c.reads) = .ok left ∧
      left < 1 ∧ iteration w req c = (.ok .popped, (c.pop exp).read)) ∨
    (req = none ∧ ∃ n, iteration w req c = (.ok .slept, { c with reads := c.reads + n })) ∨
    (∃ q reply n c', req = some q ∧ process w q { c with reads := c.reads + n } = (.ok reply, c') ∧
      iteration w req c = (.ok (.served reply), c')) ∨
    ∃ exp n c', c.firstExpiry = some exp ∧ difference w exp (w.clock n) = .error .overflow ∧
      iteration w req c = (.error .overflow, c') := by
  rw [iteration_eq]
  rcases loopHead_cases w h with
    ⟨exp, left, hfirst, hdiff, hleft, hhead⟩ | ⟨d, n, hhead⟩ | ⟨exp, n, c', hfirst, hdiff, hhead⟩
  · exact .inl ⟨exp, left, hfirst, hdiff, hleft, bind_ok hhead⟩
  · rw [bind_ok hhead]
    cases req with
    | none => exact .inr (.inl ⟨rfl, n, rfl⟩)
    | some q =>
      have hlater : KvHandler.Synced { c with reads := c.reads + n } := h
      obtain ⟨reply, c', hprocess, -⟩ := process_spec (w := w) hlater q
      exact .inr (.inr (.inl ⟨q, reply, n, c', rfl, hprocess, bind_ok hprocess⟩))
  · exact .inr (.inr (.inr ⟨exp, n, c', hfirst, hdiff, bind_error hhead⟩))

variable {l : Label K V}

theorem step_cases (h : c.Synced) (hstep : Step w c l c') :
    (l = none ∧ ∃ exp left, c.firstExpiry = some exp ∧
      difference w exp (w.clock c.reads) = .ok left ∧ left < 1 ∧ c' = (c.pop exp).read) ∨
    (l = none ∧ ∃ n, c' = { c with reads := c.reads + n }) ∨
    ∃ req reply n, l = some (req, reply) ∧
      process w req { c with reads := c.reads + n } = (.ok reply, c') := by
  cases hstep with
  | @popped _ req hiter =>
    rcases iteration_ends w h req with ⟨exp, left, hfirst, hdiff, hleft, heq⟩ | ⟨-, n, heq⟩ |
      ⟨q, reply, n, c1, -, -, heq⟩ | ⟨exp, n, c1, -, -, heq⟩ <;>
      cases heq.symm.trans hiter
    exact .inl ⟨rfl, exp, left, hfirst, hdiff, hleft, rfl⟩
  | slept hiter =>
    rcases iteration_ends w h none with ⟨exp, left, -, -, -, heq⟩ | ⟨-, n, heq⟩ |
      ⟨q, reply, n, c1, -, -, heq⟩ | ⟨exp, n, c1, -, -, heq⟩ <;>
      cases heq.symm.trans hiter
    exact .inr (.inl ⟨rfl, n, rfl⟩)
  | @served _ req reply hiter =>
    rcases iteration_ends w h (some req) with ⟨exp, left, -, -, -, heq⟩ | ⟨-, n, heq⟩ |
      ⟨q, reply, n, c1, hreq, hprocess, heq⟩ | ⟨exp, n, c1, -, -, heq⟩ <;>
      cases heq.symm.trans hiter
    cases hreq
    exact .inr (.inr ⟨req, reply, n, rfl, hprocess⟩)

theorem KvHandler.Synced.step (h : c.Synced) (hstep : Step w c l c') : c'.Synced := by
  rcases step_cases h hstep with
    ⟨-, exp, left, -, -, -, rfl⟩ | ⟨-, n, rfl⟩ | ⟨req, reply, n, -, hprocess⟩
  · exact h.pop
  · exact h
  · have hlater : KvHandler.Synced { c with reads := c.reads + n } := h
    obtain ⟨reply', c1, hprocess', hsynced, -⟩ := process_spec (w := w) hlater req
    obtain ⟨-, rfl⟩ := Prod.mk.inj (hprocess'.symm.trans hprocess)
    exact hsynced

theorem KvHandler.Synced.run {ls : List (Label K V)}
    (hrun : Path (Step w) .spawn ls c) : c.Synced :=
  hrun.invariant (I := fun _ c => c.Synced) Indexed.empty fun _ _ _ _ h hstep => h.step hstep

section

variable (hclock : Monotone w.clock)
include hclock

theorem Refines.later (h : Refines w reqs c) (n : ℕ) :
    Refines w reqs { c with reads := c.reads + n } :=
  ⟨h.synced, h.range, fun k => (h.left k).mono (time_le hclock (Nat.le_add_right _ _))⟩

theorem Refines.pop (h : Refines w reqs c) {exp : ℤ} (hexp : exp ≤ w.clock c.reads) :
    Refines w reqs (c.pop exp).read := by
  refine ⟨h.synced.pop, h.range.pop h.synced, fun k => ?_⟩
  · have hleft : Swept (w.clock c.reads) (lastEffect k reqs) (c.values.lookup k) :=
      (h.left k).mono (hclock (Nat.sub_le _ _))
    refine hleft.trans ?_
    change Swept (w.clock c.reads) (c.values.lookup k) ((c.pop exp).values.lookup k)
    rw [pop_lookup h.synced]
    split_ifs with hk
    · obtain ⟨x, hx, hxe⟩ := Option.bind_eq_some_iff.mp hk
      exact .inr ⟨rfl, x, hx, fun hl => absurd (hl exp hxe) (not_lt.mpr hexp)⟩
    · exact Swept.refl

theorem Refines.process (h : Refines w reqs c) {req : CacheRequestHandler K V} (hreq : req.InRange)
    {reply : Option (Reply K V)} (hprocess : process w req c = (.ok reply, c')) :
    Refines w (reqs ++ [req]) c' := by
  obtain ⟨reply', c'', hprocess', hsynced, hlook, hreads⟩ := process_spec (w := w) h.synced req
  obtain ⟨-, rfl⟩ := Prod.mk.inj (hprocess'.symm.trans hprocess)
  refine ⟨hsynced, fun k e he => ?_, fun k => ?_⟩
  · obtain ⟨x, hx, hxe⟩ := Option.bind_eq_some_iff.mp he
    obtain ⟨v, e'⟩ := x
    subst hxe
    rw [hlook] at hx
    cases heffect : req.effect k with
    | none =>
      rw [heffect] at hx
      exact h.range k e (Option.bind_eq_some_iff.mpr ⟨_, hx, rfl⟩)
    | some o =>
      rw [heffect] at hx
      exact hreq k v e (heffect.trans (congrArg some hx))
  · rw [hlook, lastEffect_snoc]
    cases req.effect k with
    | none => exact (h.left k).mono (time_le hclock hreads)
    | some o => exact Swept.refl

theorem Refines.step (hsane : w.Sane) (h : Refines w reqs c)
    (hl : ∀ req ∈ requests [l], req.InRange) (hstep : Step w c l c') :
    Refines w (reqs ++ requests [l]) c' := by
  have hnone : requests [(none : Label K V)] = [] := rfl
  rcases step_cases h.synced hstep with
    ⟨rfl, exp, left, hfirst, hdiff, hleft, rfl⟩ | ⟨rfl, n, rfl⟩ | ⟨req, reply, n, rfl, hprocess⟩
  · rw [hnone, List.append_nil]
    exact h.pop hclock (difference_due (h.range.first h.synced hfirst) (hsane _) hdiff hleft)
  · rw [hnone, List.append_nil]
    exact h.later hclock n
  · exact (h.later hclock n).process hclock (hl req (by simp [requests])) hprocess

theorem Refines.run (hsane : w.Sane) {ls : List (Label K V)}
    (hrun : Path (Step w) .spawn ls c) (hrange : ∀ req ∈ requests ls, req.InRange) :
    Refines w (requests ls) c := by
  refine hrun.invariant (I := fun ls c => (∀ req ∈ requests ls, req.InRange) →
    Refines w (requests ls) c) ?_ ?_ hrange
  · exact fun _ => ⟨Indexed.empty, fun _ _ he => (nomatch he), fun _ => Swept.refl⟩
  · intro ls c l c' ih hstep hrange
    have happend : requests (ls ++ [l]) = requests ls ++ requests [l] := List.filterMap_append
    rw [happend] at hrange ⊢
    exact (ih fun req hreq => hrange req (List.mem_append_left _ hreq)).step hclock hsane
      (fun req hreq => hrange req (List.mem_append_right _ hreq)) hstep

end

theorem exists_served (hsane : w.Sane) (hdebug : w.debugAssertions = false ∨ ∀ n, w.clock n ≤ 2 ^ 62)
    (h : c.Synced) (hrange : c.InRange) (req : CacheRequestHandler K V) :
    ∃ n reply c', Path (Step w) c (List.replicate n none ++ [some (req, reply)]) c' := by
  induction hlen : c.expiries.keys.length using Nat.strong_induction_on generalizing c with
  | _ len ih =>
    rcases iteration_ends w h (some req) with ⟨exp, left, hfirst, -, -, heq⟩ | ⟨hreq, -⟩ |
      ⟨q, reply, n, c', hreq, -, heq⟩ | ⟨exp, n, c', hfirst, hdiff, -⟩
    · -- one bucket less
      have hmem : exp ∈ c.expiries.keys := List.min?_mem hfirst
      have hless : (c.pop exp).read.expiries.keys.length < len := by
        rw [← hlen]
        change ((c.expiries.erase exp).keys).length < _
        rw [AList.keys_erase, List.length_erase_of_mem hmem]
        exact Nat.sub_lt (List.length_pos_of_mem hmem) Nat.one_pos
      obtain ⟨n, reply, c', hpath⟩ := ih _ hless (c := (c.pop exp).read) h.pop (hrange.pop h) rfl
      refine ⟨n + 1, reply, c', ?_⟩
      rw [List.replicate_succ, List.cons_append]
      exact (Path.single (Step.popped heq)).trans hpath
    · cases hreq
    · exact ⟨0, reply, c', Path.single (Step.served heq)⟩
    · obtain ⟨-, hpanic, hin⟩ := difference_error hdiff
      rcases hdebug with hrelease | hearly
      · rw [hpanic] at hrelease
        cases hrelease
      · obtain ⟨hlow, hhigh⟩ := hrange.first h hfirst
        have hn := hsane n
        have hn' := hearly n
        exact absurd ⟨by omega, by omega⟩ hin

/-- **The cache is a map with expiries.** A `Get` or `GetRemove` finds the value that the last
operation on the key left there, unless it is over. Every request is answered, unless the clock is
so far ahead that a debug build cannot subtract. -/
theorem cache_is_ttl_map (hclock : Monotone w.clock) (hsane : w.Sane) (ls : List (Label K V))
    (hrun : Path (Step w) .spawn ls c) (hrange : ∀ req ∈ requests ls, req.InRange) :
    (∀ key req reply c', Step w c (some (req, reply)) c' → req = .get key ∨ req = .getRemove key →
      ∃ o, reply = some (.value o) ∧ ∀ v, o = some v ↔
        ∃ x, lastEffect key (requests ls) = some (v, x) ∧ ∀ e ∈ x, c'.time w < e) ∧
    (∀ key req reply c', Step w c (some (req, reply)) c' →
      req = .getRemove key ∨ req = .delete key ∨ req = .clear →
        c'.values.lookup key = none ∧ ∀ e, key ∉ c'.bucket e) ∧
    ((w.debugAssertions = false ∨ ∀ n, w.clock n ≤ 2 ^ 62) → ∀ req, ∃ n reply c',
      Path (Step w) c (List.replicate n none ++ [some (req, reply)]) c') := by
  have href := Refines.run hclock hsane hrun hrange
  -- the request was processed at a reading `n` further on
  have hserved : ∀ req reply c', Step w c (some (req, reply)) c' →
      ∃ n, process w req { c with reads := c.reads + n } = (.ok reply, c') := by
    intro req reply c' hstep
    rcases step_cases href.synced hstep with
      ⟨hnone, -⟩ | ⟨hnone, -⟩ | ⟨req', reply', n, heq, hprocess⟩
    · cases hnone
    · cases hnone
    · cases heq
      exact ⟨n, hprocess⟩
  refine ⟨fun key req reply c' hstep hreq => ?_, fun key req reply c' hstep hreq => ?_,
    fun hdebug req => exists_served hsane hdebug href.synced href.range req⟩
  · obtain ⟨n, hprocess⟩ := hserved req reply c' hstep
    have hlater := href.later hclock n
    obtain ⟨reply', c'', hprocess', -, -, hreads⟩ := process_spec (w := w) hlater.synced req
    obtain ⟨-, rfl⟩ := Prod.mk.inj (hprocess'.symm.trans hprocess)
    refine ⟨_, process_answer hreq hprocess, fun v => ?_⟩
    rw [(hlater.left key).view (time_le hclock hreads), view_eq_some]
  · obtain ⟨n, hprocess⟩ := hserved req reply c' hstep
    obtain ⟨reply', c'', hprocess', hsynced', hlook, -⟩ :=
      process_spec (w := w) (href.later hclock n).synced req
    obtain ⟨-, rfl⟩ := Prod.mk.inj (hprocess'.symm.trans hprocess)
    have hgone : c''.values.lookup key = none := by
      rw [hlook]
      rcases hreq with rfl | rfl | rfl <;> simp [CacheRequestHandler.effect]
    refine ⟨hgone, fun e hmem => ?_⟩
    have hexp := (hsynced'.mem e key).mp hmem
    rw [KvHandler.expiryOf, hgone] at hexp
    cases hexp

/-- A clock that moves on by one from one reading to the next, up to a second. -/
def ticking : World := ⟨true, fun n => min n 1000000⟩

theorem cache_is_ttl_map_run : ∃ c : KvHandler ℕ ℕ,
    Path (Step ticking) .spawn [some (.put 1 5 (some 100), none)] c ∧
    ∀ key req reply c', Step ticking c (some (req, reply)) c' → req = .get key ∨ req = .getRemove key →
      ∃ o, reply = some (.value o) ∧ ∀ v, o = some v ↔
        ∃ x, lastEffect key [.put 1 5 (some 100)] = some (v, x) ∧ ∀ e ∈ x, c'.time ticking < e := by
  have hrun : ∃ c : KvHandler ℕ ℕ,
      Path (Step ticking) .spawn [some (.put 1 5 (some 100), none)] c :=
    ⟨_, Path.single (Step.served rfl)⟩
  obtain ⟨c, hrun⟩ := hrun
  refine ⟨c, hrun, (cache_is_ttl_map (fun m n hmn => ?_) (fun n => ⟨?_, ?_⟩) _ hrun ?_).1⟩
  · simp only [ticking]
    omega
  · simp only [ticking]
    omega
  · simp only [ticking]
    omega
  · rintro req hreq k v e he
    obtain rfl : req = .put 1 5 (some 100) := by simpa [requests] using hreq
    simp only [CacheRequestHandler.effect, Option.ite_none_right_eq_some, Option.some.injEq,
      Prod.mk.injEq] at he
    obtain ⟨-, -, rfl⟩ := he
    exact ⟨by decide, by decide⟩

end Run

end Hiqlite.Cache
