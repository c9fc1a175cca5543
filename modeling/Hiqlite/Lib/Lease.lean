import Hiqlite.Lib.Path

/-!
# L10 — leases

What a lock with leases is for: for each key a holder with the end of its lease. A lease that is
over may be given to somebody else, one that is not may only be renewed or given back.

* **`exclusive`**: between two holders of a key the first lease was given back or was over;
* **`held`**: a holder keeps the key while its lease lasts.
-/

namespace Hiqlite.Lease

open List

/-- What happens to the leases of the keys in `K`. Holders are numbers, `t` is a reading of the
clock. -/
inductive Event (K : Type)
  | grant (k : K) (a : ℕ) (t : ℤ)
  | renew (k : K) (a : ℕ) (t : ℤ)
  | release (k : K) (a : ℕ)
  | told (k : K) (a : ℕ) (t e : ℤ)
  deriving DecidableEq

/-- The holder of each key with the end of its lease, and the clock. -/
structure Register (K : Type) where
  holder : K → Option (ℕ × ℤ)
  time : ℤ

variable {K : Type} [DecidableEq K]

def Register.vacant (t : ℤ) : Register K := ⟨fun _ => none, t⟩

def Register.set (r : Register K) (k : K) (o : Option (ℕ × ℤ)) (t : ℤ) : Register K :=
  ⟨Function.update r.holder k o, t⟩

@[simp] theorem Register.set_time (r : Register K) (k : K) (o : Option (ℕ × ℤ)) (t : ℤ) :
    (r.set k o t).time = t := rfl

@[simp] theorem Register.set_holder_self (r : Register K) (k : K) (o : Option (ℕ × ℤ)) (t : ℤ) :
    (r.set k o t).holder k = o :=
  Function.update_self ..

theorem Register.set_holder_ne (r : Register K) {k' : K} (o : Option (ℕ × ℤ)) (t : ℤ) (h : k' ≠ k) :
    (r.set k o t).holder k' = r.holder k' :=
  Function.update_of_ne h ..

/-- **The events that a register allows**, for leases of length `valid`. -/
inductive Step (valid : ℤ) : Register K → Event K → Register K → Prop
  | grant {r : Register K} {k : K} {a : ℕ} {t : ℤ} (htime : r.time ≤ t)
      (hfree : ∀ b e, r.holder k = some (b, e) → e < t) :
      Step valid r (.grant k a t) (r.set k (some (a, t + valid)) t)
  | renew {r : Register K} {k : K} {a : ℕ} {e t : ℤ} (htime : r.time ≤ t)
      (hold : r.holder k = some (a, e)) :
      Step valid r (.renew k a t) (r.set k (some (a, t + valid)) t)
  | release {r : Register K} {k : K} {a : ℕ} {e : ℤ} (hold : r.holder k = some (a, e)) :
      Step valid r (.release k a) (r.set k none r.time)
  | ignore {r : Register K} {k : K} {a : ℕ} (hold : ∀ e, r.holder k ≠ some (a, e)) :
      Step valid r (.release k a) r
  | told {r : Register K} {k : K} {a : ℕ} {e t : ℤ} (htime : r.time ≤ t)
      (hold : r.holder k = some (a, e)) (hend : t ≤ e) :
      Step valid r (.told k a t e) ⟨r.holder, t⟩

/-- The lease of `a` on `k` after one more event. -/
def leaseNext (valid : ℤ) (k : K) (a : ℕ) (o : Option ℤ) : Event K → Option ℤ
  | .grant k' a' t => if k' = k ∧ a' = a then some (t + valid) else o
  | .renew k' a' t => if k' = k ∧ a' = a then some (t + valid) else o
  | .release _ _ => o
  | .told _ _ _ _ => o

/-- The end of the latest lease of `a` on `k`. -/
def leaseEnd (valid : ℤ) (k : K) (a : ℕ) (es : List (Event K)) : Option ℤ :=
  es.foldl (leaseNext valid k a) none

theorem leaseEnd_snoc (valid : ℤ) (k : K) (a : ℕ) (es : List (Event K)) (x : Event K) :
    leaseEnd valid k a (es ++ [x]) = leaseNext valid k a (leaseEnd valid k a es) x := by
  simp [leaseEnd]

/-! ## Exclusion -/

variable {valid : ℤ} {r r' : Register K} {es : List (Event K)} {k : K} {a b : ℕ} {t e : ℤ}

def Recorded (valid : ℤ) (es : List (Event K)) (r : Register K) : Prop :=
  ∀ k a e, r.holder k = some (a, e) → leaseEnd valid k a es = some e

variable {x : Event K} {before : List (Event K)} {t0 : ℤ}

theorem Recorded.step (h : Recorded valid es r) (hs : Step valid r x r') :
    Recorded valid (es ++ [x]) r' := by
  intro k' a' e' hold'
  rw [leaseEnd_snoc]
  cases hs with
  | @grant k a t htime hfree =>
    by_cases hk : k' = k
    · subst hk
      rw [Register.set_holder_self] at hold'
      cases hold'
      simp [leaseNext]
    · rw [Register.set_holder_ne _ _ _ hk] at hold'
      simpa [leaseNext, Ne.symm hk] using h _ _ _ hold'
  | @renew k a e t htime hold =>
    by_cases hk : k' = k
    · subst hk
      rw [Register.set_holder_self] at hold'
      cases hold'
      simp [leaseNext]
    · rw [Register.set_holder_ne _ _ _ hk] at hold'
      simpa [leaseNext, Ne.symm hk] using h _ _ _ hold'
  | @release k a e hold =>
    by_cases hk : k' = k
    · subst hk
      rw [Register.set_holder_self] at hold'
      cases hold'
    · rw [Register.set_holder_ne _ _ _ hk] at hold'
      exact h _ _ _ hold'
  | ignore | told => exact h _ _ _ hold'

/-- `a` was told that it holds `k`, and `es` came after that: it still holds it, gave it back, or
its lease is over. -/
def Kept (valid : ℤ) (k : K) (a : ℕ) (before es : List (Event K)) (r : Register K) : Prop :=
  (∃ e, r.holder k = some (a, e)) ∨ Event.release k a ∈ es ∨
    ∃ e, leaseEnd valid k a (before ++ es) = some e ∧ e < r.time

theorem Kept.step (h : Kept valid k a before es r) (hrec : Recorded valid (before ++ es) r)
    (hs : Step valid r x r') : Kept valid k a before (es ++ [x]) r' := by
  have hlist : before ++ (es ++ [x]) = (before ++ es) ++ [x] := (append_assoc ..).symm
  -- who gave the key back has given it back
  rcases h with ⟨e, hold⟩ | hrel | ⟨e, hend, hlt⟩
  · have hend := hrec _ _ _ hold
    rw [Kept, hlist, leaseEnd_snoc, hend]
    cases hs with
    | @grant k' b t htime hfree =>
      by_cases hk : k = k'
      · subst hk
        by_cases hb : b = a
        · exact .inl ⟨t + valid, by rw [Register.set_holder_self, hb]⟩
        · exact .inr (.inr ⟨e, by simp [leaseNext, hb], hfree _ _ hold⟩)
      · exact .inl ⟨e, by rw [Register.set_holder_ne _ _ _ hk, hold]⟩
    | @renew k' b e' t htime hold' =>
      by_cases hk : k = k'
      · subst hk
        rw [hold] at hold'
        cases hold'
        exact .inl ⟨_, Register.set_holder_self ..⟩
      · exact .inl ⟨e, by rw [Register.set_holder_ne _ _ _ hk, hold]⟩
    | @release k' b e' hold' =>
      by_cases hk : k = k'
      · subst hk
        rw [hold] at hold'
        cases hold'
        exact .inr (.inl (by simp))
      · exact .inl ⟨e, by rw [Register.set_holder_ne _ _ _ hk, hold]⟩
    | ignore | told => exact .inl ⟨e, hold⟩
  · exact .inr (.inl (mem_append_left _ hrel))
  · rw [Kept, hlist, leaseEnd_snoc, hend]
    cases hs with
    | @grant k' b t htime hfree =>
      by_cases hk : k' = k ∧ b = a
      · obtain ⟨rfl, rfl⟩ := hk
        exact .inl ⟨_, Register.set_holder_self ..⟩
      · exact .inr (.inr ⟨e, by simp [leaseNext, hk], lt_of_lt_of_le hlt htime⟩)
    | @renew k' b e' t htime hold' =>
      by_cases hk : k' = k ∧ b = a
      · obtain ⟨rfl, rfl⟩ := hk
        exact .inl ⟨_, Register.set_holder_self ..⟩
      · exact .inr (.inr ⟨e, by simp [leaseNext, hk], lt_of_lt_of_le hlt htime⟩)
    | release | ignore => exact .inr (.inr ⟨e, rfl, hlt⟩)
    | told htime => exact .inr (.inr ⟨e, rfl, lt_of_lt_of_le hlt htime⟩)

theorem recorded (h : Path (Step valid) (Register.vacant t0) es r) : Recorded valid es r :=
  h.invariant (I := Recorded valid) (fun _ _ _ h => by cases h) fun _ _ _ _ ih hs => ih.step hs

theorem kept {r0 : Register K} (h0 : Path (Step valid) (Register.vacant t0) before r0)
    (hk : Kept valid k a before [] r0) (h : Path (Step valid) r0 es r) :
    Kept valid k a before es r :=
  (h.invariant (I := fun es r => Kept valid k a before es r ∧ Recorded valid (before ++ es) r)
    ⟨hk, by simpa using recorded h0⟩ fun es _ x _ ih hs =>
      ⟨ih.1.step ih.2 hs, by simpa using ih.2.step hs⟩).1

/-- **Exclusion.** Somebody else is told that it holds the key only after the first holder gave it
back or its latest lease ended. -/
theorem exclusive {t1 e1 e2 : ℤ} {mid rest : List (Event K)}
    (h : Path (Step valid) (Register.vacant t0)
      (before ++ .told k a t1 e1 :: (mid ++ .told k b t e2 :: rest)) r) (hab : a ≠ b) :
    Event.release k a ∈ mid ∨
      ∃ e, leaseEnd valid k a (before ++ .told k a t1 e1 :: mid) = some e ∧ e < t := by
  obtain ⟨r1, h1, h⟩ := h.of_append
  obtain ⟨r2, hfirst, h⟩ := h.of_cons
  obtain ⟨r3, hmid, h⟩ := h.of_append
  obtain ⟨r4, hsecond, -⟩ := h.of_cons
  have hold : ∃ e, r2.holder k = some (a, e) := by
    cases hfirst with
    | told _ hold => exact ⟨_, hold⟩
  rcases kept (h1.snoc hfirst) (.inl hold) hmid with ⟨e, hold⟩ | hrel | ⟨e, hend, hlt⟩
  · cases hsecond with
    | told _ hold' =>
      rw [hold] at hold'
      cases hold'
      exact absurd rfl hab
  · exact .inl hrel
  · cases hsecond with
    | told htime => exact .inr ⟨e, by simpa using hend, lt_of_lt_of_le hlt htime⟩

/-! ## Renewed leases -/

theorem leaseEnd_le (h : Path (Step valid) (Register.vacant t0) es r)
    (hend : leaseEnd valid k a es = some e) : e ≤ r.time + valid := by
  refine h.invariant (I := fun es r => ∀ e, leaseEnd valid k a es = some e → e ≤ r.time + valid)
    (fun _ h => nomatch h) ?_ e hend
  intro es r x r' ih hs e' hend'
  rw [leaseEnd_snoc] at hend'
  cases hs with
  | grant htime =>
    simp only [leaseNext] at hend'
    split_ifs at hend'
    · exact le_of_eq (Option.some.inj hend').symm
    · exact (ih e' hend').trans (add_le_add_left htime _)
  | renew htime =>
    simp only [leaseNext] at hend'
    split_ifs at hend'
    · exact le_of_eq (Option.some.inj hend').symm
    · exact (ih e' hend').trans (add_le_add_left htime _)
  | release | ignore => exact ih e' hend'
  | told htime => exact (ih e' hend').trans (add_le_add_left htime _)

theorem leaseEnd_mono {r0 : Register K} (h0 : Path (Step valid) (Register.vacant t0) before r0)
    (hend : leaseEnd valid k a before = some e) (h : Path (Step valid) r0 es r) :
    ∃ e', leaseEnd valid k a (before ++ es) = some e' ∧ e ≤ e' := by
  induction h with
  | nil => exact ⟨e, by simpa using hend, le_refl e⟩
  | @snoc es r x r' hpath hs ih =>
    obtain ⟨e', hend', hle⟩ := ih
    have hlast := leaseEnd_le (h0.trans hpath) hend'
    rw [← append_assoc, leaseEnd_snoc, hend']
    cases hs with
    | @grant k' b t htime =>
      simp only [leaseNext]
      split_ifs
      · exact ⟨_, rfl, hle.trans (hlast.trans (add_le_add_left htime _))⟩
      · exact ⟨e', rfl, hle⟩
    | @renew k' b e'' t htime =>
      simp only [leaseNext]
      split_ifs
      · exact ⟨_, rfl, hle.trans (hlast.trans (add_le_add_left htime _))⟩
      · exact ⟨e', rfl, hle⟩
    | release | ignore | told => exact ⟨e', rfl, hle⟩

theorem leaseEnd_of_told {after : List (Event K)}
    (h : Path (Step valid) (Register.vacant t0) (before ++ .told k a t e :: after) r) :
    ∃ e', leaseEnd valid k a (before ++ .told k a t e :: after) = some e' ∧ e ≤ e' := by
  obtain ⟨r1, h1, h⟩ := h.of_append
  have hold : r1.holder k = some (a, e) := by
    obtain ⟨r2, hs, -⟩ := h.of_cons
    cases hs with
    | told _ hold => exact hold
  exact leaseEnd_mono h1 (recorded h1 k a e hold) h

theorem leaseEnd_of_renew {after : List (Event K)}
    (h : Path (Step valid) (Register.vacant t0) (before ++ .renew k a t :: after) r) :
    ∃ e', leaseEnd valid k a (before ++ .renew k a t :: after) = some e' ∧ t + valid ≤ e' := by
  have hlist : before ++ .renew k a t :: after = (before ++ [.renew k a t]) ++ after := by simp
  rw [hlist] at h ⊢
  obtain ⟨r1, h1, h⟩ := h.of_append
  refine leaseEnd_mono h1 ?_ h
  simp [leaseEnd_snoc, leaseNext]

/-! ## A lease that lasts -/

theorem Step.unique {r1 r2 : Register K} (h1 : Step valid r x r1) (h2 : Step valid r x r2) :
    r1 = r2 := by
  cases h1 with
  | grant => cases h2 with | grant => rfl
  | renew => cases h2 with | renew => rfl
  | told => cases h2 with | told => rfl
  | release hold =>
    cases h2 with
    | release => rfl
    | ignore hnot => exact absurd hold (hnot _)
  | ignore hnot =>
    cases h2 with
    | release hold => exact absurd hold (hnot _)
    | ignore => rfl

theorem Step.time_le (h : Step valid r x r') : r.time ≤ r'.time := by
  cases h with
  | grant htime => exact htime
  | renew htime => exact htime
  | told htime => exact htime
  | release | ignore => exact le_refl _

/-- **A holder keeps the key while its lease lasts**, unless it gives the key back. -/
theorem held (hold : r.holder k = some (a, e)) (hle : e ≤ r.time + valid)
    (h : Path (Step valid) r es r') (hrel : Event.release k a ∉ es) (hlast : r'.time ≤ e) :
    (∃ e', r'.holder k = some (a, e') ∧ e ≤ e') ∧ ∀ b t, Event.grant k b t ∉ es := by
  induction h with
  | nil => exact ⟨⟨e, hold, le_refl e⟩, fun _ _ hmem => nomatch hmem⟩
  | @snoc es r1 r2 x hpath hs ih =>
    have htime := hs.time_le
    obtain ⟨⟨e', hold', hle'⟩, hnone⟩ :=
      ih (fun hmem => hrel (mem_append_left _ hmem)) (htime.trans hlast)
    have hstart : r.time ≤ r1.time :=
      hpath.invariant (I := fun _ r1 => r.time ≤ r1.time) (le_refl _)
        fun _ _ _ _ ih hs => ih.trans hs.time_le
    -- a grant of this key would come at a reading past the end of the lease
    have hx : ∀ b t, x ≠ .grant k b t := by
      rintro b t rfl
      cases hs with
      | grant _ hfree =>
        have hover := hfree a e' hold'
        simp only [Register.set_time] at hlast
        omega
    refine ⟨?_, fun b t hmem => ?_⟩
    · cases hs with
      | @grant k' b t =>
        have hk : k ≠ k' := fun hk => hx b t (hk ▸ rfl)
        exact ⟨e', by rw [Register.set_holder_ne _ _ _ hk, hold'], hle'⟩
      | @renew k' b e'' t ht hold'' =>
        by_cases hk : k = k'
        · subst hk
          rw [hold'] at hold''
          cases hold''
          exact ⟨_, Register.set_holder_self .., by omega⟩
        · exact ⟨e', by rw [Register.set_holder_ne _ _ _ hk, hold'], hle'⟩
      | @release k' b e'' hold'' =>
        have hk : k ≠ k' := by
          rintro rfl
          rw [hold'] at hold''
          cases hold''
          exact hrel (by simp)
        exact ⟨e', by rw [Register.set_holder_ne _ _ _ hk, hold'], hle'⟩
      | ignore | told => exact ⟨e', hold', hle'⟩
    · rcases mem_append.mp hmem with hmem | hmem
      · exact hnone b t hmem
      · exact hx b t (mem_singleton.mp hmem).symm

end Hiqlite.Lease
