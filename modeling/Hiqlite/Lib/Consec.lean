import Mathlib.Tactic

/-!
# L4 — logs with consecutive ids

A log is a list of pairs of an id and a value. It is numbered from `k` if its ids are `k`, `k + 1`
and so on. Its entries below an id and those from an id on are then a `take` and a `drop`:
**`NumFrom.truncate_eq`**, **`NumFrom.purge_eq`**.
-/

namespace Hiqlite

open List

variable {α : Type}

/-- The ids are `k`, `k + 1`, and so on. -/
def NumFrom : ℕ → List (ℕ × α) → Prop
  | _, [] => True
  | k, e :: l => e.1 = k ∧ NumFrom (k + 1) l

def Consec (l : List (ℕ × α)) : Prop := ∃ k, NumFrom k l

def truncate (k : ℕ) (l : List (ℕ × α)) : List (ℕ × α) := l.filter fun e => e.1 < k

def purge (k : ℕ) (l : List (ℕ × α)) : List (ℕ × α) := l.filter fun e => k ≤ e.1

instance : ∀ (k : ℕ) (l : List (ℕ × α)), Decidable (NumFrom k l)
  | _, [] => isTrue trivial
  | k, e :: l =>
    have := instDecidableNumFrom (k + 1) l
    inferInstanceAs (Decidable (e.1 = k ∧ NumFrom (k + 1) l))

instance : ∀ l : List (ℕ × α), Decidable (Consec l)
  | [] => isTrue ⟨0, trivial⟩
  | e :: l => decidable_of_iff (NumFrom e.1 (e :: l)) ⟨fun h => ⟨_, h⟩, fun ⟨_, h1, h2⟩ => by
      rw [← h1] at h2
      exact ⟨rfl, h2⟩⟩

variable {l l1 l2 : List (ℕ × α)} {e : ℕ × α} {j k : ℕ}

@[simp] theorem numFrom_nil (k : ℕ) : NumFrom k ([] : List (ℕ × α)) := trivial

@[simp] theorem numFrom_cons : NumFrom k (e :: l) ↔ e.1 = k ∧ NumFrom (k + 1) l := Iff.rfl

theorem numFrom_append : NumFrom k (l1 ++ l2) ↔ NumFrom k l1 ∧ NumFrom (k + l1.length) l2 := by
  induction l1 generalizing k with
  | nil => simp
  | cons a l1 ih =>
    rw [cons_append, numFrom_cons, numFrom_cons, ih, length_cons, and_assoc,
      Nat.add_assoc, Nat.add_comm 1]

theorem NumFrom.mem_bounds (h : NumFrom k l) (he : e ∈ l) : k ≤ e.1 ∧ e.1 < k + l.length := by
  induction l generalizing k with
  | nil => simp at he
  | cons a l ih =>
    obtain ⟨h1, h2⟩ := numFrom_cons.mp h
    rw [length_cons]
    rcases mem_cons.mp he with rfl | he
    · omega
    · have := ih h2 he
      omega

theorem NumFrom.unique (h : NumFrom k l) (h' : NumFrom j l) (hl : l ≠ []) : j = k := by
  cases l with
  | nil => exact absurd rfl hl
  | cons a l => exact h'.1.symm.trans h.1

theorem NumFrom.consec (h : NumFrom k l) : Consec l := ⟨k, h⟩

theorem Consec.right (h : Consec (l1 ++ l2)) : Consec l2 := by
  obtain ⟨k, hk⟩ := h
  exact (numFrom_append.mp hk).2.consec

theorem NumFrom.of_consec_append (h : NumFrom k l1) (hl : l1 ≠ []) (hc : Consec (l1 ++ l2)) :
    NumFrom (k + l1.length) l2 := by
  obtain ⟨j, hj⟩ := hc
  obtain ⟨h1, h2⟩ := numFrom_append.mp hj
  rwa [h.unique h1 hl] at h2

/-! ## Truncation and purge -/

@[simp] theorem truncate_append : truncate k (l1 ++ l2) = truncate k l1 ++ truncate k l2 :=
  filter_append ..

@[simp] theorem purge_append : purge k (l1 ++ l2) = purge k l1 ++ purge k l2 :=
  filter_append ..

@[simp] theorem truncate_nil : truncate k ([] : List (ℕ × α)) = [] := rfl

@[simp] theorem purge_nil : purge k ([] : List (ℕ × α)) = [] := rfl

theorem mem_truncate : e ∈ truncate k l ↔ e ∈ l ∧ e.1 < k := by simp [truncate]

theorem mem_purge : e ∈ purge k l ↔ e ∈ l ∧ k ≤ e.1 := by simp [purge]

theorem truncate_eq_self (h : ∀ e ∈ l, e.1 < k) : truncate k l = l :=
  filter_eq_self.mpr fun e he => by simpa using h e he

theorem truncate_eq_nil (h : ∀ e ∈ l, k ≤ e.1) : truncate k l = [] :=
  filter_eq_nil_iff.mpr fun e he => by simpa using h e he

theorem purge_eq_self (h : ∀ e ∈ l, k ≤ e.1) : purge k l = l :=
  filter_eq_self.mpr fun e he => by simpa using h e he

theorem purge_eq_nil (h : ∀ e ∈ l, e.1 < k) : purge k l = [] :=
  filter_eq_nil_iff.mpr fun e he => by simpa using h e he

section

variable (h : NumFrom k l)
include h

theorem NumFrom.truncate_eq : truncate j l = l.take (j - k) := by
  induction l generalizing k with
  | nil => simp
  | cons a l ih =>
    obtain ⟨h1, h2⟩ := numFrom_cons.mp h
    rcases Nat.lt_or_ge k j with hj | hj
    · rw [show j - k = (j - (k + 1)) + 1 by omega, take_succ_cons, ← ih h2]
      exact filter_cons_of_pos (by simpa [h1] using hj)
    · rw [show j - k = 0 by omega, take_zero]
      exact truncate_eq_nil fun e he => by have := (h.mem_bounds he).1; omega

theorem NumFrom.purge_eq : purge j l = l.drop (j - k) := by
  induction l generalizing k with
  | nil => simp
  | cons a l ih =>
    obtain ⟨h1, h2⟩ := numFrom_cons.mp h
    rcases Nat.lt_or_ge k j with hj | hj
    · rw [show j - k = (j - (k + 1)) + 1 by omega, drop_succ_cons, ← ih h2]
      exact filter_cons_of_neg (by simpa [h1] using hj)
    · rw [show j - k = 0 by omega, drop_zero]
      exact purge_eq_self fun e he => by have := (h.mem_bounds he).1; omega

theorem NumFrom.truncate_append_purge : truncate j l ++ purge j l = l := by
  rw [h.truncate_eq, h.purge_eq, take_append_drop]

theorem NumFrom.numFrom_purge (hj : k ≤ j) (hl : j ≤ k + l.length) : NumFrom j (purge j l) := by
  have hn := h
  rw [← take_append_drop (j - k) l] at hn
  have := (numFrom_append.mp hn).2
  rwa [length_take_of_le (by omega), Nat.add_sub_cancel' hj, ← h.purge_eq] at this

theorem NumFrom.numFrom_range {i : ℕ} (hj : k ≤ j) (hji : j ≤ i) (hi : i ≤ k + l.length) :
    NumFrom j (purge j (truncate i l)) ∧ (purge j (truncate i l)).length = i - j := by
  have hn := h
  rw [← take_append_drop (i - k) l] at hn
  have hlow := (numFrom_append.mp hn).1
  rw [h.truncate_eq]
  have hlen : (l.take (i - k)).length = i - k := length_take_of_le (by omega)
  refine ⟨hlow.numFrom_purge hj (by omega), ?_⟩
  rw [hlow.purge_eq, length_drop, hlen]
  omega

theorem NumFrom.map_fst : l.map Prod.fst = range' k l.length := by
  induction l generalizing k with
  | nil => rfl
  | cons e l ih =>
    obtain ⟨h1, h2⟩ := numFrom_cons.mp h
    rw [map_cons, ih h2, h1, length_cons, range'_succ]

theorem NumFrom.truncate_split_at {i : ℕ} (hij : j ≤ i) :
    truncate j l ++ truncate i (purge j l) = truncate i l := by
  have hself : truncate i (truncate j l) = truncate j l :=
    truncate_eq_self fun e he => lt_of_lt_of_le (mem_truncate.mp he).2 hij
  conv_rhs => rw [← h.truncate_append_purge (j := j), truncate_append, hself]

theorem NumFrom.exists_split (h1 : k ≤ j) (h2 : j < k + l.length) :
    ∃ xs e ys, l = xs ++ e :: ys ∧ e.1 = j ∧ k + xs.length = j := by
  have hlen : j - k < l.length := by omega
  have hsplit : l = l.take (j - k) ++ l[j - k] :: l.drop (j - k + 1) := by
    rw [cons_getElem_drop_succ, take_append_drop]
  have hxs : (l.take (j - k)).length = j - k := by rw [length_take]; omega
  refine ⟨l.take (j - k), l[j - k], l.drop (j - k + 1), hsplit, ?_, by omega⟩
  rw [hsplit] at h
  obtain ⟨-, h3⟩ := numFrom_append.mp h
  have := (numFrom_cons.mp h3).1
  omega

end

theorem NumFrom.purge_split {xs ys : List (ℕ × α)} (h : NumFrom k (xs ++ e :: ys)) :
    purge e.1 (xs ++ e :: ys) = e :: ys := by
  have := (numFrom_cons.mp (numFrom_append.mp h).2).1
  rw [h.purge_eq, this, Nat.add_sub_cancel_left, drop_left]

end Hiqlite
