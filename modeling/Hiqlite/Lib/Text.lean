import Mathlib.Tactic

/-!
# L7 — texts with separators and numbers

A text is a list of characters.

* **`parseInt_toDigits`**: digits are read as written;
* **`padded_lt`**: numbers of a fixed width are ordered as their texts.
-/

namespace Hiqlite

open List

def splitOnce (c : Char) (l : List Char) : Option (List Char × List Char) :=
  if c ∈ l then some (l.takeWhile (· ≠ c), (l.dropWhile (· ≠ c)).tail) else none

def rsplitOnce (c : Char) (l : List Char) : Option (List Char × List Char) :=
  (splitOnce c l.reverse).map fun p => (p.2.reverse, p.1.reverse)

variable {c : Char} {xs ys : List Char}

theorem splitOnce_append (h : c ∉ xs) : splitOnce c (xs ++ c :: ys) = some (xs, ys) := by
  have hall : ∀ x ∈ xs, decide (x ≠ c) = true := fun x hx => by
    simpa using fun he : x = c => h (he ▸ hx)
  rw [splitOnce, if_pos (by simp), takeWhile_append_of_pos hall,
    dropWhile_append_of_pos hall]
  simp

theorem rsplitOnce_append (h : c ∉ ys) : rsplitOnce c (xs ++ c :: ys) = some (xs, ys) := by
  have hrev : (xs ++ c :: ys).reverse = ys.reverse ++ c :: xs.reverse := by simp
  rw [rsplitOnce, hrev, splitOnce_append (by simpa using h)]
  simp

/-! ## Numbers -/

def parseDigits (l : List Char) : Option ℕ :=
  if l ≠ [] ∧ l.all Char.isDigit then some (Nat.ofDigitChars 10 l 0) else none

/-- A number with an optional sign, if it is in the range of `i64`. -/
def parseInt : List Char → Option ℤ
  | '-' :: ds => (parseDigits ds).bind fun n => if n ≤ 2 ^ 63 then some (-(n : ℤ)) else none
  | '+' :: ds => (parseDigits ds).bind fun n => if n < 2 ^ 63 then some (n : ℤ) else none
  | ds => (parseDigits ds).bind fun n => if n < 2 ^ 63 then some (n : ℤ) else none

def parseU64 (l : List Char) : Option ℕ :=
  (parseDigits (if l.head? = some '+' then l.tail else l)).filter (· < 2 ^ 64)

def showInt (z : ℤ) : List Char :=
  if z < 0 then '-' :: Nat.toDigits 10 z.natAbs else Nat.toDigits 10 z.natAbs

theorem isDigit_of_mem {n : ℕ} {d : Char} (h : d ∈ Nat.toDigits 10 n) : d.isDigit = true :=
  Nat.isDigit_of_mem_toDigits (by omega) le_rfl h

theorem not_mem_toDigits (n : ℕ) (hc : c.isDigit = false) : c ∉ Nat.toDigits 10 n :=
  fun h => absurd (isDigit_of_mem h) (by simp [hc])

theorem toDigits_ne_nil (n : ℕ) : Nat.toDigits 10 n ≠ [] := by
  have := Nat.length_toDigits_pos (b := 10) (n := n)
  exact ne_nil_of_length_pos this

theorem parseDigits_toDigits (n : ℕ) : parseDigits (Nat.toDigits 10 n) = some n := by
  rw [parseDigits, if_pos ⟨toDigits_ne_nil n, all_eq_true.mpr fun _ => isDigit_of_mem⟩,
    Nat.ofDigitChars_toDigits (by omega) le_rfl]

theorem parseInt_toDigits {n : ℕ} (h : n < 2 ^ 63) : parseInt (Nat.toDigits 10 n) = some (n : ℤ) := by
  obtain ⟨d, ds, hd⟩ := exists_cons_of_ne_nil (toDigits_ne_nil n)
  have hdig : d.isDigit = true := isDigit_of_mem (n := n) (by rw [hd]; simp)
  have hp := parseDigits_toDigits n
  rw [hd] at hp ⊢
  -- a digit is no sign
  have hplain : parseInt (d :: ds) =
      (parseDigits (d :: ds)).bind fun n => if n < 2 ^ 63 then some (n : ℤ) else none := by
    refine parseInt.eq_3 _ ?_ ?_ <;> rintro ds' he <;> cases he <;> exact absurd hdig (by decide)
  rw [hplain, hp, Option.bind_some, if_pos h]

theorem showInt_natCast (n : ℕ) : showInt n = Nat.toDigits 10 n := by
  rw [showInt, if_neg (by omega), Int.natAbs_natCast]

/-! ## Numbers of a fixed width -/

/-- The digits of `n` behind as many zeros as `k` places need. -/
def padded (k n : ℕ) : List Char :=
  replicate (k - (Nat.toDigits 10 n).length) '0' ++ Nat.toDigits 10 n

variable {k m n : ℕ}

theorem isDigit_of_mem_padded {d : Char} (h : d ∈ padded k n) : d.isDigit = true := by
  rcases mem_append.mp h with hz | hd
  · rw [eq_of_mem_replicate hz]
    decide
  · exact isDigit_of_mem hd

theorem parseDigits_padded (k n : ℕ) : parseDigits (padded k n) = some n := by
  have hzeros (j : ℕ) : Nat.ofDigitChars 10 (replicate j '0') 0 = 0 := by
    induction j with
    | zero => rfl
    | succ j ih => simpa [replicate_succ, Nat.ofDigitChars] using ih
  have hall : (padded k n).all Char.isDigit = true :=
    all_eq_true.mpr fun d hd => isDigit_of_mem_padded hd
  have hne : padded k n ≠ [] := append_ne_nil_of_right_ne_nil _ (toDigits_ne_nil n)
  rw [parseDigits, if_pos ⟨hne, hall⟩, padded, Nat.ofDigitChars_append, hzeros,
    Nat.ofDigitChars_toDigits (by decide) (by decide)]

theorem parseU64_padded (k : ℕ) (h : n < 2 ^ 64) : parseU64 (padded k n) = some n := by
  have hsign : (padded k n).head? ≠ some '+' := fun hs =>
    absurd (isDigit_of_mem_padded (mem_of_head? hs)) (by decide)
  rw [parseU64, if_neg hsign, parseDigits_padded, Option.filter_some, if_pos (by simpa using h)]

theorem length_padded (hk : 0 < k) (h : n < 10 ^ k) : (padded k n).length = k := by
  have := Nat.toDigits_length 10 n k hk h
  rw [padded, length_append, length_replicate]
  omega

/-- The last digit comes off the end. -/
theorem padded_succ (hk : 0 < k) (n : ℕ) :
    padded (k + 1) n = padded k (n / 10) ++ [(n % 10).digitChar] := by
  rw [padded, Nat.toDigits_eq_if (by decide)]
  split
  case isTrue h =>
    -- A single digit: the padding of `0` is itself the missing zero.
    rw [Nat.div_eq_of_lt h, Nat.mod_eq_of_lt h, padded, Nat.toDigits_eq_if (by decide)]
    obtain ⟨k, rfl⟩ := Nat.exists_eq_add_of_lt hk
    simp [replicate_succ']
  case isFalse => simp [padded]

theorem append_lt_append {xs ys us vs : List Char} (hl : xs.length = ys.length) (h : xs < ys) :
    xs ++ us < ys ++ vs := by
  induction xs generalizing ys with
  | nil =>
    cases List.length_eq_zero_iff.mp hl.symm
    exact absurd h (List.lt_irrefl _)
  | cons x xs ih =>
    obtain _ | ⟨y, ys⟩ := ys
    · simp at hl
    · rcases cons_lt_cons_iff.mp h with hxy | ⟨rfl, hlt⟩
      · exact cons_lt_cons_iff.mpr (.inl hxy)
      · exact cons_lt_cons_iff.mpr (.inr ⟨rfl, ih (by simpa using hl) hlt⟩)

theorem digitChar_lt : ∀ i < 10, ∀ j < 10, i < j → Nat.digitChar i < Nat.digitChar j := by decide

/-- Numbers of one width are ordered as their texts. -/
theorem padded_lt (hk : 0 < k) (hn : n < 10 ^ k) (h : m < n) : padded k m < padded k n := by
  induction k, hk using Nat.le_induction generalizing m n with
  | base =>
    have hlt : ∀ i < 10, padded 1 i = [i.digitChar] := by decide
    rw [hlt m (by omega), hlt n (by omega)]
    exact cons_lt_cons_iff.mpr (.inl (digitChar_lt m (by omega) n (by omega) h))
  | succ k hk ih =>
    have hn10 : n / 10 < 10 ^ k := by omega
    have hle : m / 10 ≤ n / 10 := by omega
    rw [padded_succ hk, padded_succ hk]
    rcases hle.lt_or_eq with hlt | heq
    · have hlen : (padded k (m / 10)).length = (padded k (n / 10)).length := by
        rw [length_padded hk (by omega), length_padded hk hn10]
      exact append_lt_append hlen (ih hn10 hlt)
    · rw [heq]
      have hd := digitChar_lt (m % 10) (by omega) (n % 10) (by omega) (by omega)
      exact append_left_lt (cons_lt_cons_iff.mpr (.inl hd))

end Hiqlite
