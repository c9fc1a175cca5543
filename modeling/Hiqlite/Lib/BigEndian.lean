import Mathlib.Tactic

/-!
# L14 — big-endian numbers

Numbers as byte strings of a fixed length, the highest byte first. Compared byte by byte they are in
the order of the numbers (**`lt_iff_value_lt`**), and what was encoded is decoded (**`value_bytes`**).
-/

namespace Hiqlite.BigEndian

def bytes : ℕ → ℕ → List UInt8
  | 0, _ => []
  | k + 1, n => UInt8.ofNat (n / 256 ^ k) :: bytes k (n % 256 ^ k)

def value : List UInt8 → ℕ
  | [] => 0
  | b :: l => b.toNat * 256 ^ l.length + value l

variable {k m n : ℕ} {l l' : List UInt8}

@[simp] theorem bytes_length (k n : ℕ) : (bytes k n).length = k := by
  induction k generalizing n with
  | zero => rfl
  | succ k ih => simp [bytes, ih]

theorem value_lt (l : List UInt8) : value l < 256 ^ l.length := by
  induction l with
  | nil => simp [value]
  | cons b l ih =>
    have hb : b.toNat ≤ 255 := Nat.le_of_lt_succ (UInt8.toNat_lt b)
    calc value (b :: l) < b.toNat * 256 ^ l.length + 256 ^ l.length := by
          rw [value]
          omega
      _ = (b.toNat + 1) * 256 ^ l.length := by ring
      _ ≤ 256 * 256 ^ l.length := Nat.mul_le_mul_right _ (by omega)
      _ = 256 ^ (b :: l).length := by rw [List.length_cons, pow_succ, mul_comm]

theorem value_bytes (h : n < 256 ^ k) : value (bytes k n) = n := by
  induction k generalizing n with
  | zero =>
    have hn : n = 0 := Nat.lt_one_iff.mp h
    rw [bytes, value, hn]
  | succ k ih =>
    have hpos : 0 < 256 ^ k := Nat.pow_pos (by omega)
    have hdiv : n / 256 ^ k < 256 := by
      rw [Nat.div_lt_iff_lt_mul hpos, mul_comm, ← pow_succ]
      exact h
    rw [bytes, value, bytes_length, ih (Nat.mod_lt n hpos), UInt8.toNat_ofNat_of_lt' hdiv]
    exact Nat.div_add_mod' n (256 ^ k)

theorem bytes_injective (hm : m < 256 ^ k) (hn : n < 256 ^ k) (h : bytes k m = bytes k n) : m = n := by
  rw [← value_bytes hm, h, value_bytes hn]

theorem lt_iff_value_lt (hlen : l.length = l'.length) : l < l' ↔ value l < value l' := by
  induction l generalizing l' with
  | nil =>
    cases l' with
    | nil => simp [value]
    | cons b l' => cases hlen
  | cons a l ih =>
    cases l' with
    | nil => cases hlen
    | cons b l' =>
      have hlen' : l.length = l'.length := Nat.succ.inj hlen
      have hl := value_lt l
      have hl' := value_lt l'
      rw [List.cons_lt_cons_iff, UInt8.lt_iff_toNat_lt, ih hlen', value, value, ← hlen']
      rw [← hlen'] at hl'
      rcases Nat.lt_trichotomy a.toNat b.toNat with hab | hab | hab
      · have hmul : (a.toNat + 1) * 256 ^ l.length ≤ b.toNat * 256 ^ l.length :=
          Nat.mul_le_mul_right _ hab
        rw [Nat.add_mul, one_mul] at hmul
        exact iff_of_true (.inl hab) (by omega)
      · obtain rfl := UInt8.toNat_inj.mp hab
        simp
      · have hmul : (b.toNat + 1) * 256 ^ l.length ≤ a.toNat * 256 ^ l.length :=
          Nat.mul_le_mul_right _ hab
        rw [Nat.add_mul, one_mul] at hmul
        refine iff_of_false ?_ (by omega)
        rintro (h | ⟨rfl, -⟩) <;> omega

end Hiqlite.BigEndian
