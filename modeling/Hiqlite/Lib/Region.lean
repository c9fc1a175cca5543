import Mathlib.Data.List.Chain
import Mathlib.Tactic

/-!
# L1 — byte regions

A region is the content of a file or of a memory mapping: one byte for every offset.

* `read_write_self`, **`read_write_of_disjoint`**: a read sees exactly the last write to its range;
* **`ofBe_toBe`**: the round trip of big-endian numbers of a fixed width.
-/

namespace Hiqlite

open List

abbrev Bytes := List UInt8

abbrev Region := ℕ → UInt8

namespace Region

def zero : Region := fun _ => 0

def read (b : Region) (off : ℕ) : ℕ → Bytes
  | 0 => []
  | n + 1 => b off :: read b (off + 1) n

/-- The region after `bs` was written at offset `off`. -/
def write (b : Region) (off : ℕ) (bs : Bytes) : Region :=
  fun i => if off ≤ i then (bs[i - off]?).getD (b i) else b i

/-- Two regions hold the same bytes on `[lo, hi)`. -/
def AgreeOn (lo hi : ℕ) (b c : Region) : Prop := ∀ i, lo ≤ i → i < hi → b i = c i

variable {b c d : Region} {off lo hi n : ℕ} {bs : Bytes}

@[simp] theorem read_zero_length : b.read off 0 = [] := rfl

@[simp] theorem length_read (b : Region) (off n : ℕ) : (b.read off n).length = n := by
  induction n generalizing off with
  | zero => rfl
  | succ n ih => simp [read, ih]

theorem zero_read (off n : ℕ) : zero.read off n = replicate n 0 := by
  induction n generalizing off with
  | zero => rfl
  | succ n ih => rw [read, ih, replicate_succ]; rfl

theorem read_congr (h : AgreeOn off (off + n) b c) : b.read off n = c.read off n := by
  induction n generalizing off with
  | zero => rfl
  | succ n ih =>
    simp only [read]
    rw [h off le_rfl (by omega), ih fun i h1 h2 => h i (by omega) (by omega)]

theorem getElem?_read (b : Region) (off n i : ℕ) :
    (b.read off n)[i]? = if i < n then some (b (off + i)) else none := by
  induction n generalizing off i with
  | zero => simp
  | succ n ih =>
    cases i with
    | zero => simp [read]
    | succ i => simp [read, ih, Nat.add_right_comm, Nat.add_assoc]

theorem read_add (b : Region) (off m n : ℕ) :
    b.read off (m + n) = b.read off m ++ b.read (off + m) n := by
  induction m generalizing off with
  | zero => simp
  | succ m ih =>
    rw [Nat.succ_add]
    simp only [read, ih, cons_append]
    rw [Nat.add_assoc, Nat.add_comm 1 m]

theorem take_read (b : Region) (off : ℕ) {k n : ℕ} (h : k ≤ n) :
    (b.read off n).take k = b.read off k := by
  obtain ⟨m, rfl⟩ := Nat.exists_eq_add_of_le h
  rw [read_add, take_left' (length_read b off k)]

theorem drop_read (b : Region) (off : ℕ) {k m n : ℕ} (h : k + m = n) :
    (b.read off n).drop k = b.read (off + k) m := by
  rw [← h, read_add, drop_left' (length_read b off k)]

theorem write_apply_of_lt {i : ℕ} (h : i < off) : b.write off bs i = b i := by
  simp [write, Nat.not_le.mpr h]

theorem write_apply_of_ge {i : ℕ} (h : off + bs.length ≤ i) : b.write off bs i = b i := by
  unfold write
  rw [if_pos (by omega), getElem?_eq_none (by omega), Option.getD_none]

theorem agreeOn_write (h : hi ≤ off ∨ off + bs.length ≤ lo) : AgreeOn lo hi (b.write off bs) b := by
  intro i h1 h2
  rcases h with h | h
  · exact write_apply_of_lt (by omega)
  · exact write_apply_of_ge (by omega)

theorem read_write_of_disjoint {o : ℕ} (h : off + n ≤ o ∨ o + bs.length ≤ off) :
    (b.write o bs).read off n = b.read off n :=
  read_congr (agreeOn_write h)

theorem read_write_self (b : Region) (off : ℕ) (bs : Bytes) :
    (b.write off bs).read off bs.length = bs := by
  apply ext_getElem?
  intro i
  rw [getElem?_read]
  split_ifs with h
  · simp [write, getElem?_eq_getElem h]
  · rw [getElem?_eq_none (by omega)]

theorem read_write_of_length (h : bs.length = n) : (b.write off bs).read off n = bs := by
  subst h
  exact read_write_self b off bs

namespace AgreeOn

theorem refl (lo hi : ℕ) (b : Region) : AgreeOn lo hi b b := fun _ _ _ => rfl

theorem symm (h : AgreeOn lo hi b c) : AgreeOn lo hi c b := fun i h1 h2 => (h i h1 h2).symm

theorem trans (h : AgreeOn lo hi b c) (h' : AgreeOn lo hi c d) : AgreeOn lo hi b d :=
  fun i h1 h2 => (h i h1 h2).trans (h' i h1 h2)

theorem mono {lo' hi' : ℕ} (h : AgreeOn lo hi b c) (h1 : lo ≤ lo') (h2 : hi' ≤ hi) :
    AgreeOn lo' hi' b c :=
  fun i h3 h4 => h i (by omega) (by omega)

end AgreeOn

end Region

/-! ## Numbers as bytes -/

theorem take_drop_of_eq (xs zs : Bytes) {l ys : Bytes} {a n : ℕ} (hl : l = xs ++ (ys ++ zs))
    (hx : xs.length = a) (hy : ys.length = n) : (l.drop a).take n = ys := by
  subst hl hx hy
  simp

/-- The low `w` bytes of `n`, most significant first. -/
def toBe : ℕ → ℕ → Bytes
  | 0, _ => []
  | w + 1, n => toBe w (n / 256) ++ [UInt8.ofNat n]

def ofBe (bs : Bytes) : ℕ := bs.foldl (fun a x => a * 256 + x.toNat) 0

/-- The low `w` bytes of `n`, least significant first. -/
def toLe : ℕ → ℕ → Bytes
  | 0, _ => []
  | w + 1, n => UInt8.ofNat n :: toLe w (n / 256)

@[simp] theorem length_toBe (w n : ℕ) : (toBe w n).length = w := by
  induction w generalizing n with
  | zero => rfl
  | succ w ih => simp [toBe, ih]

@[simp] theorem length_toLe (w n : ℕ) : (toLe w n).length = w := by
  induction w generalizing n with
  | zero => rfl
  | succ w ih => simp [toLe, ih]

theorem ofBe_toBe_mod (w n : ℕ) : ofBe (toBe w n) = n % 256 ^ w := by
  induction w generalizing n with
  | zero => simp [toBe, ofBe, Nat.mod_one]
  | succ w ih =>
    have h : ofBe (toBe (w + 1) n) = ofBe (toBe w (n / 256)) * 256 + n % 256 := by
      simp [toBe, ofBe, foldl_append]
    rw [h, ih, pow_succ', Nat.mod_mul]
    ring

theorem ofBe_concat (bs : Bytes) (x : UInt8) : ofBe (bs ++ [x]) = ofBe bs * 256 + x.toNat := by
  simp [ofBe, foldl_append]

theorem toBe_ofBe (bs : Bytes) : toBe bs.length (ofBe bs) = bs := by
  induction bs using reverseRecOn with
  | nil => rfl
  | append_singleton bs x ih =>
    have hx := x.toNat_lt
    have h1 : (ofBe bs * 256 + x.toNat) / 256 = ofBe bs := by omega
    have h2 : UInt8.ofNat (ofBe bs * 256 + x.toNat) = x := by
      apply UInt8.toNat_inj.mp
      simp only [UInt8.toNat_ofNat']
      omega
    rw [length_append, length_singleton, ofBe_concat, toBe, h1, h2, ih]

theorem ofBe_lt (bs : Bytes) : ofBe bs < 256 ^ bs.length := by
  induction bs using reverseRecOn with
  | nil => simp [ofBe]
  | append_singleton bs x ih =>
    have hx := x.toNat_lt
    rw [ofBe_concat, length_append, length_singleton, pow_succ]
    omega

theorem ofBe_toBe {w n : ℕ} (h : n < 256 ^ w) : ofBe (toBe w n) = n := by
  rw [ofBe_toBe_mod, Nat.mod_eq_of_lt h]

end Hiqlite
