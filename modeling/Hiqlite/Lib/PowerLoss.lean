import Hiqlite.Lib.Device

/-!
# L6 — power loss

A byte may hold every value it had since the last flush of its file, files keep the length they were
created with, and the last removals may not have happened.

* **`Lost.agree`**, **`Lost.mem_dir`**, `Lost.inodes`: what is left for certain.
-/

namespace Hiqlite

open List Function

variable {κ μ ν : Type} {base : Disk μ} {es : List (Event κ μ ν)} {e : Event κ μ ν} {d : Disk μ}
  {ino : ℕ}

/-! ## Moments -/

/-- A disk since the last flush of the file `ino`. -/
def Moment (base : Disk μ) (es : List (Event κ μ ν)) (ino : ℕ) (d : Disk μ) : Prop :=
  ∃ k ≤ es.length, .flush ino ∉ es.drop k ∧ d = replay base (es.take k)

theorem moment_now : Moment base es ino (replay base es) :=
  ⟨es.length, le_rfl, by simp, by simp⟩

theorem moment_concat : Moment base (es ++ [e]) ino d ↔
    d = replay base (es ++ [e]) ∨ e ≠ .flush ino ∧ Moment base es ino d := by
  constructor
  · rintro ⟨k, hk, hf, rfl⟩
    rcases Nat.lt_or_ge es.length k with hlt | hle
    · exact .inl (by rw [take_of_length_le (by simp; omega)])
    · rw [drop_append_of_le_length hle, mem_append, not_or] at hf
      refine .inr ⟨fun he => hf.2 (by simp [he]), k, hle, hf.1, ?_⟩
      rw [take_append_of_le_length hle]
  · rintro (rfl | ⟨he, k, hk, hf, rfl⟩)
    · exact moment_now
    · refine ⟨k, by simp; omega, ?_, by rw [take_append_of_le_length hk]⟩
      rw [drop_append_of_le_length hk]
      simp [hf, he.symm]

theorem moment_dropLast (h : es.getLast? = some e) (he : e ≠ .flush ino) :
    Moment base es ino (replay base es.dropLast) := by
  rw [← dropLast_append_getLast? e h]
  exact moment_concat.mpr (.inr ⟨he, by rw [dropLast_concat]; exact moment_now⟩)

/-! ## Losses -/

def Event.lasting : Event κ μ ν → Bool
  | .remove _ => false
  | _ => true

/-- **A disk that a power loss may leave behind.** -/
structure Lost (base : Disk μ) (es : List (Event κ μ ν)) (d : Disk μ) : Prop where
  bytes : ∀ ino i, ∃ m, Moment base es ino m ∧ (d.inode ino).bytes i = (m.inode ino).bytes i
  len : ∀ ino, (d.inode ino).len = ((replay base es).inode ino).len
  dir : ∃ k, d.dir = (replay base (es.take k ++ (es.drop k).filter Event.lasting)).dir
  names : (d.dir.map Prod.fst).Nodup

/-- The first `n` bytes of each file are those of one moment. -/
def Untorn (n : ℕ) (base : Disk μ) (es : List (Event κ μ ν)) (d : Disk μ) : Prop :=
  ∀ ino, ∃ m, Moment base es ino m ∧ Region.AgreeOn 0 n (d.inode ino).bytes (m.inode ino).bytes

/-- **Bytes that did not change since the last flush are left.** -/
theorem Lost.agree (h : Lost base es d) {lo hi : ℕ} {b : Region}
    (hb : ∀ m, Moment base es ino m → Region.AgreeOn lo hi b (m.inode ino).bytes) :
    Region.AgreeOn lo hi b (d.inode ino).bytes := by
  intro i h1 h2
  obtain ⟨m, hm, hi⟩ := h.bytes ino i
  rw [hi]
  exact hb m hm i h1 h2

theorem mem_dir_filter_lasting {d d' : Disk μ} (hdir : ∀ x ∈ d.dir, x ∈ d'.dir)
    (hnext : d'.next = d.next) {x : ℕ × ℕ} (hx : x ∈ (replay d es).dir) :
    x ∈ (replay d' (es.filter Event.lasting)).dir := by
  induction es generalizing d d' with
  | nil => exact hdir x hx
  | cons e es ih =>
    cases e with
    | remove no =>
      exact ih (d := Event.apply (.remove no : Event κ μ ν) d)
        (fun y hy => hdir y (mem_of_mem_filter hy)) hnext hx
    | create no len =>
      change x ∈ (replay (Event.apply (.create no len : Event κ μ ν) d')
        (es.filter Event.lasting)).dir
      refine ih (d := Event.apply (.create no len : Event κ μ ν) d) (fun y hy => ?_) ?_ hx
      · rw [apply_create_dir, hnext]
        rw [apply_create_dir] at hy
        exact mem_append.mpr ((mem_append.mp hy).imp_left (hdir y))
      · rw [apply_create_next, apply_create_next, hnext]
    | write ino k off bs =>
      exact ih (d := Event.apply (.write ino k off bs : Event κ μ ν) d) hdir hnext hx
    | flush i => exact ih (d := d) hdir hnext hx
    | small m => exact ih (d := Event.apply (.small m : Event κ μ ν) d) hdir hnext hx
    | note n => exact ih (d := d) hdir hnext hx

theorem Lost.mem_dir (h : Lost base es d) {x : ℕ × ℕ} (hx : x ∈ (replay base es).dir) :
    x ∈ d.dir := by
  obtain ⟨k, hk⟩ := h.dir
  rw [hk, replay_append]
  rw [← take_append_drop k es, replay_append] at hx
  exact mem_dir_filter_lasting (fun _ hy => hy) rfl hx

theorem replay_inodes (hlt : ∀ x ∈ d.dir, x.2 < d.next) (hnd : (d.dir.map Prod.snd).Nodup) :
    ((replay d es).dir.map Prod.snd).Nodup := by
  induction es generalizing d with
  | nil => exact hnd
  | cons e es ih =>
    cases e with
    | create no len =>
      refine ih (d := Event.apply (.create no len : Event κ μ ν) d) (fun x hx => ?_) ?_
      · rw [apply_create_next]
        rw [apply_create_dir] at hx
        rcases mem_append.mp hx with hx | hx
        · exact (hlt x hx).trans (Nat.lt_succ_self _)
        · rw [mem_singleton.mp hx]
          exact Nat.lt_succ_self _
      · rw [apply_create_dir, map_append, nodup_append]
        refine ⟨hnd, by simp, fun a ha b hb => ?_⟩
        obtain ⟨x, hx, rfl⟩ := mem_map.mp ha
        have := hlt x hx
        simp only [map_cons, map_nil, mem_singleton] at hb
        omega
    | remove no =>
      refine ih (d := Event.apply (.remove no : Event κ μ ν) d)
        (fun x hx => hlt x (mem_of_mem_filter hx)) ?_
      exact hnd.sublist (filter_sublist.map _)
    | write ino k off bs => exact ih (d := Event.apply (.write ino k off bs : Event κ μ ν) d) hlt hnd
    | flush i => exact ih (d := d) hlt hnd
    | small m => exact ih (d := Event.apply (.small m : Event κ μ ν) d) hlt hnd
    | note n => exact ih (d := d) hlt hnd

theorem Lost.inodes (h : Lost base es d) (hbase : base.dir = []) : (d.dir.map Prod.snd).Nodup := by
  obtain ⟨k, hk⟩ := h.dir
  rw [hk]
  exact replay_inodes (by simp [hbase]) (by simp [hbase])

/-- The disk with one byte as it was on the disk `m`. -/
def revert (ino i : ℕ) (m d : Disk μ) : Disk μ :=
  { d with
    inode := update d.inode ino
      ⟨(d.inode ino).len, update (d.inode ino).bytes i ((m.inode ino).bytes i)⟩ }

theorem lost_revert {m : Disk μ} (hm : Moment base es ino m)
    (hn : ((replay base es).dir.map Prod.fst).Nodup) (i : ℕ) :
    Lost base es (revert ino i m (replay base es)) where
  bytes := by
    intro ino' j
    by_cases h : ino' = ino ∧ j = i
    · obtain ⟨rfl, rfl⟩ := h
      exact ⟨m, hm, by simp [revert]⟩
    · refine ⟨_, moment_now, ?_⟩
      by_cases hi : ino' = ino
      · subst hi
        simp [revert, update_of_ne (fun hj => h ⟨rfl, hj⟩)]
      · simp [revert, update_of_ne hi]
  len := by
    intro ino'
    by_cases hi : ino' = ino
    · subst hi
      simp [revert]
    · simp [revert, update_of_ne hi]
  dir := ⟨es.length, by simp [revert]⟩
  names := hn

theorem untorn_revert {m : Disk μ} {n i : ℕ} (hi : n ≤ i) :
    Untorn n base es (revert ino i m (replay base es)) := by
  refine fun ino' => ⟨_, moment_now, fun j _ hj => ?_⟩
  by_cases h : ino' = ino
  · subst h
    simp [revert, update_of_ne (show j ≠ i by omega)]
  · simp [revert, update_of_ne h]

end Hiqlite
