import Hiqlite.Lib.Consec
import Hiqlite.Wal.Set

/-!
# W5 — the layout of a WAL file

Where the records of a file lie and what the reading functions return for them. The data of a
record ends at `data_end`, and the next record starts one byte behind it.

* **`readLogsLoop_laid`**, **`readLogs_holds`**: reading a range of ids;
* **`walk_append`**: the records from `data_start` to `data_end`.
-/

namespace Hiqlite.Wal

open List Region

variable [Crc]

/-! ## Records in a region -/

/-- An entry has data, and its id is not the open end of a removal. -/
@[mk_iff]
structure EntryOk (e : Entry) : Prop where
  pos : 0 < e.2.length
  id_lt : e.1 < u64Max

instance (e : Entry) : Decidable (EntryOk e) := decidable_of_iff' _ (entryOk_iff e)

@[mk_iff]
structure RecAt (b : Region) (off : ℕ) (e : Entry) : Prop where
  id : b.read off 8 = toBe 8 e.1
  crc : b.read (off + 8) 4 = crcBytes e.2
  len : b.read (off + 12) 4 = toBe 4 e.2.length
  data : b.read (off + 16) e.2.length = e.2

/-- The offset behind records that start at `off`, where the next one starts. -/
def endOf : ℕ → List Entry → ℕ
  | off, [] => off
  | off, e :: es => endOf (off + 17 + e.2.length) es

/-- The records of `es` lie behind each other from `off` on. -/
def Laid (b : Region) : ℕ → List Entry → Prop
  | _, [] => True
  | off, e :: es => RecAt b off e ∧ Laid b (off + 17 + e.2.length) es

instance (b : Region) (off : ℕ) (e : Entry) : Decidable (RecAt b off e) :=
  decidable_of_iff' _ (recAt_iff b off e)

instance decidableLaid (b : Region) : ∀ (off : ℕ) (es : List Entry), Decidable (Laid b off es)
  | _, [] => isTrue trivial
  | off, e :: es =>
    have := decidableLaid b (off + 17 + e.2.length) es
    inferInstanceAs (Decidable (RecAt b off e ∧ Laid b (off + 17 + e.2.length) es))

variable {b b' : Region} {off n len : ℕ} {e : Entry} {es xs ys : List Entry}

section

omit [Crc]

@[simp] theorem endOf_nil (off : ℕ) : endOf off [] = off := rfl

@[simp] theorem endOf_cons (off : ℕ) (e : Entry) (es : List Entry) :
    endOf off (e :: es) = endOf (off + 17 + e.2.length) es := rfl

theorem endOf_append (off : ℕ) (xs ys : List Entry) :
    endOf off (xs ++ ys) = endOf (endOf off xs) ys := by
  induction xs generalizing off with
  | nil => rfl
  | cons e xs ih => exact ih _

theorem add_length_le_endOf (off : ℕ) (es : List Entry) : off + 17 * es.length ≤ endOf off es := by
  induction es generalizing off with
  | nil => simp
  | cons e es ih =>
    have := ih (off + 17 + e.2.length)
    rw [endOf_cons, length_cons]
    omega

theorem le_endOf (off : ℕ) (es : List Entry) : off ≤ endOf off es := by
  have := add_length_le_endOf off es
  omega

theorem add_le_endOf (off : ℕ) (hne : es ≠ []) : off + 17 ≤ endOf off es := by
  have hpos : 0 < es.length := length_pos_iff.mpr hne
  have := add_length_le_endOf off es
  omega

end

@[simp] theorem laid_nil (b : Region) (off : ℕ) : Laid b off [] := trivial

@[simp] theorem laid_cons :
    Laid b off (e :: es) ↔ RecAt b off e ∧ Laid b (off + 17 + e.2.length) es := Iff.rfl

theorem laid_append : Laid b off (xs ++ ys) ↔ Laid b off xs ∧ Laid b (endOf off xs) ys := by
  induction xs generalizing off with
  | nil => simp
  | cons e xs ih => rw [cons_append, laid_cons, laid_cons, ih, endOf_cons, and_assoc]

theorem RecAt.congr (h : RecAt b off e) (hb : AgreeOn off (off + 16 + e.2.length) b b') :
    RecAt b' off e where
  id := (read_congr (hb.mono (by omega) (by omega))).symm.trans h.id
  crc := (read_congr (hb.mono (by omega) (by omega))).symm.trans h.crc
  len := (read_congr (hb.mono (by omega) (by omega))).symm.trans h.len
  data := (read_congr (hb.mono (by omega) (by omega))).symm.trans h.data

theorem Laid.congr (h : Laid b off es) (hb : AgreeOn off (endOf off es - 1) b b') :
    Laid b' off es := by
  induction es generalizing off with
  | nil => trivial
  | cons e es ih =>
    have hle := le_endOf (off + 17 + e.2.length) es
    rw [endOf_cons] at hb
    exact ⟨h.1.congr (hb.mono le_rfl (by omega)), ih h.2 (hb.mono (by omega) le_rfl)⟩

/-! ## Reading one record -/

/-- The record at `off`, if it fits into a file of `len` bytes and has data. -/
def parseRecord (b : Region) (len off : ℕ) : Option WalRecord :=
  if off + 16 > len then none
  else if ofBe (b.read (off + 12) 4) = 0 then none
  else if off + 16 + ofBe (b.read (off + 12) 4) > len then none
  else some {
    logId := ofBe (b.read off 8)
    crc := b.read (off + 8) 4
    data := b.read (off + 16) (ofBe (b.read (off + 12) 4)) }

/-- The file reads the inode `ino`. -/
structure WalFile.Readable (f : WalFile) (d : WalDisk) (ino : ℕ) : Prop where
  map : f.mmap.or f.mmapMut = some ino
  len : (d.inode ino).len = f.lenMax

structure WalFile.Writable (f : WalFile) (d : WalDisk) (ino : ℕ) : Prop
    extends f.Readable d ino where
  mmapMut : f.mmapMut = some ino

omit [Crc] in
theorem WalFile.Writable.of_mut {f : WalFile} {d : WalDisk} {ino : ℕ}
    (hm : f.mmapMut = some ino) (hmm : f.mmap = none) (hlen : (d.inode ino).len = f.lenMax) :
    f.Writable d ino :=
  ⟨⟨by rw [hmm, hm]; rfl, hlen⟩, hm⟩

theorem parseRecord_of_recAt (h : RecAt b off e) (hpos : 0 < e.2.length)
    (hfit : off + 16 + e.2.length ≤ len) (hlen : len < 2 ^ 32) :
    parseRecord b len off = some ⟨e.1 % 2 ^ 64, crcBytes e.2, e.2⟩ := by
  have hn : ofBe (b.read (off + 12) 4) = e.2.length := by
    rw [h.len, ofBe_toBe (by norm_num; omega)]
  have hid : ofBe (b.read off 8) = e.1 % 2 ^ 64 := by rw [h.id, ofBe_toBe_mod]; norm_num
  rw [parseRecord, hn, if_neg (by omega), if_neg (by omega), if_neg (by omega), h.crc, h.data, hid]

theorem parseRecord_of_entryOk (h : RecAt b off e) (hok : EntryOk e)
    (hfit : off + 16 + e.2.length ≤ len) (hlen : len < 2 ^ 32) :
    parseRecord b len off = some ⟨e.1, crcBytes e.2, e.2⟩ := by
  have hid := hok.id_lt
  rw [u64Max] at hid
  rw [parseRecord_of_recAt h hok.pos hfit hlen, Nat.mod_eq_of_lt (by omega)]

omit [Crc] in
theorem parseRecord_eq_some {r : WalRecord} (h : parseRecord b len off = some r) :
    0 < r.data.length ∧ off + 16 + r.data.length ≤ len ∧ r.logId < 2 ^ 64 ∧
      b.read off 8 = toBe 8 r.logId ∧ b.read (off + 8) 4 = r.crc ∧
      b.read (off + 12) 4 = toBe 4 r.data.length ∧ b.read (off + 16) r.data.length = r.data := by
  unfold parseRecord at h
  split_ifs at h with h1 h2 h3
  cases h
  have e1 : toBe 8 (ofBe (b.read off 8)) = b.read off 8 := by
    simpa using toBe_ofBe (b.read off 8)
  have e2 : toBe 4 (ofBe (b.read (off + 12) 4)) = b.read (off + 12) 4 := by
    simpa using toBe_ofBe (b.read (off + 12) 4)
  have e3 : ofBe (b.read off 8) < 2 ^ 64 := by
    have := ofBe_lt (b.read off 8)
    rw [length_read] at this
    norm_num at this ⊢
    exact this
  refine ⟨?_, ?_, e3, e1.symm, rfl, ?_, ?_⟩ <;> simp only [length_read]
  · omega
  · omega
  · exact e2.symm

theorem recAt_of_parseRecord {r : WalRecord} (h : parseRecord b len off = some r)
    (hcrc : r.crc = crcBytes r.data) : RecAt b off (r.logId, r.data) := by
  obtain ⟨-, -, -, h1, h2, h3, h4⟩ := parseRecord_eq_some h
  exact ⟨h1, h2.trans hcrc, h3, h4⟩

namespace WalFile

variable {f : WalFile} {d : WalDisk} {ino : ℕ}

variable {lo hi : ℕ}

section

variable (h : f.Readable d ino)
include h

section

omit [Crc]

theorem Readable.readBytes (hhi : hi ≤ f.lenMax) :
    f.readBytes d lo hi = .ok ((d.inode ino).bytes.read lo (hi - lo)) := by
  simp only [WalFile.readBytes, h.map]
  rw [if_pos (by rw [h.len]; exact hhi)]

theorem Readable.readRecord {r : WalRecord}
    (hr : parseRecord (d.inode ino).bytes f.lenMax off = some r) :
    f.readRecordUnchecked d off = .ok r := by
  unfold parseRecord at hr
  split_ifs at hr with h1 h2 h3
  cases hr
  simp only [readRecordUnchecked, h.readBytes (show off + 16 ≤ f.lenMax by omega),
    Nat.add_sub_cancel_left, drop_read _ _ (show 12 + 4 = 16 from rfl),
    drop_read _ _ (show 8 + 8 = 16 from rfl), take_read _ _ (show 8 ≤ 16 by norm_num)]
  rw [if_neg (by omega), if_neg h2, if_neg (by omega), h.readBytes (by omega),
    take_read _ _ (by norm_num)]
  simp

theorem Readable.readRecord_none (hr : parseRecord (d.inode ino).bytes f.lenMax off = none) :
    ∃ e, f.readRecordUnchecked d off = .error (.err e) := by
  by_cases h1 : off + 16 > f.lenMax
  · exact ⟨_, by rw [readRecordUnchecked, if_pos (by omega)]⟩
  · simp only [readRecordUnchecked, h.readBytes (show off + 16 ≤ f.lenMax by omega),
      Nat.add_sub_cancel_left, drop_read _ _ (show 12 + 4 = 16 from rfl)]
    rw [if_neg (by omega)]
    unfold parseRecord at hr
    split_ifs at hr with h2 h3
    · exact ⟨_, by rw [if_pos h2]⟩
    · exact ⟨_, by rw [if_neg h2, if_pos (by omega)]⟩

end

theorem Readable.readRecord_recAt (hr : RecAt (d.inode ino).bytes off e) (hok : EntryOk e)
    (hfit : off + 16 + e.2.length ≤ f.lenMax) (hlen : f.lenMax < 2 ^ 32) :
    f.readRecordUnchecked d off = .ok ⟨e.1, crcBytes e.2, e.2⟩ :=
  h.readRecord (parseRecord_of_entryOk hr hok hfit hlen)

theorem Readable.readLogsLoop_succ (hlen : f.lenMax < 2 ^ 32) {k idx off0 : ℕ} {data : Bytes}
    {memo : Option LogReadMemo} {buf : List Entry} (hr : RecAt (d.inode ino).bytes idx (k, data))
    (hok : EntryOk (k, data)) (hfit : idx + 16 + data.length ≤ f.lenMax)
    (hmore : hi ≤ k ∨ idx + 17 + data.length < 2 ^ 32) (fuel : ℕ) :
    f.readLogsLoop d lo hi (fuel + 1) idx off0 memo buf =
      if lo ≤ k ∧ hi < k then .ok (if k = lo then idx else off0, memo, buf)
      else if hi ≤ k then
        .ok (if k = lo then idx else off0,
          some ⟨f.walNo, f.idFrom, k, idx + 17 + data.length - 1⟩,
          if lo ≤ k then buf ++ [(k, data)] else buf)
      else
        f.readLogsLoop d lo hi fuel (idx + 17 + data.length) (if k = lo then idx else off0) memo
          (if lo ≤ k then buf ++ [(k, data)] else buf) := by
  have hread := h.readRecord_recAt hr hok hfit hlen
  have hnext : ¬ hi ≤ k → addU32 idx (8 + 4 + 4 + data.length + 1) = idx + 17 + data.length := by
    intro hk
    rw [addU32_of_lt (by omega)]; omega
  have hmemo : addU32 idx (8 + 4 + 4 + data.length) = idx + 17 + data.length - 1 := by
    rw [addU32_of_lt (by omega)]; omega
  simp only [readLogsLoop, hread, WalRecord.len, hmemo]
  split_ifs <;> simp_all

theorem Readable.readLogsLoop_laid (hlen : f.lenMax < 2 ^ 32) {k idx fuel off0 : ℕ}
    {memo : Option LogReadMemo} {buf : List Entry} (hl : Laid (d.inode ino).bytes idx es)
    (hn : NumFrom k es) (hok : ∀ e ∈ es, EntryOk e) (hend : endOf idx es ≤ f.lenMax + 1)
    (hfuel : es.length ≤ fuel) (hlo : lo ≤ hi) (hk : k ≤ hi) (hhi : hi < k + es.length) :
    f.readLogsLoop d lo hi fuel idx off0 memo buf = .ok
      (if k ≤ lo then endOf idx (truncate lo es) else off0,
        some ⟨f.walNo, f.idFrom, hi, endOf idx (truncate (hi + 1) es) - 1⟩,
        buf ++ purge lo (truncate (hi + 1) es)) := by
  induction es generalizing k idx fuel off0 buf with
  | nil => simp at hhi; omega
  | cons e es ih =>
    obtain ⟨id, data⟩ := e
    obtain ⟨rfl, hn'⟩ := numFrom_cons.mp hn
    obtain ⟨hrec, hl'⟩ := laid_cons.mp hl
    have hle := le_endOf (idx + 17 + data.length) es
    have hend' : endOf (idx + 17 + data.length) es ≤ f.lenMax + 1 := hend
    obtain ⟨fuel, rfl⟩ : ∃ n, fuel = n + 1 := ⟨fuel - 1, by simp at hfuel; omega⟩
    have ht : truncate (hi + 1) ((id, data) :: es) = (id, data) :: truncate (hi + 1) es :=
      filter_cons_of_pos (by simpa using Nat.lt_succ_of_le hk)
    have hmore : hi ≤ id ∨ idx + 17 + data.length < 2 ^ 32 := by
      rcases eq_or_ne es [] with rfl | hne
      · exact .inl (by simpa [Nat.lt_succ_iff] using hhi)
      · have := add_le_endOf (idx + 17 + data.length) hne
        exact .inr (by omega)
    rw [h.readLogsLoop_succ hlen hrec (hok _ (by simp)) (by omega) hmore,
      if_neg (by simp at hk; omega), ht]
    simp only at hk hn' hhi ⊢
    by_cases hlast : hi ≤ id
    · obtain rfl : hi = id := by omega
      have ht' : truncate (hi + 1) es = [] := truncate_eq_nil fun x hx => (hn'.mem_bounds hx).1
      have hp : purge lo [(hi, data)] = [(hi, data)] := purge_eq_self (by simpa using hlo)
      have ho : (if hi = lo then idx else off0) =
          if hi ≤ lo then endOf idx (truncate lo ((hi, data) :: es)) else off0 := by
        by_cases hc : hi = lo
        · rw [if_pos hc, if_pos hc.le, hn.truncate_eq, ← hc, Nat.sub_self, take_zero,
            endOf_nil]
        · rw [if_neg hc, if_neg (by omega)]
      rw [if_pos le_rfl, if_pos hlo, ht', hp, ho]
      rfl
    · rw [if_neg hlast, ih hl' hn' (fun x hx => hok x (by simp [hx])) hend'
        (by simpa using hfuel) (by omega) (by simp at hhi; omega), endOf_cons]
      by_cases hc : lo ≤ id
      · have hp : purge lo ((id, data) :: truncate (hi + 1) es) =
            (id, data) :: purge lo (truncate (hi + 1) es) :=
          filter_cons_of_pos (by simpa using hc)
        rw [if_pos hc, hp, append_assoc, singleton_append, if_neg (by omega)]
        by_cases hkl : id = lo
        · rw [if_pos hkl, if_pos hkl.le, hn.truncate_eq, ← hkl, Nat.sub_self, take_zero,
            endOf_nil]
        · rw [if_neg hkl, if_neg (by omega)]
      · have hp : purge lo ((id, data) :: truncate (hi + 1) es) = purge lo (truncate (hi + 1) es) :=
          filter_cons_of_neg (by simpa using hc)
        have ht' : truncate lo ((id, data) :: es) = (id, data) :: truncate lo es :=
          filter_cons_of_pos (by simpa using hc)
        rw [if_neg hc, hp, if_pos (by omega), if_pos (by omega), ht', endOf_cons]

end

end WalFile

/-! ## Headers that describe their file -/

@[mk_iff]
structure Vacant (h : Header) : Prop where
  start : h.dataStart = none
  stop : h.dataEnd = none
  ids : h.idUntil = h.idFrom
  lt : h.idFrom < 2 ^ 64

/-- The header describes the records `recs`, which start at `s`. The byte that separates a record
from the next one may lie behind the end of the file. -/
@[mk_iff]
structure Holds (b : Region) (len : ℕ) (h : Header) (s : ℕ) (recs : List Entry) : Prop where
  start : h.dataStart = some s
  stop : h.dataEnd = some (endOf s recs - 1)
  le_start : offsetLogs ≤ s
  fits : endOf s recs ≤ len + 1
  laid : Laid b s recs
  num : NumFrom h.idFrom recs
  ids : h.idUntil + 1 = h.idFrom + recs.length
  ok : ∀ e ∈ recs, EntryOk e

/-- The header of a file of `len` bytes describes exactly the records `recs`. -/
def Body (b : Region) (len : ℕ) (h : Header) (recs : List Entry) : Prop :=
  (recs = [] ∧ Vacant h) ∨ (recs ≠ [] ∧ ∃ s, Holds b len h s recs)

instance (h : Header) : Decidable (Vacant h) := decidable_of_iff' _ (vacant_iff h)

instance (b : Region) (len : ℕ) (h : Header) (s : ℕ) (recs : List Entry) :
    Decidable (Holds b len h s recs) := decidable_of_iff' _ (holds_iff ..)

instance (b : Region) (len : ℕ) (h : Header) (recs : List Entry) : Decidable (Body b len h recs) :=
  decidable_of_iff ((recs = [] ∧ Vacant h) ∨
      (recs ≠ [] ∧ Holds b len h (h.dataStart.getD 0) recs))
    (or_congr Iff.rfl (and_congr_right fun _ => ⟨fun hh => ⟨_, hh⟩, fun ⟨s, hs⟩ => by
      rw [hs.start, Option.getD_some]
      exact hs⟩))

section Body

variable {h : Header} {s : ℕ} {recs : List Entry}

theorem body_nil : Body b len h [] ↔ Vacant h := by simp [Body]

theorem body_of_ne_nil (hne : recs ≠ []) : Body b len h recs ↔ ∃ s, Holds b len h s recs := by
  simp [Body, hne]

section

variable (hh : Holds b len h s recs)
include hh

theorem Holds.idUntil_lt (hne : recs ≠ []) : h.idUntil < u64Max := by
  have hpos : 0 < recs.length := length_pos_iff.mpr hne
  have hids := hh.ids
  obtain ⟨xs, e, ys, rfl, he, -⟩ := hh.num.exists_split (j := h.idUntil) (by omega) (by omega)
  have := (hh.ok e (by simp)).id_lt
  omega

theorem Holds.congr (hb : AgreeOn s (endOf s recs - 1) b b') : Holds b' len h s recs :=
  { hh with laid := hh.laid.congr hb }

/-- A record that is not the first one starts inside of the file. -/
theorem Holds.endOf_take_lt {j : ℕ} (hj : j < recs.length) : endOf s (recs.take j) < len := by
  have h1 := hh.fits
  have h2 := add_le_endOf (endOf s (recs.take j)) (show recs.drop j ≠ [] by simpa using hj)
  rw [← endOf_append, take_append_drop] at h2
  omega

theorem Holds.drop {j : ℕ} (hj : j < recs.length) :
    Holds b len ⟨h.idFrom + j, h.idUntil, some (endOf s (recs.take j)), h.dataEnd⟩
      (endOf s (recs.take j)) (recs.drop j) := by
  have hend : endOf (endOf s (recs.take j)) (recs.drop j) = endOf s recs := by
    rw [← endOf_append, take_append_drop]
  have hlen : (recs.take j).length = j := length_take_of_le hj.le
  have hl := hh.laid
  have hn := hh.num
  rw [← take_append_drop j recs] at hl hn
  refine ⟨rfl, by rw [hend]; exact hh.stop, hh.le_start.trans (le_endOf _ _),
    by rw [hend]; exact hh.fits, (laid_append.mp hl).2, ?_, ?_,
    fun e he => hh.ok e (mem_of_mem_drop he)⟩
  · have := (numFrom_append.mp hn).2
    rwa [hlen] at this
  · have := hh.ids
    simp only [length_drop]
    omega

theorem Holds.take {j : ℕ} (hj : 0 < j) (hj' : j ≤ recs.length) :
    Holds b len ⟨h.idFrom, h.idFrom + j - 1, h.dataStart, some (endOf s (recs.take j) - 1)⟩ s
      (recs.take j) := by
  have hend : endOf s (recs.take j) ≤ endOf s recs := by
    have := le_endOf (endOf s (recs.take j)) (recs.drop j)
    rwa [← endOf_append, take_append_drop] at this
  have hl := hh.laid
  have hn := hh.num
  rw [← take_append_drop j recs] at hl hn
  refine ⟨hh.start, rfl, hh.le_start, hend.trans hh.fits, (laid_append.mp hl).1,
    (numFrom_append.mp hn).1, ?_, fun e he => hh.ok e (mem_of_mem_take he)⟩
  rw [length_take_of_le hj']
  simp only
  omega

theorem Holds.snoc {e : Entry} (he : EntryOk e) (hid : e.1 = h.idUntil + 1)
    (hfit : endOf s recs + 16 + e.2.length ≤ len) (hrec : RecAt b (endOf s recs) e) :
    Holds b len ⟨h.idFrom, e.1, some s, some (endOf s recs + 16 + e.2.length)⟩ s (recs ++ [e]) := by
  have hids := hh.ids
  refine ⟨rfl, ?_, hh.le_start, ?_, laid_append.mpr ⟨hh.laid, hrec, trivial⟩,
    numFrom_append.mpr ⟨hh.num, by simp only; omega, trivial⟩, ?_, fun x hx => ?_⟩
  · simp only [endOf_append, endOf_cons, endOf_nil, Option.some.injEq]
    omega
  · simp only [endOf_append, endOf_cons, endOf_nil]
    omega
  · simp only [length_append, length_singleton]
    omega
  · rcases mem_append.mp hx with hx | hx
    · exact hh.ok x hx
    · rw [mem_singleton.mp hx]
      exact he

end

theorem Holds.single {e : Entry} (he : EntryOk e) (hfit : offsetLogs + 16 + e.2.length ≤ len)
    (hrec : RecAt b offsetLogs e) :
    Holds b len ⟨e.1, e.1, some offsetLogs, some (offsetLogs + 16 + e.2.length)⟩ offsetLogs [e] :=
  ⟨rfl, by simp only [endOf_cons, endOf_nil, Option.some.injEq]; omega, le_rfl,
    by simp only [endOf_cons, endOf_nil]; omega, ⟨hrec, trivial⟩, ⟨rfl, trivial⟩, rfl,
    by simpa using he⟩

section

variable (hh : Body b len h recs)
include hh

theorem Body.congr (hb : AgreeOn offsetLogs len b b') : Body b' len h recs := by
  rcases hh with ⟨hn, hv⟩ | ⟨hne, s, hs⟩
  · exact .inl ⟨hn, hv⟩
  · exact .inr ⟨hne, s, hs.congr (hb.mono hs.le_start (Nat.sub_le_of_le_add hs.fits))⟩

theorem Body.headerFits (hlen : len < 2 ^ 32) : h.Fits := by
  rcases hh with ⟨-, hv⟩ | ⟨hne, s, hs⟩
  · exact ⟨hv.lt, by rw [hv.ids]; exact hv.lt, by simp [hv.start], by simp [hv.stop]⟩
  · have h1 := add_le_endOf s hne
    have h2 := hs.fits
    have h3 := hs.le_start
    have h4 := hs.idUntil_lt hne
    have h5 := hs.ids
    have h6 : 0 < recs.length := length_pos_iff.mpr hne
    rw [offsetLogs] at h3
    rw [u64Max] at h4
    refine ⟨by omega, by omega, fun x hx => ?_, fun x hx => ?_⟩
    · rw [hs.start] at hx
      cases hx
      omega
    · rw [hs.stop] at hx
      cases hx
      omega

theorem Body.idFrom_le : h.idFrom ≤ h.idUntil := by
  rcases hh with ⟨-, hv⟩ | ⟨hne, s, hs⟩
  · exact hv.ids.ge
  · have h1 := hs.ids
    have h2 : 0 < recs.length := length_pos_iff.mpr hne
    omega

theorem Body.num : NumFrom h.idFrom recs := by
  rcases hh with ⟨rfl, -⟩ | ⟨-, s, hs⟩
  · trivial
  · exact hs.num

theorem Body.ok : ∀ e ∈ recs, EntryOk e := by
  rcases hh with ⟨rfl, -⟩ | ⟨-, s, hs⟩
  · simp
  · exact hs.ok

end

end Body

variable {f : WalFile} {d : WalDisk} {ino : ℕ} {recs : List Entry}

theorem WalFile.Readable.readLogs_holds {s lo hi : ℕ} (h : f.Readable d ino)
    (hlen : f.lenMax < 2 ^ 32) (hh : Holds (d.inode ino).bytes f.lenMax f.toHeader s recs)
    (h1 : f.idFrom ≤ lo) (h2 : lo ≤ hi) (h3 : hi ≤ f.idUntil) :
    f.readLogs d lo hi none = .ok (endOf s (truncate lo recs),
      some ⟨f.walNo, f.idFrom, hi, endOf s (truncate (hi + 1) recs) - 1⟩,
      purge lo (truncate (hi + 1) recs)) := by
  have hfuel := add_length_le_endOf s recs
  have hfits := hh.fits
  have hids := hh.ids
  simp only [readLogs, hh.start, hh.stop, readStart]
  rw [if_neg (by omega), if_neg (by omega), if_neg (by omega),
    h.readLogsLoop_laid hlen hh.laid hh.num hh.ok hfits (by omega) h2 (by omega) (by omega),
    if_pos h1, nil_append]

/-! ## Walking over a file -/

/-- The records from `off` to `data_end`, taken as they lie. -/
def walk (b : Region) (dataEnd : ℕ) : ℕ → ℕ → List Entry
  | 0, _ => []
  | fuel + 1, off =>
    if dataEnd < off then []
    else
      let len := ofBe (b.read (off + 12) 4)
      (ofBe (b.read off 8), b.read (off + 16) len) :: walk b dataEnd fuel (off + 17 + len)

/-- The records of a file from `data_start` to `data_end`. -/
def WalFile.stored (f : WalFile) (d : WalDisk) : List Entry :=
  match f.dataStart, f.dataEnd, d.lookup f.walNo with
  | some s, some e, some ino => walk (d.inode ino).bytes e (f.lenMax + 1) s
  | _, _, _ => []

def WalFileSet.stored (s : WalFileSet) (d : WalDisk) : List Entry :=
  s.files.flatMap fun f => f.stored d

theorem walk_append {dataEnd fuel : ℕ} (hl : Laid b off es) (hid : ∀ e ∈ es, e.1 < 2 ^ 64)
    (hend : endOf off es ≤ dataEnd + 1) (hlen : dataEnd < 2 ^ 32) (hfuel : es.length ≤ fuel) :
    walk b dataEnd fuel off = es ++ walk b dataEnd (fuel - es.length) (endOf off es) := by
  induction es generalizing off fuel with
  | nil => simp
  | cons e es ih =>
    obtain ⟨id, data⟩ := e
    obtain ⟨hrec, hl'⟩ := laid_cons.mp hl
    have hle := le_endOf (off + 17 + data.length) es
    have hend' : endOf (off + 17 + data.length) es ≤ dataEnd + 1 := hend
    obtain ⟨fuel, rfl⟩ : ∃ n, fuel = n + 1 := ⟨fuel - 1, by simp at hfuel; omega⟩
    have hn : ofBe (b.read (off + 12) 4) = data.length := by
      rw [hrec.len, ofBe_toBe (by norm_num; omega)]
    have hid' : ofBe (b.read off 8) = id := by
      have := hid (id, data) (by simp)
      rw [hrec.id, ofBe_toBe (by norm_num at this ⊢; omega)]
    simp only [walk, hn, hid', hrec.data]
    rw [if_neg (by omega), ih hl' (fun x hx => hid x (by simp [hx])) hend' (by simpa using hfuel),
      length_cons, Nat.add_sub_add_right, endOf_cons, cons_append]

omit [Crc] in
theorem EntryOk.id_lt_pow (h : EntryOk e) : e.1 < 2 ^ 64 := by
  have := h.id_lt
  rw [u64Max] at this
  omega

theorem stored_of_laid {s : ℕ} (hlook : d.lookup f.walNo = some ino) (hlen : f.lenMax < 2 ^ 32 - 1)
    (hs : f.dataStart = some s) (he : f.dataEnd = some (endOf s recs - 1)) (hne : recs ≠ [])
    (hfit : endOf s recs ≤ f.lenMax + 1) (hl : Laid (d.inode ino).bytes s recs)
    (hid : ∀ e ∈ recs, e.1 < 2 ^ 64) : f.stored d = recs := by
  have h1 := add_le_endOf s hne
  have h2 := add_length_le_endOf s recs
  have h3 : 0 < recs.length := length_pos_iff.mpr hne
  simp only [WalFile.stored, hs, he, hlook]
  rw [walk_append hl hid (by omega) (by omega) (by omega)]
  obtain ⟨n, hn⟩ : ∃ n, f.lenMax + 1 - recs.length = n + 1 := ⟨f.lenMax - recs.length, by omega⟩
  rw [hn, walk, if_pos (by omega), append_nil]

theorem Body.stored (hlook : d.lookup f.walNo = some ino) (hlen : f.lenMax < 2 ^ 32 - 1)
    (hh : Body (d.inode ino).bytes f.lenMax f.toHeader recs) : f.stored d = recs := by
  rcases hh with ⟨rfl, hv⟩ | ⟨hne, s, hs⟩
  · rw [WalFile.stored, hv.start]
  · exact stored_of_laid hlook hlen hs.start hs.stop hne (by have := hs.fits; omega) hs.laid
      fun e he => (hs.ok e he).id_lt_pow

end Hiqlite.Wal
