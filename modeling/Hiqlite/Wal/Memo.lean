import Hiqlite.Wal.Single

/-!
# W24 — the memo of a reader

A reader remembers where the last record ended that it read, and starts its next read there if the
file and its first id are still the same.

* **`memo_keeps_results`**: as long as no truncation reaches behind the memo; `stale_memo_breaks_read`.
-/

namespace Hiqlite.Wal

open List Option WalFile WalFileSet

variable [Crc]

/-! ## One file under the writer -/

section

variable {f : WalFile} {d : WalDev} {b b' : Region} {recs : List Entry} {e : Entry} {ino s k : ℕ}

theorem Body.startOf (hb : Body b f.lenMax f.toHeader recs) :
    f.startOf = some ((f.dataEnd.map (· + 1)).getD offsetLogs) := by
  rcases hb with ⟨-, hv⟩ | ⟨-, s, hs⟩
  · simp [WalFile.startOf, hv.start, hv.stop]
  · simp [WalFile.startOf, hs.start, hs.stop]

theorem Body.grown (hb : Body b f.lenMax f.toHeader recs) (hlt : f.lenMax < 2 ^ 32)
    (hs : f.startOf = some s) (hroom : s + 16 + e.2.length ≤ f.lenMax) (he : EntryOk e)
    (hid : f.dataStart.isSome = true → e.1 = f.idUntil + 1) (hag : Region.AgreeOn offsetLogs s b b')
    (hrec : RecAt b' s e) : Body b' f.lenMax (f.grown s e).toHeader (recs ++ [e]) := by
  have hmod : (s + 16 + e.2.length) % 2 ^ 32 = s + 16 + e.2.length := Nat.mod_eq_of_lt (by omega)
  rw [hb.startOf] at hs
  have hs := some.inj hs
  refine (body_of_ne_nil (by simp)).mpr ?_
  rcases hb with ⟨rfl, hv⟩ | ⟨hne, s0, hh⟩
  · simp only [hv.stop, map_none, getD_none] at hs
    subst hs
    refine ⟨offsetLogs, ?_⟩
    simp only [grown, begun, hv.start, isNone_none, if_true, hmod,
      nil_append]
    exact .single he hroom hrec
  · have hlast := add_le_endOf s0 hne
    simp only [hh.stop, map_some, getD_some] at hs
    obtain rfl : s = endOf s0 recs := by omega
    refine ⟨s0, ?_⟩
    simp only [grown, begun, hh.start, isNone_some, Bool.false_eq_true,
      if_false, hmod]
    exact (hh.congr (hag.mono hh.le_start (Nat.sub_le _ _))).snoc he
      (hid (by simp [hh.start])) hroom hrec

omit [Crc] in
theorem openMmapMut_open (hm : f.mmapMut = some ino) : openMmapMut (f, d) = (.ok (), (f, d)) := by
  simp [openMmapMut, hm]

section

variable (hw : f.Writable d.disk ino) (hlt : f.lenMax < 2 ^ 32)
  (hb : Body (d.disk.inode ino).bytes f.lenMax f.toHeader recs)
include hw hlt hb

theorem truncateBack_body : (∃ x, truncateBack k (f, d) = (.error x, (f, d))) ∨
      ∃ h : Header, truncateBack k (f, d) = (.ok (), ({ f with toHeader := h }, d)) ∧
        Body (d.disk.inode ino).bytes f.lenMax h (truncate k recs) ∧ h.idFrom = f.idFrom ∧
        (truncate k recs ≠ [] → h.dataStart = f.dataStart) ∧ f.idFrom ≤ k := by
  have hnum := hb.num
  by_cases h1 : f.idFrom = k
  · right
    have hnil : truncate k recs = [] := truncate_eq_nil fun x hx => by
      have := (hnum.mem_bounds hx).1
      omega
    refine ⟨⟨f.idFrom, k, none, none⟩, ?_, ?_, rfl, fun h => absurd hnil h, h1.le⟩
    · simp [truncateBack, h1, modifyFile]
    · rw [hnil]
      exact body_nil.mpr ⟨rfl, rfl, h1.symm, (hb.headerFits hlt).idFrom⟩
  by_cases h2 : f.idUntil ≥ k
  swap
  · right
    have hself : truncate k recs = recs := truncate_eq_self fun x hx => by
      rcases hb with ⟨rfl, -⟩ | ⟨-, s, hs⟩
      · cases hx
      · have h3 := (hs.num.mem_bounds hx).2
        have h4 := hs.ids
        omega
    refine ⟨f.toHeader, ?_, by rw [hself]; exact hb, rfl, fun _ => rfl, ?_⟩
    · simp [truncateBack, h1, h2]
    · have := hb.idFrom_le
      omega
  have hrun : truncateBack k (f, d) = (do
      let r ← Exec.lift (f.readLogs d.disk k k none)
      modifyFile fun f =>
        { f with idUntil := k - 1, dataEnd := some (addU32 r.1 (2 ^ 32 - 1)) } : FileM Unit)
        (f, d) := by
    simp only [truncateBack, Exec.get_bind, if_neg h1, if_pos h2]
    rw [Exec.bind_ok (openMmapMut_open hw.mmapMut)]
    rfl
  rw [hrun]
  by_cases h3 : f.idFrom > k
  · left
    have herr : ∃ x, f.readLogs d.disk k k none = .error x := ⟨_, by rw [readLogs, if_pos h3]⟩
    obtain ⟨x, hx⟩ := herr
    exact ⟨x, by rw [hx]; rfl⟩
  · right
    rcases hb with ⟨-, hv⟩ | ⟨hne, s, hs⟩
    · have := hv.ids
      omega
    have hids := hs.ids
    have htake : truncate k recs = recs.take (k - f.idFrom) := hs.num.truncate_eq
    have ht := hs.take (show 0 < k - f.idFrom by omega) (by omega)
    have hne' : recs.take (k - f.idFrom) ≠ [] := by
      rw [ne_eq, take_eq_nil_iff]
      push Not
      exact ⟨by omega, hne⟩
    have hle := le_endOf s (recs.take (k - f.idFrom))
    have hstart := hs.le_start
    have hlast := hs.endOf_take_lt (show k - f.idFrom < recs.length by omega)
    rw [offsetLogs] at hstart
    have hend : addU32 (endOf s (recs.take (k - f.idFrom))) (2 ^ 32 - 1) =
        endOf s (recs.take (k - f.idFrom)) - 1 := addU32_pred (by omega) (by omega)
    have hidk : f.idFrom + (k - f.idFrom) - 1 = k - 1 := by omega
    rw [hidk] at ht
    refine ⟨⟨f.idFrom, k - 1, f.dataStart, some (endOf s (recs.take (k - f.idFrom)) - 1)⟩, ?_, ?_,
      rfl, fun _ => rfl, by omega⟩
    · rw [hw.readLogs_holds hlt hs (by omega) le_rfl h2, Exec.lift_ok, Exec.pure_bind, htake]
      simp only [modifyFile, hend]
      rfl
    · rw [htake]
      exact (body_of_ne_nil hne').mpr ⟨s, ht⟩

theorem purgeFront_body : (∃ x, purgeFront k (f, d) = (.error x, (f, d))) ∨
    purgeFront k (f, d) = (.ok (), (f, d)) ∧ purge k recs = recs ∨
      ∃ h : Header, purgeFront k (f, d) = (.ok (), ({ f with toHeader := h }, d)) ∧
        Body (d.disk.inode ino).bytes f.lenMax h (purge k recs) ∧ f.idFrom < h.idFrom := by
  by_cases h1 : f.idFrom < k ∧ f.dataEnd.isSome = true
  swap
  · right; left
    refine ⟨by simp [purgeFront, h1], ?_⟩
    rcases hb with ⟨rfl, -⟩ | ⟨-, s, hs⟩
    · rfl
    · refine purge_eq_self fun x hx => ?_
      have h2 : ¬ f.idFrom < k := fun h => h1 ⟨h, by simp [hs.stop]⟩
      have := (hs.num.mem_bounds hx).1
      omega
  have hrun : purgeFront k (f, d) = (do
      let r ← Exec.lift (f.readLogs d.disk k k none)
      modifyFile fun f => { f with idFrom := k, dataStart := some r.1 } : FileM Unit)
        (f, d) := by
    simp only [purgeFront, Exec.get_bind, if_pos h1]
    rw [Exec.bind_ok (openMmapMut_open hw.mmapMut)]
    rfl
  rw [hrun]
  by_cases h2 : f.idUntil < k
  · left
    have herr : ∃ x, f.readLogs d.disk k k none = .error x :=
      ⟨_, by rw [readLogs, if_neg (by omega), if_pos h2]⟩
    obtain ⟨x, hx⟩ := herr
    exact ⟨x, by rw [hx]; rfl⟩
  · right; right
    rcases hb with ⟨-, hv⟩ | ⟨hne, s, hs⟩
    · rw [hv.stop] at h1
      cases h1.2
    have hids := hs.ids
    have hd := hs.drop (show k - f.idFrom < recs.length by omega)
    rw [Nat.add_sub_cancel' h1.1.le] at hd
    have hne' : recs.drop (k - f.idFrom) ≠ [] := by
      rw [ne_eq, drop_eq_nil_iff]
      omega
    have htake : truncate k recs = recs.take (k - f.idFrom) := hs.num.truncate_eq
    have hdrop : purge k recs = recs.drop (k - f.idFrom) := hs.num.purge_eq
    refine ⟨⟨k, f.idUntil, some (endOf s (recs.take (k - f.idFrom))), f.dataEnd⟩, ?_, ?_, h1.1⟩
    · rw [hw.readLogs_holds hlt hs h1.1.le le_rfl (by omega), Exec.lift_ok, Exec.pure_bind, htake]
      rfl
    · rw [hdrop]
      exact (body_of_ne_nil hne').mpr ⟨_, hd⟩

end

end

/-! ## A memo that is right -/

/-- The memo is of another file, or points behind a record of the file. -/
def Recalls (m : LogReadMemo) (f : WalFile) (recs : List Entry) : Prop :=
  m.lastWalNo = f.walNo → m.idFrom ≤ f.idFrom ∧ (m.idFrom = f.idFrom →
    f.idFrom ≤ m.lastLogId ∧ m.lastLogId < f.idFrom + recs.length ∧
      ∀ s, f.dataStart = some s → m.dataEnd + 1 = endOf s (truncate (m.lastLogId + 1) recs))

theorem Recalls.readLogs {f : WalFile} {d : WalDisk} {ino s lo hi : ℕ} {recs : List Entry}
    {memo : Option LogReadMemo} (h : f.Readable d ino) (hlen : f.lenMax < 2 ^ 32)
    (hh : Holds (d.inode ino).bytes f.lenMax f.toHeader s recs) (hm : ∀ m ∈ memo, Recalls m f recs)
    (h1 : f.idFrom ≤ lo) (h2 : lo ≤ hi) (h3 : hi ≤ f.idUntil) :
    f.readLogs d lo hi memo = f.readLogs d lo hi none := by
  cases memo with
  | none => rfl
  | some m =>
    rw [h.readLogs_holds hlen hh h1 h2 h3]
    simp only [WalFile.readLogs, hh.start, hh.stop, WalFile.readStart]
    rw [if_neg (by omega), if_neg (by omega), if_neg (by omega)]
    have hfuel := add_length_le_endOf s recs
    have hfits := hh.fits
    have hids := hh.ids
    by_cases hc : m.lastWalNo = f.walNo ∧ m.idFrom = f.idFrom ∧ m.lastLogId < lo
    swap
    · rw [if_neg hc, h.readLogsLoop_laid hlen hh.laid hh.num hh.ok hfits (by omega) h2 (by omega)
        (by omega), if_pos h1, nil_append]
    rw [if_pos hc]
    obtain ⟨hw, hf, hl⟩ := hc
    obtain ⟨h4, h5, hend⟩ := (hm m rfl hw).2 hf
    have hend := hend s hh.start
    -- the memo splits the records
    set j := m.lastLogId + 1 with hj
    have hsplit : truncate j recs ++ purge j recs = recs := hh.num.truncate_append_purge
    have hlaid := hh.laid
    rw [← hsplit] at hlaid
    have hall : endOf (endOf s (truncate j recs)) (purge j recs) = endOf s recs := by
      rw [← endOf_append, hsplit]
    have hnum : NumFrom j (purge j recs) := hh.num.numFrom_purge (by omega) (by omega)
    have hcount : (purge j recs).length + (j - f.idFrom) = recs.length := by
      rw [hh.num.purge_eq, length_drop]
      omega
    have hle := add_le_endOf (endOf s (truncate j recs))
      (show purge j recs ≠ [] from ne_nil_of_length_pos (by omega))
    have hidx : addU32 m.dataEnd 1 = endOf s (truncate j recs) := by
      rw [addU32_of_lt (by omega), hend]
    have hbelow : purge lo (truncate (hi + 1) (truncate j recs)) = [] :=
      purge_eq_nil fun x hx => by
        have := (mem_truncate.mp (mem_truncate.mp hx).1).2
        omega
    have hrange : purge lo (truncate (hi + 1) recs) =
        purge lo (truncate (hi + 1) (purge j recs)) := by
      conv_lhs => rw [← hsplit, truncate_append, purge_append, hbelow, nil_append]
    rw [hidx, h.readLogsLoop_laid hlen (laid_append.mp hlaid).2 hnum
      (fun x hx => hh.ok x (mem_purge.mp hx).1) (by omega) (by omega) h2 (by omega) (by omega),
      if_pos (by omega), ← endOf_append, ← endOf_append, hh.num.truncate_split_at (by omega),
      hh.num.truncate_split_at (by omega), nil_append, hrange]

/-! ## One reader and one writer -/

structure Reading where
  file : WalFile
  dev : WalDev
  memo : Option LogReadMemo
  recs : List Entry

inductive ReadingOp
  | append (e : Entry)
  | purge (idUntil : ℕ)
  | truncate (idFrom : ℕ)
  | read (lo hi : ℕ)

namespace Reading

/-- The file as the reader has it: the same fields, and a read mapping. -/
def copy (s : Reading) : WalFile := { s.file with mmap := s.file.mmapMut, mmapMut := none }

/-- The writer changes the file, which should hold `recs` then. -/
def write (s : Reading) (x : FileM Unit) (recs : List Entry) : Reading :=
  { s with
    file := (x (s.file, s.dev)).2.1
    dev := (x (s.file, s.dev)).2.2
    recs := match (x (s.file, s.dev)).1 with
      | .ok _ => recs
      | .error _ => s.recs }

def act (s : Reading) : ReadingOp → Reading
  | .append e => s.write (appendLog e.1 e.2) (s.recs ++ [e])
  | .purge k => s.write (purgeFront k) (Hiqlite.purge k s.recs)
  | .truncate k => s.write (truncateBack k) (Hiqlite.truncate k s.recs)
  | .read lo hi =>
    match s.copy.readLogs s.dev.disk lo hi s.memo with
    | .ok (_, memo, _) => { s with memo }
    | .error _ => s

/-- Before an append there is space, and the id continues the log. -/
def Legal (s : Reading) : ReadingOp → Prop
  | .append e => s.file.hasSpace e.2.length = true ∧
      (s.file.dataStart.isSome = true → e.1 = s.file.idUntil + 1) ∧ s.file.idFrom ≤ e.1
  | _ => True

/-- An entry has data, and no truncation reaches a record at or before the one that the reader
remembers of this file. -/
def Steady (s : Reading) : ReadingOp → Prop
  | .append e => EntryOk e
  | .truncate k => ∀ m ∈ s.memo, m.lastWalNo = s.file.walNo → m.idFrom = s.file.idFrom →
      m.lastLogId < k
  | _ => True

/-- The header describes the records and the memo is right. -/
structure Ok (ino : ℕ) (s : Reading) : Prop where
  body : Body (s.dev.disk.inode ino).bytes s.file.lenMax s.file.toHeader s.recs
  map : s.file.mmapMut = some ino
  unread : s.file.mmap = none
  len : (s.dev.disk.inode ino).len = s.file.lenMax
  lt : s.file.lenMax < 2 ^ 32
  memo : ∀ m ∈ s.memo, Recalls m s.file s.recs

variable {s s' : Reading} {ino : ℕ} {op : ReadingOp}

theorem Ok.readable (h : s.Ok ino) : s.copy.Readable s.dev.disk ino :=
  ⟨by rw [copy, h.map]; rfl, h.len⟩

theorem Ok.readLogs (h : s.Ok ino) {lo hi : ℕ} (h1 : s.file.idFrom ≤ lo) (h2 : lo ≤ hi)
    (h3 : hi ≤ s.file.idUntil) :
    s.copy.readLogs s.dev.disk lo hi s.memo = s.copy.readLogs s.dev.disk lo hi none ∧
      (s.recs ≠ [] → ∃ x, s.file.dataStart = some x ∧ s.copy.readLogs s.dev.disk lo hi none = .ok
        (endOf x (truncate lo s.recs),
          some ⟨s.file.walNo, s.file.idFrom, hi, endOf x (truncate (hi + 1) s.recs) - 1⟩,
          purge lo (truncate (hi + 1) s.recs))) := by
  rcases h.body with ⟨hnil, hv⟩ | ⟨-, x, hx⟩
  · refine ⟨?_, fun hne => absurd hnil hne⟩
    have hnone : s.copy.dataStart = none := hv.start
    simp [WalFile.readLogs, hnone]
  · have hx' : Holds (s.dev.disk.inode ino).bytes s.copy.lenMax s.copy.toHeader x s.recs := hx
    exact ⟨Recalls.readLogs h.readable h.lt hx' h.memo h1 h2 h3,
      fun _ => ⟨x, hx.start, h.readable.readLogs_holds h.lt hx' h1 h2 h3⟩⟩

theorem readLogs_ok_bounds {f : WalFile} {d : WalDisk} {lo hi : ℕ} {memo : Option LogReadMemo}
    {r : ℕ × Option LogReadMemo × List Entry} (h : f.readLogs d lo hi memo = .ok r) :
    f.idFrom ≤ lo ∧ lo ≤ hi ∧ hi ≤ f.idUntil ∧ f.dataStart.isSome = true := by
  unfold readLogs at h
  split_ifs at h with h1 h2 h3
  refine ⟨by omega, by omega, by omega, ?_⟩
  cases hs : f.dataStart with
  | none => simp [hs] at h
  | some x => rfl

theorem Ok.read (h : s.Ok ino) (lo hi : ℕ) : (s.act (.read lo hi)).Ok ino := by
  rw [act]
  cases hr : s.copy.readLogs s.dev.disk lo hi s.memo with
  | error x => exact h
  | ok r =>
    obtain ⟨h1, h2, h3, hsome⟩ := readLogs_ok_bounds hr
    obtain ⟨heq, hok⟩ := h.readLogs h1 h2 h3
    rcases h.body with ⟨-, hv⟩ | ⟨hne, x, hx⟩
    · have hnone : s.copy.dataStart = none := hv.start
      simp [hnone] at hsome
    · obtain ⟨y, hy, hread⟩ := hok hne
      rw [heq, hread] at hr
      cases hr
      refine { h with memo := fun m hm _ => ?_ }
      cases hm
      have hids := hx.ids
      have h3' : hi ≤ s.file.idUntil := h3
      have h1' : s.file.idFrom ≤ lo := h1
      refine ⟨le_rfl, fun _ => ⟨h1'.trans h2, by simp only; omega, fun z hz => ?_⟩⟩
      rw [hy] at hz
      cases hz
      have hle := le_endOf y (truncate (hi + 1) s.recs)
      have hst := hx.le_start
      rw [hx.start] at hy
      cases hy
      rw [offsetLogs] at hst
      simp only
      omega

theorem Ok.append {e : Entry} (h : s.Ok ino) (hl : s.Legal (.append e)) (he : EntryOk e) :
    (s.act (.append e)).Ok ino := by
  obtain ⟨hspace, hnext, hfrom⟩ := hl
  have hstart := h.body.startOf
  set x := (s.file.dataEnd.map (· + 1)).getD offsetLogs with hx
  have hroom : x + 16 + e.2.length ≤ s.file.lenMax := by
    rw [hasSpace, decide_eq_true_iff] at hspace
    cases hd : s.file.dataEnd <;> simp only [hd, map_none, map_some, getD_none,
      getD_some] at hx hspace <;> omega
  have hle : offsetLogs ≤ x := by
    rcases h.body with ⟨-, hv⟩ | ⟨hne, y, hy⟩
    · rw [hx, hv.stop]
      exact le_rfl
    · have h1 := hy.le_start
      have h2 := add_le_endOf y hne
      rw [hx, hy.stop]
      simp only [map_some, getD_some]
      omega
  have hrun := appendLog_fits (e := e) h.map h.len hstart (by omega)
  obtain ⟨hrec, hag⟩ :
      RecAt ((s.file.appended ino x e s.dev).disk.inode ino).bytes x e ∧ _ :=
    appended_bytes hle
  have hgrown : (s.file.grown x e).lenMax = s.file.lenMax := by
    rw [grown, begun_lenMax]
  rw [act, write, hrun]
  refine ⟨?_, ?_, ?_, ?_, ?_, fun m hm hw => ?_⟩
  · rw [hgrown]
    exact h.body.grown h.lt hstart hroom he hnext hag hrec
  · rw [grown, begun_mmapMut, h.map]
  · simp only [grown, begun]
    split_ifs <;> exact h.unread
  · rw [appended_len, h.len, hgrown]
  · rw [hgrown]
    exact h.lt
  · have hwal : m.lastWalNo = s.file.walNo := by
      simp only [grown, begun] at hw
      split_ifs at hw <;> exact hw
    obtain ⟨hfirst, hright⟩ := h.memo m hm hwal
    rcases h.body with ⟨hnil, hv⟩ | ⟨hne, y, hy⟩
    · -- no memo is of an empty file
      have hid : (s.file.grown x e).idFrom = e.1 := by simp [grown, begun, hv.start]
      rw [hid]
      refine ⟨hfirst.trans hfrom, fun heq => ?_⟩
      have hsame : m.idFrom = s.file.idFrom := by omega
      obtain ⟨h1, h2, -⟩ := hright hsame
      rw [hnil, length_nil] at h2
      omega
    · have hid : (s.file.grown x e).idFrom = s.file.idFrom := by
        simp [grown, begun, hy.start]
      have hds : (s.file.grown x e).dataStart = s.file.dataStart := by
        simp [grown, begun, hy.start]
      rw [hid, hds]
      refine ⟨hfirst, fun heq => ?_⟩
      obtain ⟨h1, h2, h3⟩ := hright heq
      refine ⟨h1, by simp only [length_append]; omega, fun z hz => ?_⟩
      have hids := hy.ids
      have hnew := hnext (by simp [hy.start])
      have hlast : truncate (m.lastLogId + 1) [e] = [] := truncate_eq_nil fun z hz => by
        rw [mem_singleton.mp hz]
        omega
      rw [truncate_append, hlast, append_nil]
      exact h3 z hz

theorem Ok.purge (h : s.Ok ino) (k : ℕ) : (s.act (.purge k)).Ok ino := by
  rw [act, write]
  rcases purgeFront_body (k := k) (.of_mut h.map h.unread h.len) h.lt h.body with
    ⟨x, hx⟩ | ⟨hx, hp⟩ | ⟨hd, hx, hb, hlt⟩
  · rw [hx]
    exact h
  · rw [hx, hp]
    exact h
  · rw [hx]
    refine ⟨hb, h.map, h.unread, h.len, h.lt, fun m hm hw => ?_⟩
    have := (h.memo m hm hw).1
    exact ⟨by simp only; omega, fun heq => by simp only at heq; omega⟩

theorem Ok.truncate {k : ℕ} (h : s.Ok ino) (hk : s.Steady (.truncate k)) :
    (s.act (.truncate k)).Ok ino := by
  rw [act, write]
  rcases truncateBack_body (k := k) (.of_mut h.map h.unread h.len) h.lt h.body with
    ⟨x, hx⟩ | ⟨hd, hx, hb, hfrom, hds, -⟩
  · rw [hx]
    exact h
  · rw [hx]
    refine ⟨hb, h.map, h.unread, h.len, h.lt, fun m hm hw => ?_⟩
    obtain ⟨hfirst, hright⟩ := h.memo m hm hw
    simp only [hfrom]
    refine ⟨hfirst, fun heq => ?_⟩
    obtain ⟨h1, h2, h3⟩ := hright heq
    have hbefore := hk m hm hw heq
    have htake : Hiqlite.truncate k s.recs = s.recs.take (k - s.file.idFrom) :=
      h.body.num.truncate_eq
    have hcount : m.lastLogId < s.file.idFrom + (Hiqlite.truncate k s.recs).length := by
      rw [htake, length_take]
      omega
    refine ⟨h1, hcount, fun z hz => ?_⟩
    have hne : Hiqlite.truncate k s.recs ≠ [] := fun hnil => by
      rw [hnil, length_nil] at hcount
      omega
    have hcut : Hiqlite.truncate (m.lastLogId + 1) (Hiqlite.truncate k s.recs) =
        Hiqlite.truncate (m.lastLogId + 1) s.recs := by
      rw [Hiqlite.truncate, Hiqlite.truncate, Hiqlite.truncate, List.filter_filter]
      refine List.filter_congr fun e _ => ?_
      simp only [Bool.and_eq_left_iff_imp, decide_eq_true_eq]
      omega
    rw [hcut]
    exact h3 z (by rw [← hds hne]; exact hz)

theorem Ok.act (h : s.Ok ino) (hl : s.Legal op) (hs : s.Steady op) : (s.act op).Ok ino := by
  cases op with
  | append e => exact h.append hl hs
  | purge k => exact h.purge k
  | truncate k => exact h.truncate hs
  | read lo hi => exact h.read lo hi

end Reading

/-- **The memo never changes a result** of a run in which no truncation reaches behind the record
that the reader remembers: a read returns what it returns without a memo, and if the file is not
empty these are the entries of the range. -/
theorem memo_keeps_results {ino : ℕ} {s0 s : Reading} {ops : List ReadingOp} (h0 : s0.Ok ino)
    (h : Path (fun s op s' => s' = s.act op ∧ s.Legal op ∧ s.Steady op) s0 ops s) {lo hi : ℕ}
    (h1 : s.file.idFrom ≤ lo) (h2 : lo ≤ hi) (h3 : hi ≤ s.file.idUntil) :
    s.copy.readLogs s.dev.disk lo hi s.memo = s.copy.readLogs s.dev.disk lo hi none ∧
      (s.recs ≠ [] → ∃ offset memo, s.copy.readLogs s.dev.disk lo hi none =
        .ok (offset, memo, s.recs.filter fun e => lo ≤ e.1 ∧ e.1 ≤ hi)) := by
  have hs : s.Ok ino := by
    refine h.invariant (I := fun _ s => s.Ok ino) h0 ?_
    rintro l t op u ht ⟨rfl, hl, hst⟩
    exact ht.act hl hst
  obtain ⟨heq, hok⟩ := hs.readLogs h1 h2 h3
  refine ⟨heq, fun hne => ?_⟩
  obtain ⟨x, -, hread⟩ := hok hne
  have hrange : purge lo (truncate (hi + 1) s.recs) =
      s.recs.filter fun e => lo ≤ e.1 ∧ e.1 ≤ hi := by
    rw [purge, truncate, List.filter_filter]
    refine List.filter_congr fun e _ => ?_
    rw [Bool.eq_iff_iff]
    simp only [Bool.and_eq_true, decide_eq_true_eq]
    omega
  exact ⟨_, _, by rw [hread, hrange]⟩

def newReading : Reading := ⟨blank, blankDev, none, []⟩

theorem newReading_ok : newReading.Ok 0 where
  body := body_nil.mpr ⟨rfl, rfl, rfl, by decide⟩
  map := rfl
  unread := rfl
  len := rfl
  lt := by decide
  memo := nofun

omit [Crc] in
/-- A memo that is used. -/
theorem memo_keeps_results_two : let := cksum
    ∃ s, Path (fun s op s' => s' = s.act op ∧ s.Legal op ∧ s.Steady op) newReading
        [.append (1, [7]), .append (2, [8]), .read 1 1] s ∧
      s.memo = some ⟨1, 1, 1, 49⟩ ∧
      s.copy.readLogs s.dev.disk 2 2 s.memo = s.copy.readLogs s.dev.disk 2 2 none := by
  intro _
  have hrun : Path (fun s op s' => s' = s.act op ∧ s.Legal op ∧ s.Steady op) newReading
      [.append (1, [7]), .append (2, [8]), .read 1 1] _ :=
    ((Path.nil.snoc ⟨rfl, ⟨by decide +kernel, fun h => by revert h; decide +kernel,
      by decide +kernel⟩, by decide, by decide⟩).snoc ⟨rfl, ⟨by decide +kernel, fun _ => by decide +kernel,
        by decide +kernel⟩, by decide, by decide⟩).snoc ⟨rfl, trivial, trivial⟩
  exact ⟨_, hrun, by decide +kernel, (memo_keeps_results newReading_ok hrun (by decide +kernel)
    le_rfl (by decide +kernel)).1⟩

/-- The reader has read the second record, which is truncated and replaced by a longer one. -/
def replacedRecord : List ReadingOp :=
  [.append (1, [7]), .append (2, [7]), .read 1 2, .truncate 2, .append (2, [7, 7, 7]),
    .append (3, [9])]

omit [Crc] in
/-- **A memo that has become stale**: the read starts inside of the second record and fails, while
the entry is there. -/
theorem stale_memo_breaks_read : let := cksum
    ∃ s, Path (fun s op s' => s' = s.act op ∧ s.Legal op) newReading replacedRecord s ∧
      s.file.idFrom = 1 ∧ s.file.idUntil = 3 ∧
      s.copy.readLogs s.dev.disk 3 3 s.memo =
        .error (.err (.integrity "WAL record data at offset 68 does not fit into file")) ∧
      s.copy.readLogs s.dev.disk 3 3 none = .ok (70, some ⟨1, 1, 3, 87⟩, [(3, [9])]) := by
  intro _
  have hrun : Path (fun s op s' => s' = s.act op ∧ s.Legal op) newReading replacedRecord _ :=
    (((((Path.nil.snoc ⟨rfl, by decide +kernel, fun h => by revert h; decide +kernel,
      by decide +kernel⟩).snoc ⟨rfl, by decide +kernel, fun _ => by decide +kernel,
      by decide +kernel⟩).snoc ⟨rfl, trivial⟩).snoc ⟨rfl, trivial⟩).snoc ⟨rfl, by decide +kernel,
      fun _ => by decide +kernel, by decide +kernel⟩).snoc ⟨rfl, by decide +kernel,
      fun _ => by decide +kernel, by decide +kernel⟩
  exact ⟨_, hrun, by decide +kernel, by decide +kernel, by decide +kernel, by decide +kernel⟩

end Hiqlite.Wal
