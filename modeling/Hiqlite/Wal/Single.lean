import Hiqlite.Wal.FileSpec

/-!
# W23 — one file by itself

What `append_log` does to a file of any content and for an entry of any length.

* **`wp_appendLog_any`**: all ways in which an append ends;
* **`append_size_iff`**: which entries fit into an empty file, and what a failed append leaves;
  `limit_entry_fails`.
-/

namespace Hiqlite.Wal

open List Option Exec Region

variable [Crc]

/-! ## The bytes of a record -/

def recordAt (b : Region) (s : ℕ) (e : Entry) : Region :=
  (((b.write (s + 8) (crcBytes e.2)).write (s + 12) (toBe 4 e.2.length)).write (s + 16) e.2).write s
    (toBe 8 e.1)

theorem recordAt_agree (b : Region) (s : ℕ) (e : Entry) : AgreeOn 0 s b (recordAt b s e) := by
  unfold recordAt
  refine AgreeOn.trans ?_ (agreeOn_write (.inl le_rfl)).symm
  refine AgreeOn.trans ?_ (agreeOn_write (.inl (by omega))).symm
  refine AgreeOn.trans ?_ (agreeOn_write (.inl (by omega))).symm
  exact (agreeOn_write (.inl (by omega))).symm

theorem recAt_recordAt (b : Region) (s : ℕ) (e : Entry) : RecAt (recordAt b s e) s e := by
  have h1 := length_toBe 8 e.1
  have h2 := length_toBe 4 e.2.length
  have h3 := length_crcBytes e.2
  unfold recordAt
  refine ⟨read_write_of_length h1, ?_, ?_, ?_⟩
  · rw [read_write_of_disjoint (.inr (by omega)),
      read_write_of_disjoint (.inl (by omega)),
      read_write_of_disjoint (.inl (by omega)), read_write_of_length h3]
  · rw [read_write_of_disjoint (.inr (by omega)),
      read_write_of_disjoint (.inl (by omega)), read_write_of_length h2]
  · rw [read_write_of_disjoint (.inr (by omega)), read_write_of_length rfl]

namespace WalFile

/-! ## Appending to any file -/

def startOf (f : WalFile) : Option ℕ :=
  if f.dataStart.isNone then some offsetLogs else f.dataEnd.map (· + 1)

def begun (f : WalFile) (id : ℕ) : WalFile :=
  if f.dataStart.isNone then { f with idFrom := id, dataStart := some offsetLogs } else f

def grown (f : WalFile) (s : ℕ) (e : Entry) : WalFile :=
  { f.begun e.1 with idUntil := e.1, dataEnd := some ((s + 16 + e.2.length) % 2 ^ 32) }

def appended (f : WalFile) (ino s : ℕ) (e : Entry) (d : WalDev) : WalDev :=
  let d1 := (((d.emit (.write ino .crc (s + 8) (crcBytes e.2))).emit
    (.write ino .len (s + 12) (toBe 4 e.2.length))).emit (.write ino .data (s + 16) e.2)).emit
    (.write ino .id s (toBe 8 e.1))
  if f.dataStart.isNone then d1.emit (.write ino .header 0 (buildHeader (f.grown s e).toHeader))
  else d1

def cutOff (f : WalFile) (ino s : ℕ) (e : Entry) (d : WalDev) : WalDev :=
  ((d.emit (.write ino .crc (s + 8) (crcBytes e.2))).emit
    (.write ino .len (s + 12) (toBe 4 e.2.length))).emit
    (.write ino .data (s + 16) (e.2.take (f.lenMax - (s + 16))))

variable {f : WalFile} {d : WalDev} {ino : ℕ} {e : Entry} {Q : Unit → WalFile × WalDev → Prop}
  {E : Stop → WalFile × WalDev → Prop}

section

omit [Crc]

@[simp] theorem begun_lenMax (f : WalFile) (id : ℕ) : (f.begun id).lenMax = f.lenMax := by
  unfold begun
  split <;> rfl

@[simp] theorem begun_mmapMut (f : WalFile) (id : ℕ) : (f.begun id).mmapMut = f.mmapMut := by
  unfold begun
  split <;> rfl

theorem wp_writeSlice_any {kind : WriteKind} {lo hi : ℕ} {bs : Bytes} (hm : f.mmapMut = some ino) :
    wp (writeSlice kind lo hi bs) Q E (f, d) ↔
      if hi < lo ∨ (d.disk.inode ino).len < hi then E (.panic .sliceIndex) (f, d)
      else if hi - lo < bs.length then
        E (.err (.io .writeZero)) (f, d.emit (.write ino kind lo (bs.take (hi - lo))))
      else Q () (f, d.emit (.write ino kind lo (bs.take (hi - lo)))) := by
  simp only [writeSlice, wp_bind, wp_get, hm, unwrap_some, wp_pure, wp_ite,
    wp_stop, wp_modify]

end

def writeRecord (s : ℕ) (e : Entry) : FileM Unit := do
  writeSlice .crc (s + 8) (s + 8 + 8) (crcBytes e.2)
  writeSlice .len (s + 8 + 4) (s + 8 + 4 + 4) (toBe 4 e.2.length)
  writeTail .data (s + 8 + 4 + 4) e.2
  writeSlice .id s (s + 8) (toBe 8 e.1)

variable {s : ℕ}

section

variable (hm : f.mmapMut = some ino)
include hm

theorem wp_writeRecord {n : ℕ} (hlen : (d.disk.inode ino).len = n) :
    wp (writeRecord s e) Q E (f, d) ↔
      if n < s + 16 then E (.panic .sliceIndex) (f, d)
      else if n < s + 16 + e.2.length then
        E (.err (.io .writeZero)) (f, ((d.emit (.write ino .crc (s + 8) (crcBytes e.2))).emit
          (.write ino .len (s + 12) (toBe 4 e.2.length))).emit
          (.write ino .data (s + 16) (e.2.take (n - (s + 16)))))
      else Q () (f, (((d.emit (.write ino .crc (s + 8) (crcBytes e.2))).emit
        (.write ino .len (s + 12) (toBe 4 e.2.length))).emit (.write ino .data (s + 16) e.2)).emit
        (.write ino .id s (toBe 8 e.1))) := by
  have h1 := length_toBe 8 e.1
  have h2 := length_toBe 4 e.2.length
  have h3 := length_crcBytes e.2
  rw [writeRecord, wp_bind, wp_writeSlice_any hm, hlen]
  by_cases h : n < s + 16
  · rw [if_pos (by omega), if_pos h]
  rw [if_neg (by omega), if_neg (by omega), if_neg h, wp_bind, take_of_length_le (by omega),
    wp_writeSlice hm (by omega) (by simp [hlen]; omega) (by omega), wp_bind]
  simp only [writeTail, wp_bind, wp_get, hm, unwrap_some, wp_pure]
  rw [wp_writeSlice_any hm]
  simp only [Dev.emit_disk, apply_write_len, hlen]
  rw [if_neg (by omega), show s + 8 + 4 + 4 = s + 16 from rfl, show s + 8 + 4 = s + 12 from rfl]
  by_cases h' : n < s + 16 + e.2.length
  · rw [if_pos (by omega), if_pos h']
  · rw [if_neg (by omega), if_neg h', take_of_length_le (by omega),
      wp_writeSlice hm (by omega) (by simp [hlen]; omega) (by omega)]

section

variable (hlen : (d.disk.inode ino).len = f.lenMax)
include hlen

/-- **All ways in which an append ends.** The data is written as far as it fits. -/
theorem wp_appendLog_any : wp (appendLog e.1 e.2) Q E (f, d) ↔
      match f.startOf with
      | none => E (.panic .unwrapDataEnd) (f, d)
      | some s =>
        if f.lenMax < s + 16 then E (.panic .sliceIndex) (f.begun e.1, d)
        else if f.lenMax < s + 16 + e.2.length then
          E (.err (.io .writeZero)) (f.begun e.1, f.cutOff ino s e d)
        else Q () (f.grown s e, f.appended ino s e d) := by
  have hrec : ∀ (s : ℕ) (k : FileM Unit), (do
      writeSlice .crc (s + 8) (s + 8 + 8) (crcBytes e.2)
      writeSlice .len (s + 8 + 4) (s + 8 + 4 + 4) (toBe 4 e.2.length)
      writeTail .data (s + 8 + 4 + 4) e.2
      writeSlice .id s (s + 8) (toBe 8 e.1)
      k) = writeRecord s e >>= fun _ => k := by
    intro s k
    simp only [writeRecord, bind_assoc']
  unfold startOf appendLog
  rw [wp_bind, wp_get]
  cases hs : f.dataStart with
  | none =>
    have hb : ({ f with idFrom := e.1, dataStart := some offsetLogs } : WalFile) = f.begun e.1 := by
      simp [begun, hs]
    have hmb : (f.begun e.1).mmapMut = some ino := by rw [begun_mmapMut, hm]
    simp only [hs, isNone_none, if_true, pure_bind, hrec]
    rw [wp_bind, wp_modifyFile, hb, wp_bind, wp_writeRecord hmb hlen]
    by_cases h1 : f.lenMax < offsetLogs + 16
    · rw [if_pos h1, if_pos h1]
    by_cases h2 : f.lenMax < offsetLogs + 16 + e.2.length
    · rw [if_neg h1, if_pos h2, if_neg h1, if_pos h2]
      rfl
    have hmg : (f.grown offsetLogs e).mmapMut = some ino := hmb
    rw [if_neg h1, if_neg h2, if_neg h1, if_neg h2, wp_bind, wp_modifyFile]
    simp only [appended, hs, isNone_none, if_true]
    exact wp_updateHeader hmg (by simp [hlen]; omega)
  | some x =>
    cases he : f.dataEnd with
    | none =>
      simp only [hs, he, isNone_some, Bool.false_eq_true, if_false, unwrap_none,
        stop_bind, wp_stop, map_none]
    | some y =>
      simp only [hs, he, isNone_some, Bool.false_eq_true, if_false, unwrap_some,
        pure_bind, map_some]
      rw [hrec, wp_bind, wp_writeRecord hm hlen]
      simp only [begun, grown, cutOff, appended, hs, isNone_some, Bool.false_eq_true, if_false,
        wp_bind, wp_modifyFile, wp_pure]

theorem appendLog_fits (hs : f.startOf = some s) (hfit : s + 16 + e.2.length ≤ f.lenMax) :
    appendLog e.1 e.2 (f, d) = (.ok (), (f.grown s e, f.appended ino s e d)) := by
  refine eq_ok_of_wp ((wp_appendLog_any hm hlen).mpr ?_)
  rw [hs]
  change if f.lenMax < s + 16 then _ else if f.lenMax < s + 16 + e.2.length then _ else _
  rw [if_neg (by omega), if_neg (by omega)]
  exact ⟨rfl, rfl⟩

theorem appendLog_cut (hs : f.startOf = some s) (hfit : s + 16 ≤ f.lenMax)
    (hcut : f.lenMax < s + 16 + e.2.length) :
    appendLog e.1 e.2 (f, d) = (.error (.err (.io .writeZero)), (f.begun e.1, f.cutOff ino s e d)) := by
  refine eq_error_of_wp ((wp_appendLog_any hm hlen).mpr ?_)
  rw [hs]
  change if f.lenMax < s + 16 then _ else if f.lenMax < s + 16 + e.2.length then _ else _
  rw [if_neg (by omega), if_pos hcut]
  exact ⟨rfl, rfl⟩

theorem appendLog_endless (hs : f.dataStart.isSome) (he : f.dataEnd = none) :
    appendLog e.1 e.2 (f, d) = (.error (.panic .unwrapDataEnd), (f, d)) := by
  refine eq_error_of_wp ((wp_appendLog_any hm hlen).mpr ?_)
  have hstart : f.startOf = none := by
    rw [startOf, isNone_eq_false_iff.mpr hs, he]
    rfl
  rw [hstart]
  exact ⟨rfl, rfl⟩

theorem appendLog_error {f' : WalFile} {d' : WalDev} {x : Error}
    (h : appendLog e.1 e.2 (f, d) = (.error (.err x), (f', d'))) :
    ∃ s, f.startOf = some s ∧ s + 16 ≤ f.lenMax ∧ f.lenMax < s + 16 + e.2.length ∧
      x = .io .writeZero ∧ f' = f.begun e.1 ∧ d' = f.cutOff ino s e d := by
  have hwp : wp (appendLog e.1 e.2) (fun _ _ => False) (fun r t => r = .err x ∧ t = (f', d'))
      (f, d) := (wp_of_error h).mpr ⟨rfl, rfl⟩
  rw [wp_appendLog_any hm hlen] at hwp
  cases hs : f.startOf with
  | none =>
    rw [hs] at hwp
    cases hwp.1
  | some s =>
    rw [hs] at hwp
    simp only at hwp
    split_ifs at hwp with h1 h2
    · cases hwp.1
    · obtain ⟨hx, ht⟩ := hwp
      cases hx
      cases ht
      exact ⟨s, rfl, by omega, h2, rfl, rfl, rfl⟩

end

end

omit [Crc] in
theorem startOf_isSome (hs : f.dataStart.isSome) : f.startOf = f.dataEnd.map (· + 1) := by
  rw [startOf, isNone_eq_false_iff.mpr hs]
  rfl

theorem appended_bytes (hs : offsetLogs ≤ s) :
    RecAt ((f.appended ino s e d).disk.inode ino).bytes s e ∧
      AgreeOn offsetLogs s (d.disk.inode ino).bytes
        ((f.appended ino s e d).disk.inode ino).bytes := by
  have hrec := recAt_recordAt (d.disk.inode ino).bytes s e
  have hold := (recordAt_agree (d.disk.inode ino).bytes s e).mono (Nat.zero_le offsetLogs) le_rfl
  have hbytes : ((f.appended ino s e d).disk.inode ino).bytes =
      if f.dataStart.isNone then (recordAt (d.disk.inode ino).bytes s e).write 0
        (buildHeader (f.grown s e).toHeader)
      else recordAt (d.disk.inode ino).bytes s e := by
    unfold appended recordAt
    split_ifs <;> simp
  rw [hbytes]
  split_ifs
  · have hlen := length_buildHeader (f.grown s e).toHeader
    have hag : ∀ hi, AgreeOn offsetLogs hi (recordAt (d.disk.inode ino).bytes s e)
        ((recordAt (d.disk.inode ino).bytes s e).write 0 (buildHeader (f.grown s e).toHeader)) :=
      fun hi => (agreeOn_write (.inr (by rw [hlen]; rfl))).symm
    exact ⟨hrec.congr ((hag _).mono hs le_rfl), hold.trans (hag _)⟩
  · exact ⟨hrec, hold⟩

theorem appended_len : ((f.appended ino s e d).disk.inode ino).len = (d.disk.inode ino).len := by
  unfold appended
  split_ifs <;> simp

/-! ## Sizes -/

/-- An empty file of `walSize` bytes that the writer has mapped. -/
structure Blank (walSize ino : ℕ) (f : WalFile) (d : WalDisk) : Prop where
  start : f.dataStart = none
  stop : f.dataEnd = none
  size : f.lenMax = walSize
  map : f.mmapMut = some ino
  unread : f.mmap = none
  len : (d.inode ino).len = walSize

theorem Blank.readLogs {walSize : ℕ} (h : Blank walSize ino f d.disk) (hsize : walSize < 2 ^ 32)
    (hid : e.1 < 2 ^ 64) (hpos : 0 < e.2.length) (hfit : offsetLogs + 16 + e.2.length ≤ walSize) :
    ∃ memo, (f.grown offsetLogs e).readLogs (f.appended ino offsetLogs e d).disk e.1 e.1 none =
      .ok (offsetLogs, memo, [e]) := by
  set g := f.grown offsetLogs e with hg
  set d' := (f.appended ino offsetLogs e d).disk with hd'
  have hmax : g.lenMax = walSize := by
    rw [hg, grown, begun_lenMax, h.size]
  have hread : g.Readable d' ino := by
    refine ⟨?_, ?_⟩
    · simp [hg, grown, begun, h.start, h.unread, h.map]
    · rw [hd', appended_len, h.len, hmax]
  have hrec := hread.readRecord (parseRecord_of_recAt (appended_bytes (f := f) (d := d) le_rfl).1
    hpos (by rw [hmax]; exact hfit) (by rw [hmax]; exact hsize))
  rw [Nat.mod_eq_of_lt hid] at hrec
  have hfrom : g.idFrom = e.1 := by simp [hg, grown, begun, h.start]
  have hstart : g.dataStart = some offsetLogs := by simp [hg, grown, begun, h.start]
  have hend : g.dataEnd = some ((offsetLogs + 16 + e.2.length) % 2 ^ 32) := rfl
  have hloop : g.readLogsLoop d' e.1 e.1 (g.lenMax + 1) offsetLogs 0 none [] =
      .ok (offsetLogs, some ⟨g.walNo, g.idFrom, e.1, addU32 offsetLogs (8 + 4 + 4 + e.2.length)⟩,
        [e]) := by
    simp [readLogsLoop, hrec]
  refine ⟨some ⟨g.walNo, g.idFrom, e.1, addU32 offsetLogs (8 + 4 + 4 + e.2.length)⟩, ?_⟩
  rw [WalFile.readLogs, if_neg (by omega), if_neg (by rw [hg]; simp [grown]), if_neg (by omega)]
  simp only [hstart, hend, readStart]
  exact hloop

/-- **Sizes.** An entry that passes the size check has space in an empty file and is read back iff
it is shorter than the file by 50 bytes. An append that fails leaves the fields as they were iff the
file was not empty; otherwise every further append panics. -/
theorem append_size_iff (walSize : ℕ) (hmax : walSize ≤ u32Max) :
    (∀ f d ino (e : Entry), Blank walSize ino f d.disk → e.1 < 2 ^ 64 → 0 < e.2.length →
      e.2.length ≤ walSize - offsetLogs - 2 →
      ((f.hasSpace e.2.length = true ∧ ∃ g d' memo, appendLog e.1 e.2 (f, d) = (.ok (), (g, d')) ∧
          g.readLogs d'.disk e.1 e.1 none = .ok (offsetLogs, memo, [e])) ↔
        e.2.length + 50 ≤ walSize)) ∧
    ∀ f d ino (e : Entry) x g d', f.mmapMut = some ino → (d.disk.inode ino).len = f.lenMax →
      appendLog e.1 e.2 (f, d) = (.error (.err x), (g, d')) →
      (g.toHeader = f.toHeader ↔ f.dataStart.isSome = true) ∧
      (f.dataStart.isSome = true → ∀ e' : Entry, f.hasSpace e'.2.length = true →
        (appendLog e'.1 e'.2 (g, d')).1 = .ok ()) ∧
      (f.dataStart = none → f.dataEnd = none → ∀ e' : Entry,
        (appendLog e'.1 e'.2 (g, d')).1 = .error (.panic .unwrapDataEnd)) := by
  constructor
  · intro f d ino e h hid hpos _
    have hspace : f.hasSpace e.2.length = true ↔ e.2.length + 50 ≤ walSize := by
      rw [hasSpace, h.stop, h.size, decide_eq_true_iff, getD_none, offsetLogs]
      omega
    constructor
    · exact fun h => hspace.mp h.1
    · intro hfit
      have hfit' : offsetLogs + 16 + e.2.length ≤ walSize := by
        rw [offsetLogs]
        omega
      have hs : f.startOf = some offsetLogs := by simp [startOf, h.start]
      obtain ⟨memo, hread⟩ := h.readLogs (by rw [u32Max] at hmax; omega) hid hpos hfit'
      exact ⟨hspace.mpr hfit, _, _, memo, appendLog_fits h.map (h.len.trans h.size.symm) hs
        (by rw [h.size]; exact hfit'), hread⟩
  · intro f d ino e x g d' hm hlen herr
    obtain ⟨s, hs, -, -, -, rfl, rfl⟩ := appendLog_error hm hlen herr
    have hlen' : ((f.cutOff ino s e d).disk.inode ino).len = f.lenMax := by simp [cutOff, hlen]
    have hkept : f.dataStart.isSome = true → f.begun e.1 = f := by
      intro hsome
      rw [begun, if_neg (by simp [isNone_eq_false_iff.mpr hsome])]
    refine ⟨⟨fun hh => ?_, fun hsome => by rw [hkept hsome]⟩, fun hsome e' hspace => ?_,
      fun hnone hend e' => ?_⟩
    · by_contra hnone
      rw [Bool.not_eq_true, isSome_eq_false_iff, isNone_iff_eq_none] at hnone
      have := congrArg Header.dataStart hh
      simp [begun, hnone] at this
    · rw [hkept hsome]
      rw [startOf_isSome hsome] at hs
      cases he : f.dataEnd with
      | none => simp [he] at hs
      | some y =>
        rw [hasSpace, he, decide_eq_true_iff, getD_some] at hspace
        rw [appendLog_fits hm hlen' (s := y + 1) (by rw [startOf_isSome hsome, he]; rfl) (by omega)]
    · rw [appendLog_endless (by rw [begun_mmapMut, hm]) (by rw [hlen', begun_lenMax])
        (by simp [begun, hnone]) (by simp [begun, hnone, hend])]

def blank : WalFile := ⟨Header.unused, 1, minWalSize, none, some 0⟩

def blankDev : WalDev :=
  Dev.ofDisk ⟨fun _ => ⟨minWalSize, zero⟩, 1, [(1, 0)], ⟨⟨none, none⟩, true⟩⟩

section

omit [Crc]

theorem blank_blank : Blank minWalSize 0 blank blankDev.disk := ⟨rfl, rfl, rfl, rfl, rfl, rfl⟩

/-- One byte in a file of the least size. -/
theorem append_size_iff_one : let := cksum
    blank.hasSpace 1 = true ∧ ∃ g d' memo,
      appendLog 1 [7] (blank, blankDev) = (.ok (), (g, d')) ∧
        g.readLogs d'.disk 1 1 none = .ok (offsetLogs, memo, [(1, [7])]) := by
  intro _
  exact ((append_size_iff minWalSize (by decide)).1 blank blankDev 0 (1, [7]) blank_blank
    (by norm_num) (by decide) (by decide)).mpr (by decide)

/-- **The longest entry that passes the size check** has no space in an empty file. An append of it
fails and leaves a file that has a beginning but no end, on which the next append panics. -/
theorem limit_entry_fails : let := cksum
    ∃ (data : Bytes) (g : WalFile) (d' : WalDev),
      data.length = minWalSize - offsetLogs - 2 ∧ blank.hasSpace data.length = false ∧
      appendLog 1 data (blank, blankDev) = (.error (.err (.io .writeZero)), (g, d')) ∧
      g.dataStart = some offsetLogs ∧ g.dataEnd = none ∧
      (appendLog 1 [7] (g, d')).1 = .error (.panic .unwrapDataEnd) := by
  intro _
  have hlen : (replicate (minWalSize - offsetLogs - 2) (7 : UInt8)).length =
      minWalSize - offsetLogs - 2 := length_replicate
  have hcut := appendLog_cut (f := blank) (d := blankDev)
    (e := (1, replicate (minWalSize - offsetLogs - 2) 7))
    (show blank.mmapMut = some 0 from rfl) rfl
    (show blank.startOf = some offsetLogs from rfl) (by decide)
    (by simp only [hlen]; decide)
  refine ⟨_, _, _, hlen, ?_, hcut, rfl, rfl, ?_⟩
  · rw [hlen]
    decide
  · exact congrArg Prod.fst (appendLog_endless (e := (1, [7])) rfl (by simp [cutOff]; rfl) rfl rfl)

end

end WalFile

end Hiqlite.Wal
