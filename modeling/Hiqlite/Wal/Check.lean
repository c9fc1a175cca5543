import Hiqlite.Wal.FileSpec

/-!
# W15 — the deep integrity check

`check_repair_data_integrity` walks over the records that the header knows and then takes over
valid records that lie behind them.

* **`scanLoop_spec`**: the second phase;
* **`checkRepair_body`**: the check of a file whose header describes its records.
-/

namespace Hiqlite.Wal

open List Exec Region

variable [Crc]

/-! ## Orphaned records -/

/-- The record at `off`, if the scan behind the record `idBefore` takes it over. -/
def orphanAt (b : Region) (len off : ℕ) (idBefore : Option ℕ) : Option Entry :=
  match parseRecord b len off with
  | some r =>
    if r.logId = 0 ∨ WalFile.idGap idBefore r.logId = true ∨ r.crc ≠ crcBytes r.data then none
    else some (r.logId, r.data)
  | none => none

/-- The records that the scan takes over, one behind the other. -/
def orphans (b : Region) (len : ℕ) : ℕ → ℕ → Option ℕ → List Entry
  | 0, _, _ => []
  | n + 1, off, idBefore =>
    match orphanAt b len off idBefore with
    | some e => e :: orphans b len n (off + 17 + e.2.length) (some e.1)
    | none => []

/-- Where the scan starts: behind the data, or one byte behind the header. -/
def Header.scanFrom (h : Header) : ℕ := (h.dataEnd.map (· + 1)).getD (offsetLogs + 1)

def Header.lastId (h : Header) : Option ℕ := h.dataEnd.map fun _ => h.idUntil

/-- The records that the deep check finds behind those of the header. -/
def strays (b : Region) (len : ℕ) (h : Header) : List Entry :=
  orphans b len (len + 1) h.scanFrom h.lastId

variable {b b' : Region} {len off n : ℕ} {idBefore : Option ℕ} {e : Entry}

section

variable (h : AgreeOn off len b b')
include h

omit [Crc] in
theorem parseRecord_congr : parseRecord b len off = parseRecord b' len off := by
  unfold parseRecord
  by_cases h1 : off + 16 > len
  · rw [if_pos h1, if_pos h1]
  · rw [if_neg h1, if_neg h1, read_congr (h.mono (by omega) (show off + 12 + 4 ≤ len by omega)),
      read_congr (h.mono le_rfl (show off + 8 ≤ len by omega)),
      read_congr (h.mono (by omega) (show off + 8 + 4 ≤ len by omega))]
    split_ifs with h2 h3
    · rfl
    · rfl
    · rw [read_congr (h.mono (by omega) (by omega))]

theorem orphanAt_congr : orphanAt b len off idBefore = orphanAt b' len off idBefore := by
  rw [orphanAt, orphanAt, parseRecord_congr h]

theorem orphans_congr : orphans b len n off idBefore = orphans b' len n off idBefore := by
  induction n generalizing off idBefore with
  | zero => rfl
  | succ n ih =>
    rw [orphans, orphans, orphanAt_congr h]
    split
    · rw [ih (h.mono (by omega) le_rfl)]
    · rfl

end

theorem orphanAt_eq_some (h : orphanAt b len off idBefore = some e) :
    RecAt b off e ∧ 0 < e.2.length ∧ off + 16 + e.2.length ≤ len ∧ 0 < e.1 ∧ e.1 < 2 ^ 64 ∧
      ∀ id ∈ idBefore, e.1 = addU64 id 1 := by
  unfold orphanAt at h
  split at h
  · next r hr =>
    split_ifs at h with hc
    push Not at hc
    obtain ⟨h0, hgap, hcrc⟩ := hc
    cases h
    obtain ⟨h1, h2, h3, -⟩ := parseRecord_eq_some hr
    refine ⟨recAt_of_parseRecord hr hcrc, h1, h2, Nat.pos_of_ne_zero h0, h3, fun id hid => ?_⟩
    rw [Option.mem_def] at hid
    subst hid
    simpa [WalFile.idGap] using hgap
  · exact absurd h (by simp)

theorem orphanAt_of_le (h : len < off + 16) : orphanAt b len off idBefore = none := by
  have : parseRecord b len off = none := by rw [parseRecord, if_pos (by omega)]
  rw [orphanAt, this]

theorem orphanAt_recAt (h : RecAt b off e) (hok : EntryOk e) (hfit : off + 16 + e.2.length ≤ len)
    (hlen : len < 2 ^ 32) (hpos : 0 < e.1) (hid : ∀ id ∈ idBefore, e.1 = id + 1) :
    orphanAt b len off idBefore = some e := by
  have hgap : WalFile.idGap idBefore e.1 = false := by
    cases idBefore with
    | none => rfl
    | some id =>
      have h1 := hid id rfl
      have h2 := hok.id_lt
      rw [u64Max] at h2
      simp [WalFile.idGap, addU64_of_lt (show id + 1 < 2 ^ 64 by omega), h1]
  rw [orphanAt, parseRecord_of_entryOk h hok hfit hlen]
  simp [hgap, hpos.ne']

variable (b len n off idBefore) in
theorem orphans_laid : Laid b off (orphans b len n off idBefore) ∧
    (orphans b len n off idBefore ≠ [] → endOf off (orphans b len n off idBefore) ≤ len + 1) ∧
    ∀ e ∈ orphans b len n off idBefore, e.1 < 2 ^ 64 := by
  induction n generalizing off idBefore with
  | zero => simp [orphans]
  | succ n ih =>
    rw [orphans]
    split
    · next e he =>
      obtain ⟨hrec, -, hfit, -, hid, -⟩ := orphanAt_eq_some he
      obtain ⟨hl, hend, hids⟩ := ih (off + 17 + e.2.length) (some e.1)
      refine ⟨⟨hrec, hl⟩, fun _ => ?_, forall_mem_cons.mpr ⟨hid, hids⟩⟩
      rw [endOf_cons]
      by_cases hnil : orphans b len n (off + 17 + e.2.length) (some e.1) = []
      · rw [hnil, endOf_nil]
        omega
      · exact hend hnil
    · simp

theorem strays_eq_nil {h : Header} :
    strays b len h = [] ↔ orphanAt b len h.scanFrom h.lastId = none := by
  rw [strays, orphans]
  split
  · next e he => simp [he]
  · next he => simp [he]

/-! ## Changes of the header only -/

/-- From `d` to `d'` only the header of the file `ino` changes. -/
structure Rehead (ino : ℕ) (d d' : WalDev) : Prop where
  dir : d'.disk.dir = d.disk.dir
  next : d'.disk.next = d.disk.next
  small : d'.disk.small = d.disk.small
  other : ∀ i, i ≠ ino → d'.disk.inode i = d.disk.inode i
  len : (d'.disk.inode ino).len = (d.disk.inode ino).len
  bytes : ∀ hi, AgreeOn offsetLogs hi (d.disk.inode ino).bytes (d'.disk.inode ino).bytes
  fault : d'.fault = d.fault

section

omit [Crc]

theorem Rehead.refl (ino : ℕ) (d : WalDev) : Rehead ino d d :=
  ⟨rfl, rfl, rfl, fun _ _ => rfl, rfl, fun _ => AgreeOn.refl _ _ _, rfl⟩

theorem Rehead.trans {ino : ℕ} {d1 d2 d3 : WalDev} (h : Rehead ino d1 d2) (h' : Rehead ino d2 d3) :
    Rehead ino d1 d3 :=
  ⟨h'.dir.trans h.dir, h'.next.trans h.next, h'.small.trans h.small,
    fun i hi => (h'.other i hi).trans (h.other i hi), h'.len.trans h.len,
    fun hi => (h.bytes hi).trans (h'.bytes hi), h'.fault.trans h.fault⟩

theorem Rehead.tick (ino : ℕ) (d : WalDev) : Rehead ino d d.tick :=
  ⟨rfl, rfl, rfl, fun _ _ => rfl, rfl, fun _ => AgreeOn.refl _ _ _, rfl⟩

theorem Rehead.header (ino : ℕ) (d : WalDev) (h : Header) :
    Rehead ino d (d.emit (.write ino .header 0 (buildHeader h))) where
  dir := rfl
  next := rfl
  small := rfl
  other i hi := by rw [Dev.emit_disk, apply_write_inode_of_ne _ _ _ _ _ _ hi]
  len := by simp
  bytes hi := by
    rw [Dev.emit_disk, apply_write_bytes_self]
    exact (agreeOn_write (.inr (by rw [length_buildHeader]; rfl))).symm
  fault := rfl

end

namespace WalFile

variable {f : WalFile} {d : WalDev} {ino fuel : ℕ}

/-! ## The scan -/

/-- The file after the scan took over the records `os` at `off`. -/
def adopt (f : WalFile) (off : ℕ) (os : List Entry) : WalFile :=
  match os.getLast? with
  | some e =>
    { f with
      idUntil := e.1
      dataStart := some (f.dataStart.getD off)
      dataEnd := some (endOf off os - 1) }
  | none => f

section

omit [Crc]

@[simp] theorem adopt_walNo (f : WalFile) (off : ℕ) (os : List Entry) :
    (f.adopt off os).walNo = f.walNo := by
  unfold adopt
  split <;> rfl

@[simp] theorem adopt_lenMax (f : WalFile) (off : ℕ) (os : List Entry) :
    (f.adopt off os).lenMax = f.lenMax := by
  unfold adopt
  split <;> rfl

theorem adopt_cons (f : WalFile) (off : ℕ) (e : Entry) (os : List Entry) :
    (f.adopt off [e]).adopt (off + 17 + e.2.length) os = f.adopt off (e :: os) := by
  rcases eq_nil_or_concat' os with rfl | ⟨xs, x, rfl⟩
  · rfl
  · have hlast : (e :: (xs ++ [x])).getLast? = some x := by
      rw [← cons_append, getLast?_concat]
    simp [adopt, hlast]

end

theorem stored_adopt {dk : WalDisk} {recs : List Entry} (hlook : dk.lookup f.walNo = some ino)
    (hmax : f.lenMax < u32Max) (hb : Body b f.lenMax f.toHeader recs)
    (hbytes : AgreeOn offsetLogs (f.lenMax + 1) b (dk.inode ino).bytes) :
    (f.adopt f.scanFrom (strays b f.lenMax f.toHeader)).stored dk =
      recs ++ strays b f.lenMax f.toHeader := by
  have hb' := hb.congr (hbytes.mono le_rfl (Nat.le_succ _))
  obtain ⟨hl, hend, hids⟩ := orphans_laid b f.lenMax f.scanFrom (f.lenMax + 1) f.lastId
  rw [strays]
  generalize orphans b f.lenMax (f.lenMax + 1) f.scanFrom f.lastId = os at hl hend hids
  rcases eq_nil_or_concat' os with rfl | ⟨xs, x, rfl⟩
  · rw [append_nil]
    exact Body.stored hlook hmax hb'
  have hne : xs ++ [x] ≠ [] := by simp
  rcases hb with ⟨rfl, hv⟩ | ⟨hrecs, s, hs⟩
  · have hfrom : f.scanFrom = offsetLogs + 1 := by rw [Header.scanFrom, hv.stop]; rfl
    rw [hfrom] at hl hend ⊢
    refine stored_of_laid (s := offsetLogs + 1) (by rwa [adopt_walNo]) (by rwa [adopt_lenMax]) ?_ ?_
      (by simp) (by rw [adopt_lenMax]; exact hend hne)
      (hl.congr (hbytes.mono (by omega) ((Nat.sub_le _ _).trans (hend hne)))) hids <;> simp [adopt, hv.start]
  · have hfrom : f.scanFrom = endOf s recs := by
      have := add_le_endOf s hrecs
      rw [Header.scanFrom, hs.stop]
      simp only [Option.map_some, Option.getD_some]
      omega
    have hle := hs.le_start
    rw [hfrom] at hl hend ⊢
    rw [← endOf_append] at hend
    have hlaid : Laid b s (recs ++ (xs ++ [x])) := laid_append.mpr ⟨hs.laid, hl⟩
    refine stored_of_laid (s := s) (by rwa [adopt_walNo]) (by rwa [adopt_lenMax]) ?_ ?_ (by simp)
      (by rw [adopt_lenMax]; exact hend hne)
      (hlaid.congr (hbytes.mono hle ((Nat.sub_le _ _).trans (hend hne)))) fun e he => ?_
    · simp [adopt, hs.start]
    · simp [adopt, endOf_append]
    · rcases mem_append.mp he with he | he
      · exact (hs.ok e he).id_lt_pow
      · exact hids e he

variable {E : Stop → WalFile × WalDev → Prop} {heal : Bool}

section

variable (hw : f.Writable d.disk ino) (hmax : f.lenMax < u32Max) (hoff : offsetLogs ≤ off)
include hw hmax hoff

theorem wp_scanLoop_succ {Q : Unit → WalFile × WalDev → Prop} :
    wp (scanLoop (fuel + 1) off idBefore) Q E (f, d) ↔
      match orphanAt (d.disk.inode ino).bytes f.lenMax off idBefore with
      | none => Q () (f, d)
      | some e =>
        let f1 := f.adopt off [e]
        let d1 := d.emit (.write ino .header 0 (buildHeader f1.toHeader))
        if f.lenMax ≤ off + 17 + e.2.length then Q () (f1, d1)
        else wp (scanLoop fuel (off + 17 + e.2.length) (some e.1)) Q E (f1, d1) := by
  rw [scanLoop, wp_bind, wp_get]
  simp only
  by_cases h1 : off + 8 + 4 + 4 > f.lenMax
  · rw [if_pos h1, orphanAt_of_le (by omega), wp_pure]
  rw [if_neg h1]
  cases hr : parseRecord (d.disk.inode ino).bytes f.lenMax off with
  | none =>
    obtain ⟨e, he⟩ := hw.readRecord_none hr
    simp only [he, orphanAt, hr, wp_pure]
  | some record =>
    obtain ⟨-, hfit, -⟩ := parseRecord_eq_some hr
    rw [u32Max] at hmax
    have hnext : addU32 off (record.len + 1) = off + 17 + record.data.length := by
      rw [WalRecord.len, addU32_of_lt (by omega)]
      omega
    have hend : addU32 off record.len = off + 17 + record.data.length - 1 := by
      rw [WalRecord.len, addU32_of_lt (by omega)]
      omega
    simp only [hw.readRecord hr, orphanAt, hr]
    by_cases h2 : record.logId = 0
    · rw [if_pos h2, if_pos (.inl h2), wp_pure]
    by_cases h3 : idGap idBefore record.logId = true
    · rw [if_neg h2, if_pos h3, if_pos (.inr (.inl h3)), wp_pure]
    by_cases h4 : record.crc ≠ crcBytes record.data
    · rw [if_neg h2, if_neg h3, if_pos h4, if_pos (.inr (.inr h4)), wp_pure]
    have h5 : ¬ (record.logId = 0 ∨ idGap idBefore record.logId = true ∨
        record.crc ≠ crcBytes record.data) := by tauto
    rw [if_neg h2, if_neg h3, if_neg h4, if_neg h5, wp_bind, wp_modifyFile, wp_bind, hend,
      hnext]
    have hadopt : ({ f with
        idUntil := record.logId
        dataStart := if f.dataStart.isNone then some off else f.dataStart
        dataEnd := some (off + 17 + record.data.length - 1) } : WalFile) =
        f.adopt off [(record.logId, record.data)] := by
      cases hs : f.dataStart <;> simp [adopt, hs]
    rw [hadopt, wp_updateHeader (show (f.adopt off [(record.logId, record.data)]).mmapMut = some ino
      from hw.mmapMut) (by rw [hw.len]; omega)]
    simp only [wp_ite, wp_pure, ge_iff_le]

/-- **Phase 2** takes over the orphaned records and changes nothing but the header. -/
theorem scanLoop_spec (hfuel : 0 < fuel) (hfuel' : f.lenMax < off + fuel) :
    wp (scanLoop fuel off idBefore)
      (fun _ s => s.1 = f.adopt off (orphans (d.disk.inode ino).bytes f.lenMax fuel off idBefore) ∧
        Rehead ino d s.2 ∧ (s = (f, d) ∨ HdrAt (s.2.disk.inode ino).bytes s.1.toHeader)) E
      (f, d) := by
  induction fuel generalizing f d off idBefore with
  | zero => omega
  | succ fuel ih =>
    rw [wp_scanLoop_succ hw hmax hoff, orphans]
    cases ho : orphanAt (d.disk.inode ino).bytes f.lenMax off idBefore with
    | none => exact ⟨rfl, .refl _ _, .inl rfl⟩
    | some e =>
      obtain ⟨-, hpos, hfit, -⟩ := orphanAt_eq_some ho
      have hre := Rehead.header ino d (f.adopt off [e]).toHeader
      have hhdr : HdrAt ((d.emit (.write ino .header 0
          (buildHeader (f.adopt off [e]).toHeader))).disk.inode ino).bytes
          (f.adopt off [e]).toHeader := by
        rw [HdrAt, Dev.emit_disk, apply_write_bytes_self]
        exact read_write_of_length (length_buildHeader _)
      simp only
      split_ifs with h1
      · -- the file is full
        have hnil : orphans (d.disk.inode ino).bytes f.lenMax fuel (off + 17 + e.2.length)
            (some e.1) = [] := by
          cases fuel with
          | zero => rfl
          | succ n => rw [orphans, orphanAt_of_le (by omega)]
        rw [hnil]
        exact ⟨rfl, hre, .inr hhdr⟩
      · rw [← adopt_cons]
        refine wp_imp (ih (f := f.adopt off [e]) ⟨⟨hw.map, by rw [hre.len]; exact hw.len⟩, hw.mmapMut⟩ hmax
          (by omega) (by omega) (by simp only [adopt, getLast?_singleton]; omega)) ?_
        rintro - ⟨g, d'⟩ ⟨hg, hre', hh⟩
        refine ⟨?_, hre.trans hre', .inr ?_⟩
        · rw [hg, orphans_congr ((hre.bytes f.lenMax).mono (by omega) le_rfl)]
          rfl
        · rcases hh with hh | hh
          · cases hh
            exact hhdr
          · exact hh

end

/-! ## The walk over the known records -/

theorem wp_checkLoop_recAt {dataEnd : ℕ} (hread : f.Readable d.disk ino)
    (hr : RecAt (d.disk.inode ino).bytes off e) (hok : EntryOk e)
    (hfit : off + 16 + e.2.length ≤ f.lenMax) (hmax : f.lenMax < u32Max)
    (hid : ∀ id ∈ idBefore, e.1 = id + 1) {Q : Option (ℕ × ℕ) → WalFile × WalDev → Prop} :
    wp (checkLoop heal dataEnd (fuel + 1) off idBefore) Q E (f, d) ↔
      if dataEnd < off + 17 + e.2.length ∨ e.1 = f.idUntil then
        Q (some (off + 17 + e.2.length, e.1)) (f, d)
      else wp (checkLoop heal dataEnd fuel (off + 17 + e.2.length) (some e.1)) Q E (f, d) := by
  rw [u32Max] at hmax
  have hgap : idGap idBefore e.1 = false := by
    cases idBefore with
    | none => rfl
    | some id =>
      have h1 := hid id rfl
      have h2 := hok.id_lt
      rw [u64Max] at h2
      simp [idGap, addU64_of_lt (show id + 1 < 2 ^ 64 by omega), h1]
  have hne : e.2 ≠ [] := ne_nil_of_length_pos hok.pos
  have hnext : addU32 off (WalRecord.len ⟨e.1, crcBytes e.2, e.2⟩ + 1) = off + 17 + e.2.length := by
    rw [WalRecord.len, addU32_of_lt (by simp only; omega)]
    simp only
    omega
  rw [checkLoop, wp_bind, wp_get]
  simp only [hread.readRecord_recAt hr hok hfit (show f.lenMax < 2 ^ 32 by omega),
    lift_ok, pure_bind, hgap, Bool.false_eq_true, if_false, ne_eq, not_true_eq_false,
    hne, or_self, hnext, wp_ite, wp_pure, gt_iff_lt]

theorem wp_checkLoop_laid {k dataEnd : ℕ} {es : List Entry} (hread : f.Readable d.disk ino)
    (hmax : f.lenMax < u32Max) (hl : Laid (d.disk.inode ino).bytes off es) (hn : NumFrom k es)
    (hok : ∀ e ∈ es, EntryOk e) (hne : es ≠ []) (hend : endOf off es = dataEnd + 1)
    (hfit : endOf off es ≤ f.lenMax + 1) (hids : k + es.length = f.idUntil + 1)
    (hid : ∀ id ∈ idBefore, k = id + 1) (hfuel : es.length ≤ fuel)
    {Q : Option (ℕ × ℕ) → WalFile × WalDev → Prop} :
    wp (checkLoop heal dataEnd fuel off idBefore) Q E (f, d) ↔
      Q (some (endOf off es, f.idUntil)) (f, d) := by
  induction es generalizing off k idBefore fuel with
  | nil => exact absurd rfl hne
  | cons e es ih =>
    obtain ⟨hr, hl'⟩ := laid_cons.mp hl
    obtain ⟨h1, hn'⟩ := numFrom_cons.mp hn
    obtain ⟨fuel, rfl⟩ : ∃ n, fuel = n + 1 := ⟨fuel - 1, by simp at hfuel; omega⟩
    have hle := le_endOf (off + 17 + e.2.length) es
    rw [endOf_cons] at hend hfit ⊢
    rw [wp_checkLoop_recAt hread hr (hok e (by simp)) (by omega) hmax fun id hi => by
      rw [h1]; exact hid id hi]
    rw [length_cons] at hids hfuel
    by_cases hnil : es = []
    · subst hnil
      rw [endOf_nil] at hend
      have he : e.1 = f.idUntil := by simp at hids; omega
      rw [if_pos (.inr he), endOf_nil, he]
    · have hlt := add_le_endOf (off + 17 + e.2.length) hnil
      have hpos : 0 < es.length := length_pos_iff.mpr hnil
      rw [if_neg (by omega)]
      exact ih hl' hn' (fun x hx => hok x (by simp [hx])) hnil hend hfit (by omega)
        (fun id hi => by cases hi; omega) (by omega)

theorem checkRepair_body {recs : List Entry} (hw : f.Writable d.disk ino) (hmax : f.lenMax < u32Max)
    (hb : Body (d.disk.inode ino).bytes f.lenMax f.toHeader recs) :
    wp (checkRepairDataIntegrity heal)
      (fun _ s => s.1 = f.adopt f.scanFrom
          (strays (d.disk.inode ino).bytes f.lenMax f.toHeader) ∧
        Rehead ino d s.2 ∧ (s = (f, d) ∨ HdrAt (s.2.disk.inode ino).bytes s.1.toHeader)) E
      (f, d) := by
  rw [checkRepairDataIntegrity, wp_bind, wp_get]
  rcases hb with ⟨-, hv⟩ | ⟨hne, s, hs⟩
  · simp only [hv.start, strays, Header.scanFrom, Header.lastId, hv.stop, Option.map_none,
      Option.getD_none]
    exact scanLoop_spec hw hmax (by omega) (by omega) (by omega)
  · have hfits := hs.fits
    have hle := add_le_endOf s hne
    have hfuel := add_length_le_endOf s recs
    have hstart := hs.le_start
    have hfrom : f.scanFrom = endOf s recs := by
      rw [Header.scanFrom, hs.stop]
      simp only [Option.map_some, Option.getD_some]
      omega
    have hlast : f.lastId = some f.idUntil := by rw [Header.lastId, hs.stop, Option.map_some]
    simp only [hs.start, hs.stop, unwrap_some, pure_bind, wp_bind]
    rw [wp_checkLoop_laid hw.toReadable hmax hs.laid hs.num hs.ok hne (by omega) hfits hs.ids.symm (by simp)
      (by omega), strays, hfrom, hlast]
    exact scanLoop_spec hw hmax (by omega) (by omega) (by omega)

end WalFile

end Hiqlite.Wal
