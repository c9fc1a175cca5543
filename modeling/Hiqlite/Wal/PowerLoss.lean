import Hiqlite.Wal.Durable
import Hiqlite.Wal.Recover
import Hiqlite.Wal.Refine

/-!
# W20 — recovery after a power loss

A power loss may leave any mixture of the bytes that were written since the last flush of a file.

* **`checkRepair_covers`**: the check keeps the records that the header leads to;
* **`recover_covers`**: the header that is left leads to the covered records;
* **`acked_survive_power_loss`**; `torn_header_loses_acked`.
-/

namespace Hiqlite.Wal

open Exec Writer WalDisk
open List hiding set

variable [Crc]

/-! ## The file that is checked -/

/-- From `d` to `d'` nothing changes but the bytes of the file `ino`. -/
structure Apart (ino : ℕ) (d d' : WalDev) : Prop where
  dir : d'.disk.dir = d.disk.dir
  other : ∀ i, i ≠ ino → d'.disk.inode i = d.disk.inode i

omit [Crc] in
theorem Apart.refl (ino : ℕ) (d : WalDev) : Apart ino d d := ⟨rfl, fun _ _ => rfl⟩

omit [Crc] in
theorem Apart.trans {ino : ℕ} {d1 d2 d3 : WalDev} (h : Apart ino d1 d2) (h' : Apart ino d2 d3) :
    Apart ino d1 d3 :=
  ⟨h'.dir.trans h.dir, fun i hi => (h'.other i hi).trans (h.other i hi)⟩

namespace WalFile

/-- A computation that writes only to the file `ino`, while that is mapped. -/
def Local {α : Type} (ino : ℕ) (x : FileM α) : Prop :=
  ∀ f d, f.mmapMut = some ino →
    wp x (fun _ s => s.1.mmapMut = some ino ∧ Apart ino d s.2) (fun _ _ => True) (f, d)

variable {α β : Type} {ino : ℕ}

section

omit [Crc]

theorem local_pure (a : α) : Local ino (pure a : FileM α) := fun _ d hm => ⟨hm, .refl ino d⟩

theorem local_stop (e : Stop) : Local ino (stop e : FileM α) := fun _ _ _ => trivial

theorem local_bind {x : FileM α} {y : α → FileM β} (hx : Local ino x) (hy : ∀ a, Local ino (y a)) :
    Local ino (x >>= y) := by
  intro f d hm
  rw [wp_bind]
  refine wp_mono (hx f d hm) ?_ fun _ _ _ => trivial
  rintro a ⟨g, d'⟩ ⟨hg, hd⟩
  exact wp_mono (hy a g d' hg) (fun _ _ h => ⟨h.1, hd.trans h.2⟩) fun _ _ _ => trivial

theorem local_get {y : WalFile × WalDev → FileM β} (hy : ∀ s, Local ino (y s)) :
    Local ino (Exec.get >>= y) := by
  intro f d hm
  rw [wp_bind, wp_get]
  exact hy (f, d) f d hm

theorem local_lift (r : Except Stop α) : Local ino (lift r : FileM α) := by
  cases r with
  | ok a => exact local_pure a
  | error e => exact local_stop e

theorem local_ite {p : Prop} [Decidable p] {x y : FileM α} (hx : Local ino x) (hy : Local ino y) :
    Local ino (if p then x else y) := by
  split_ifs
  · exact hx
  · exact hy

theorem local_modifyFile {g : WalFile → WalFile} (hg : ∀ f, (g f).mmapMut = f.mmapMut) :
    Local ino (modifyFile g) := fun f d hm => ⟨(hg f).trans hm, .refl ino d⟩

theorem local_writeSlice (k : WriteKind) (lo hi : ℕ) (bs : Bytes) :
    Local ino (writeSlice k lo hi bs) := by
  intro f d hm
  simp only [writeSlice, wp_bind, wp_get, hm, unwrap_some, wp_pure,
    wp_ite, wp_modify]
  split_ifs
  · trivial
  · trivial
  · exact ⟨trivial, rfl, fun i hi => by rw [Dev.emit_disk, apply_write_inode_of_ne _ _ _ _ _ _ hi]⟩

theorem local_updateHeader : Local ino updateHeader :=
  local_get fun _ => local_writeSlice _ _ _ _

end

theorem local_checkLoop (heal : Bool) (dataEnd fuel off : ℕ) (idBefore : Option ℕ) :
    Local ino (checkLoop heal dataEnd fuel off idBefore) := by
  induction fuel generalizing off idBefore with
  | zero => exact local_stop _
  | succ fuel ih =>
    refine local_get fun s => local_bind (local_lift _) fun record => local_ite (local_stop _)
      (local_ite (local_ite ?_ (local_stop _)) (local_ite (local_pure _) (ih _ _)))
    exact local_bind (local_modifyFile fun f => by cases idBefore <;> rfl) fun _ =>
      local_bind (local_writeSlice _ _ _ _) fun _ => local_pure _

theorem local_scanLoop (fuel off : ℕ) (idBefore : Option ℕ) :
    Local ino (scanLoop fuel off idBefore) := by
  induction fuel generalizing off idBefore with
  | zero => exact local_stop _
  | succ fuel ih =>
    refine local_get fun s => local_ite (local_pure _) ?_
    split
    · exact local_pure _
    · exact local_stop _
    · refine local_ite (local_pure _) (local_ite (local_pure _) (local_ite (local_pure _) ?_))
      exact local_bind (local_modifyFile fun _ => rfl) fun _ => local_bind local_updateHeader
        fun _ => local_ite (local_pure _) (ih _ _)

theorem local_checkRepair (heal : Bool) : Local ino (checkRepairDataIntegrity heal) := by
  refine local_get fun ⟨f, d⟩ => ?_
  simp only
  cases f.dataStart with
  | none => exact local_scanLoop _ _ _
  | some start =>
    refine local_bind ?_ fun dataEnd => local_bind (local_checkLoop _ _ _ _ _) fun r => ?_
    · cases f.dataEnd with
      | none => exact local_stop _
      | some e => exact local_pure e
    · cases r with
      | none => exact local_pure _
      | some r => exact local_scanLoop _ _ _

/-! ## The records its header leads to -/

/-- What the walk over the known records leaves behind, from the offset `lo` on. -/
def Walked (f : WalFile) (d : WalDev) (ino lo : ℕ) (r : Option (ℕ × ℕ)) (s : WalFile × WalDev) :
    Prop :=
  match r with
  | some (off, _) => s = (f, d) ∧ lo ≤ off
  | none => ∃ off id, lo ≤ off ∧ off + 16 ≤ f.lenMax ∧
      s = ({ f with idUntil := id, dataEnd := some (off - 1) },
        d.emit (.write ino .nullId off (toBe 8 0)))

variable {f : WalFile} {d : WalDev} {heal : Bool} {dataEnd fuel off : ℕ}

omit [Crc] in
theorem Walked.mono {lo lo' : ℕ} {r : Option (ℕ × ℕ)} {s : WalFile × WalDev}
    (h : Walked f d ino lo r s) (hle : lo' ≤ lo) : Walked f d ino lo' r s := by
  cases r with
  | some r => exact ⟨h.1, hle.trans h.2⟩
  | none =>
    obtain ⟨off, id, h1, h2⟩ := h
    exact ⟨off, id, hle.trans h1, h2⟩

theorem checkLoop_behind {id : ℕ} (hw : f.Writable d.disk ino) (hmax : f.lenMax < u32Max) :
    wp (checkLoop heal dataEnd fuel off (some id)) (Walked f d ino off) (fun _ _ => True)
      (f, d) := by
  induction fuel generalizing off id with
  | zero => trivial
  | succ fuel ih =>
    rw [checkLoop, wp_bind, wp_get]
    simp only
    cases hr : parseRecord (d.disk.inode ino).bytes f.lenMax off with
    | none =>
      obtain ⟨e, he⟩ := hw.readRecord_none hr
      rw [he]
      trivial
    | some record =>
      obtain ⟨-, hfit, -⟩ := parseRecord_eq_some hr
      rw [u32Max] at hmax
      have hnext : addU32 off (record.len + 1) = off + 17 + record.data.length := by
        rw [WalRecord.len, addU32_of_lt (by omega)]
        omega
      simp only [hw.readRecord hr, lift_ok, pure_bind, hnext, wp_ite,
        wp_stop, wp_pure]
      split_ifs with h1 h2 h3 h4
      · rw [wp_bind, wp_modifyFile, wp_bind, wp_writeSlice
          (show (rollBack (some id) off f).mmapMut = some ino from hw.mmapMut) (by omega)
          (by rw [hw.len]; omega) (by rw [length_toBe]; omega)]
        exact ⟨off, id, le_rfl, by omega, rfl⟩
      · exact ⟨rfl, by omega⟩
      · exact wp_mono ih (fun r s h => h.mono (by omega)) fun _ _ _ => trivial

variable {zs : List Entry} {k : ℕ}

theorem checkLoop_covers {idBefore : Option ℕ} (hw : f.Writable d.disk ino) (hmax : f.lenMax < u32Max)
    (hl : Laid (d.disk.inode ino).bytes off zs) (hn : NumFrom k zs) (hok : ∀ e ∈ zs, EntryOk e)
    (hne : zs ≠ []) (hend : endOf off zs ≤ dataEnd + 1) (hdata : dataEnd ≤ f.lenMax)
    (hid : ∀ x ∈ zs, x.1 ≤ f.idUntil) (hk : ∀ id ∈ idBefore, k = id + 1) :
    wp (checkLoop heal dataEnd fuel off idBefore) (Walked f d ino (endOf off zs))
      (fun _ _ => True) (f, d) := by
  induction zs generalizing off k idBefore fuel with
  | nil => exact absurd rfl hne
  | cons e es ih =>
    obtain ⟨hr, hl'⟩ := laid_cons.mp hl
    obtain ⟨h1, hn'⟩ := numFrom_cons.mp hn
    cases fuel with
    | zero => trivial
    | succ fuel =>
      have hle := le_endOf (off + 17 + e.2.length) es
      rw [endOf_cons] at hend ⊢
      rw [wp_checkLoop_recAt hw.toReadable hr (hok e (by simp)) (by omega) hmax fun id hi => by
        rw [h1]; exact hk id hi]
      by_cases hnil : es = []
      · subst hnil
        split_ifs with hstop
        · exact ⟨rfl, le_rfl⟩
        · exact checkLoop_behind hw hmax
      · have hlast := add_le_endOf (off + 17 + e.2.length) hnil
        have hidlt : e.1 < f.idUntil := by
          obtain ⟨y, ys, rfl⟩ := exists_cons_of_ne_nil hnil
          have := hid y (by simp)
          have := (numFrom_cons.mp hn').1
          omega
        rw [if_neg (by omega)]
        exact ih hl' hn' (fun x hx => hok x (by simp [hx])) hnil hend
          (fun x hx => hid x (by simp [hx])) fun id hi => by cases hi; rw [h1]

/-- The header leads to the records `zs`, which lie in the file from `off` on. -/
structure Covers (f : WalFile) (b : Region) (off dataEnd k : ℕ) (zs : List Entry) : Prop where
  start : f.dataStart = some off
  stop : f.dataEnd = some dataEnd
  le_start : offsetLogs ≤ off
  laid : Laid b off zs
  num : NumFrom k zs
  ok : ∀ e ∈ zs, EntryOk e
  ne_nil : zs ≠ []
  le_stop : endOf off zs ≤ dataEnd + 1
  le_len : dataEnd ≤ f.lenMax
  lt_max : f.lenMax < u32Max
  last : ∀ x ∈ zs, x.1 ≤ f.idUntil

theorem mem_stored_of_laid {dk : WalDisk} {e : ℕ} {x : Entry} (hlook : dk.lookup f.walNo = some ino)
    (hs : f.dataStart = some off) (he : f.dataEnd = some e) (hl : Laid (dk.inode ino).bytes off zs)
    (hok : ∀ e ∈ zs, EntryOk e) (hend : endOf off zs ≤ e + 1) (hlt : e < 2 ^ 32)
    (hlen : zs.length ≤ f.lenMax) (hx : x ∈ zs) : x ∈ f.stored dk := by
  simp only [WalFile.stored, hs, he, hlook]
  rw [walk_append hl (fun y hy => (hok y hy).id_lt_pow) hend hlt (by omega)]
  exact mem_append_left _ hx

omit [Crc] in
theorem length_le_of_endOf_le (hend : endOf off zs ≤ f.lenMax + 1) : zs.length ≤ f.lenMax := by
  have := add_length_le_endOf off zs
  omega

theorem Covers.mem_stored {dk : WalDisk} {x : Entry}
    (h : f.Covers (dk.inode ino).bytes off dataEnd k zs) (hlook : dk.lookup f.walNo = some ino)
    (hx : x ∈ zs) : x ∈ f.stored dk := by
  have hle := h.le_len
  have hmax := h.lt_max
  rw [u32Max] at hmax
  exact mem_stored_of_laid hlook h.start h.stop h.laid h.ok h.le_stop (by omega)
    (length_le_of_endOf_le (h.le_stop.trans (Nat.succ_le_succ hle))) hx

theorem checkRepair_covers (hw : f.Writable d.disk ino)
    (h : f.Covers (d.disk.inode ino).bytes off dataEnd k zs) : wp (checkRepairDataIntegrity heal)
      (fun _ s => s.1.walNo = f.walNo ∧ s.1.lenMax = f.lenMax ∧ s.1.dataStart = some off ∧
        (∃ e, s.1.dataEnd = some e ∧ endOf off zs ≤ e + 1 ∧ e < 2 ^ 32) ∧
        Laid (s.2.disk.inode ino).bytes off zs)
      (fun _ _ => True) (f, d) := by
  have hle := add_le_endOf off h.ne_nil
  have hoff := h.le_start
  have hend := h.le_stop
  have hdata := h.le_len
  have hmax := h.lt_max
  rw [checkRepairDataIntegrity, wp_bind, wp_get]
  simp only [h.start, h.stop, unwrap_some, pure_bind, wp_bind]
  refine wp_mono (checkLoop_covers hw hmax h.laid h.num h.ok h.ne_nil hend hdata
    h.last (by simp)) ?_ fun _ _ _ => trivial
  intro r s hr
  cases r with
  | none =>
    obtain ⟨o, id, ho, hfit, rfl⟩ := hr
    rw [u32Max] at hmax
    refine ⟨rfl, rfl, h.start, ⟨o - 1, rfl, by omega, by omega⟩, h.laid.congr ?_⟩
    rw [Dev.emit_disk, apply_write_bytes_self]
    exact (Region.agreeOn_write (.inl ((Nat.sub_le _ _).trans ho))).symm
  | some r =>
    obtain ⟨o, id⟩ := r
    obtain ⟨rfl, ho⟩ := hr
    refine wp_mono (scanLoop_spec (E := fun _ _ => True) hw hmax (by omega)
      (by omega) (by omega)) ?_
      fun _ _ _ => trivial
    rintro - ⟨g, d'⟩ ⟨rfl, hre, -⟩
    rw [u32Max] at hmax
    refine ⟨adopt_walNo _ _ _, adopt_lenMax _ _ _, ?_, ?_,
      h.laid.congr ((hre.bytes _).mono hoff le_rfl)⟩
    · unfold adopt
      split
      · simp [h.start]
      · exact h.start
    · obtain ⟨-, hfit, -⟩ := orphans_laid (d.disk.inode ino).bytes f.lenMax o (f.lenMax + 1)
        (some id)
      simp only
      generalize orphans (d.disk.inode ino).bytes f.lenMax (f.lenMax + 1) o (some id) = os at hfit
      rcases eq_nil_or_concat' os with rfl | ⟨xs, x, rfl⟩
      · exact ⟨dataEnd, h.stop, hend, by omega⟩
      · have h1 := hfit (by simp)
        have h2 := add_le_endOf o (show xs ++ [x] ≠ [] by simp)
        exact ⟨endOf o (xs ++ [x]) - 1, by simp [adopt], by omega, by omega⟩

end WalFile

/-! ## What is left of a file -/

section

variable {base d' : WalDisk} {es : List WalEvent} {v : View} {a : Slot} {s : ℕ} {ys : List Entry}

theorem Slot.Kept.covers (h : a.Kept (Moment base es a.ino) v.disk s ys) (hok : a.Ok v.disk)
    (hs : 0 < a.safe) (hbase : v.disk = replay base es) (hlost : Lost base es d')
    (huntorn : Untorn offsetLogs base es d') :
    ∃ f off dataEnd k zs, WalFile.readFromFile a.file.walNo a.ino d' = .ok f ∧
      f.Covers (d'.inode a.ino).bytes off dataEnd k zs ∧ ∀ x ∈ a.recs.take a.safe, x ∈ zs := by
  obtain ⟨m, hm, hag⟩ := huntorn a.ino
  obtain ⟨g, hg, hlead⟩ := h.hdr m hm
  obtain ⟨n, hn⟩ := hlead.start
  obtain ⟨e, he, hend⟩ := hlead.stop
  have hlen : (d'.inode a.ino).len = a.file.lenMax := by
    rw [hlost.len, ← hbase]
    exact hok.len
  have hread : WalFile.readFromFile a.file.walNo a.ino d' =
      .ok ⟨g, a.file.walNo, a.file.lenMax, none, none⟩ := by
    have hmin := hok.min_le
    rw [minWalSize] at hmin
    have hbuf : (d'.inode a.ino).bytes.read 0 32 = buildHeader g :=
      (Region.read_congr hag).trans hg
    rw [WalFile.readFromFile, if_neg (by omega), hbuf, parseHeader_buildHeader hlead.shaped.fits,
      hlen]
  -- the records since the last flush did not change
  obtain ⟨hne, t, ht⟩ := hok.holds hs
  obtain rfl : t = endOf s ys := Option.some.inj (ht.start.symm.trans h.start)
  have htake : Laid (a.bytes v.disk) (endOf s ys) (a.recs.take a.safe) := by
    have := ht.laid
    rw [← take_append_drop a.safe a.recs] at this
    exact (laid_append.mp this).1
  have hlaid : Laid (d'.inode a.ino).bytes s (ys ++ a.recs.take a.safe) :=
    (laid_append.mpr ⟨h.laid, htake⟩).congr ((hlost.agree h.same).mono le_rfl (Nat.sub_le _ _))
  have hsplit : ys ++ a.recs.take a.safe = ys.take n ++ (ys.drop n ++ a.recs.take a.safe) := by
    rw [← append_assoc, take_append_drop]
  obtain ⟨k, hk, hk'⟩ := h.num
  have hnum : NumFrom k (ys ++ a.recs.take a.safe) := by
    refine numFrom_append.mpr ⟨hk, ?_⟩
    have := ht.num
    rw [← take_append_drop a.safe a.recs] at this
    rw [hk']
    exact (numFrom_append.mp this).1
  have hids : ∀ x ∈ ys.drop n, x.1 ≤ g.idUntil := by
    intro x hx
    obtain ⟨y, zs, hy⟩ := exists_cons_of_ne_nil
      (show a.recs.take a.safe ≠ [] by simp [hs.ne', hne])
    have h1 := (hk.mem_bounds (mem_of_mem_drop hx)).2
    have h2 := hlead.last y (by simp [hy])
    have h3 := (numFrom_append.mp hnum).2
    rw [hy] at h3
    have := (numFrom_cons.mp h3).1
    omega
  rw [hsplit] at hlaid hnum hend
  rw [endOf_append] at hend
  have hshape := hlead.shaped.data
  rw [he] at hshape
  refine ⟨_, endOf s (ys.take n), e, _, ys.drop n ++ a.recs.take a.safe, hread,
    ⟨hn, he, h.le_start.trans (le_endOf _ _), (laid_append.mp hlaid).2,
      (numFrom_append.mp hnum).2, fun x hx => ?_, by simp [hs.ne', hne], hend, ?_, hok.lt_max,
      fun x hx => ?_⟩, fun x hx => mem_append_right _ hx⟩
  · exact (mem_append.mp hx).elim (fun hx => h.ok x (mem_of_mem_drop hx))
      fun hx => ht.ok x (mem_of_mem_take hx)
  · rcases hshape with ⟨-, hc⟩ | ⟨_, e', -, he', -, -, hlt⟩
    · exact absurd hc (by simp)
    · cases he'
      exact hlt
  · exact (mem_append.mp hx).elim (hids x) (hlead.last x)

end

/-! ## Recovery -/

namespace WalFileSet

variable {c : Cfg} {dk : WalDisk} {f : WalFile} {no ino : ℕ}

section

omit [Crc]

theorem readFromFile_eq_ok (h : WalFile.readFromFile no ino dk = .ok f) :
    f.walNo = no ∧ f.lenMax = (dk.inode ino).len ∧ f.mmap = none ∧ f.mmapMut = none := by
  unfold WalFile.readFromFile at h
  split_ifs at h
  split at h
  · cases h
  · cases h
    exact ⟨rfl, rfl, rfl, rfl⟩

theorem eq_ok_of_toOption {ε α : Type} {r : Except ε α} {a : α} (h : r.toOption = some a) :
    r = .ok a := by
  cases r with
  | ok b => exact congrArg _ (Option.some.inj h)
  | error e => cases h

theorem mem_readDir : f ∈ readDir dk ↔
    ∃ ino, (f.walNo, ino) ∈ dk.dir ∧ WalFile.readFromFile f.walNo ino dk = .ok f := by
  rw [readDir, mem_filterMap]
  constructor
  · rintro ⟨⟨no, ino⟩, hmem, hf⟩
    have hok := eq_ok_of_toOption hf
    obtain ⟨rfl, -⟩ := readFromFile_eq_ok hok
    exact ⟨ino, (mem_insertionSort _).mp hmem, hok⟩
  · rintro ⟨ino, hmem, hok⟩
    exact ⟨_, (mem_insertionSort _).mpr hmem, by rw [hok]; rfl⟩

theorem readDir_walNo_ne (hn : (dk.dir.map Prod.fst).Nodup) :
    (readDir dk).Pairwise fun f g => f.walNo ≠ g.walNo := by
  have hsort : (dk.dir.insertionSort (·.1 ≤ ·.1)).Pairwise fun x y => x.1 ≠ y.1 :=
    (perm_insertionSort _ _).symm.pairwise (pairwise_map.mp hn) fun h => h.symm
  refine hsort.filterMap _ fun x y hne f hf g hg => ?_
  rwa [(readFromFile_eq_ok (eq_ok_of_toOption hf)).1,
    (readFromFile_eq_ok (eq_ok_of_toOption hg)).1]

end

theorem recover_covers {off dataEnd k : ℕ} {zs : List Entry}
    (hnames : (dk.dir.map Prod.fst).Nodup) (hinos : (dk.dir.map Prod.snd).Nodup)
    (hmem : (no, ino) ∈ dk.dir) (hf : WalFile.readFromFile no ino dk = .ok f)
    (h : f.Covers (dk.inode ino).bytes off dataEnd k zs) :
    wp (recover c) (fun set d => ∀ x ∈ zs, x ∈ set.stored d.disk) (fun _ _ => True)
      (Dev.ofDisk dk) := by
  obtain ⟨rfl, hlen, hmm, hm⟩ := readFromFile_eq_ok hf
  have hfmem : f ∈ readDir dk := mem_readDir.mpr ⟨ino, hmem, hf⟩
  obtain ⟨fs, g, hfs⟩ := (eq_nil_or_concat' (readDir dk)).resolve_left
    (ne_nil_of_mem hfmem)
  obtain ⟨i, hgi, hg⟩ := mem_readDir.mp (show g ∈ readDir dk by simp [hfs])
  obtain ⟨-, hglen, hgmm, hgm⟩ := readFromFile_eq_ok hg
  have hlook : dk.lookup g.walNo = some i := Disk.lookup_of_mem hnames hgi
  rw [recover, wp_bind, wp_read (d := Dev.ofDisk dk) hfs, wp_exec]
  cases hc : checkFiles (fs ++ [g]) with
  | error e =>
    rw [checkIntegrity, wp_bind, wp_get]
    simp [hc, Except.mapError, lift]
  | ok u =>
    rw [wp_checkIntegrity_true hc hgm hlook (Dev.reliable_ofDisk _)]
    rw [hfs] at hfmem
    rcases mem_append.mp hfmem with hfmem | hfmem
    · -- the deep check does not touch this file
      have hno : f.walNo ≠ g.walNo := by
        have := readDir_walNo_ne hnames
        rw [hfs] at this
        exact (pairwise_append.mp this).2.2 f hfmem g (by simp)
      have hne : ino ≠ i := by
        rintro rfl
        exact hno (congrArg Prod.fst (inj_on_of_nodup_map hinos hmem hgi rfl))
      refine wp_mono (WalFile.local_checkRepair c.autoHeal { g with mmapMut := some i } _ rfl)
        ?_ fun _ _ _ => trivial
      rintro - ⟨g', d⟩ ⟨-, hap⟩ x hx
      refine mem_flatMap.mpr ⟨f, by simp [hfmem], ?_⟩
      have hino : d.disk.inode ino = dk.inode ino := hap.other ino hne
      rw [← hino] at h
      refine h.mem_stored ?_ hx
      rw [Disk.lookup, hap.dir]
      exact Disk.lookup_of_mem hnames hmem
    · obtain rfl := mem_singleton.mp hfmem
      obtain rfl : ino = i :=
        Option.some.inj ((Disk.lookup_of_mem hnames hmem).symm.trans hlook)
      refine wp_mono (wp_and
        (WalFile.local_checkRepair c.autoHeal { f with mmapMut := some ino } _ rfl)
        (WalFile.checkRepair_covers (d := (Dev.ofDisk dk).tick)
          (f := { f with mmapMut := some ino }) (.of_mut rfl hmm hlen.symm) { h with })) ?_
        fun _ _ _ => trivial
      rintro - ⟨f', d⟩ ⟨⟨-, hap⟩, hno, hlen', hs, ⟨e, he, hend, hlt⟩, hl⟩ x hx
      refine mem_flatMap.mpr ⟨f', by simp, WalFile.mem_stored_of_laid ?_ hs he hl h.ok hend
        hlt ?_ hx⟩
      · rw [hno, Disk.lookup, hap.dir]
        exact hlook
      · rw [hlen']
        exact WalFile.length_le_of_endOf_le (h.le_stop.trans (Nat.succ_le_succ h.le_len))

end WalFileSet

/-! ## Runs -/

section

variable {c : Cfg} {v v' : View} {ls : List Label}

theorem durable_of_path (hp : Path (Move c) .blank ls v) (hsync : c.sync = .immediate) :
    v.Ok ∧ v.Acked (events ls) ∧ v.Durable empty (events ls) := by
  refine hp.invariant (I := fun ls v => v.Ok ∧ v.disk = replay empty (events ls) ∧
    v.Acked (events ls) ∧ v.Durable empty (events ls)) ?_ ?_ |>.imp_right And.right
  · exact ⟨View.ok_blank, rfl, by simp [View.Acked, events, acked],
      by simp [View.Durable, View.blank]⟩
  · rintro ls v x v' ⟨hok, hdisk, hack, hdur⟩ hm
    rw [events_append]
    exact ⟨hm.ok hok, by rw [replay_append, ← hdisk, hm.disk], hm.keeps_acked hsync hok hack,
      hm.durable hok hdisk hdur⟩

end

variable [Codec]

/-- **Acknowledged entries survive a power loss** at any moment of a run that flushes every batch,
as long as no header is torn. -/
theorem acked_survive_power_loss {c c' : Cfg} (hmin : minWalSize ≤ c.walSize)
    (hsync : c.sync = .immediate) {w0 w : Writer} {qs : List (Cmd × Reply)}
    (h0 : boot c empty = .ok w0) (hrun : Run c (Fit c) w0 qs w) {q : Cmd}
    (hq : Fit c w q) {n : ℕ} {es : List WalEvent} {d' : WalDisk}
    (hes : es = (step c q.action w).2.dev.trace.take n) (hlost : Lost empty es d')
    (huntorn : Untorn offsetLogs empty es d') {set : WalFileSet} {d : WalDev}
    (hrec : WalFileSet.recover c' (Dev.ofDisk d') = (.ok set, d)) :
    ∀ e ∈ acked es, e ∈ set.stored d.disk := by
  obtain ⟨v, ht⟩ := run_tracks hmin h0 hrun hq
  obtain ⟨u, ls, -, hp, -, -, -, htake, hkill⟩ := ht.kill rfl (Nat.zero_le n)
  rw [← hes] at htake
  obtain rfl : es = events ls := htake
  obtain ⟨hok, hack, hdur⟩ := durable_of_path hp hsync
  have hbase : u.disk = replay empty (events ls) := replay_of_path hp
  intro e he
  obtain ⟨-, a, ha, hea⟩ := hack e he
  have hs : 0 < a.safe := by
    rcases Nat.eq_zero_or_pos a.safe with h | h
    · rw [h, take_zero] at hea
      cases hea
    · exact h
  obtain ⟨s, ys, hk⟩ := hdur a ha hs
  obtain ⟨f, off, dataEnd, k, zs, hf, hcov, hsub⟩ :=
    hk.covers (hok.slots a ha) hs hbase hlost huntorn
  have hmem : (a.file.walNo, a.ino) ∈ d'.dir := by
    refine hlost.mem_dir ?_
    rw [← hbase, hok.dir]
    exact mem_map.mpr ⟨a, ha, rfl⟩
  exact (wp_of_ok hrec).mp (WalFileSet.recover_covers hlost.names (hlost.inodes rfl) hmem hf
    hcov) e (hsub e hea)

/-! ## Losses on concrete inputs -/

/-- What the request `q` does up to `k` events before its end. -/
def Writer.upTo (c : Cfg) (q : Cmd) (k : ℕ) (w : Writer) : List WalEvent :=
  (step c q.action w).2.dev.trace.take ((step c q.action w).2.dev.trace.length - k)

/-- The last event, a write, reaches the first file but for the byte `i`. -/
def missed (es : List WalEvent) (i : ℕ) : WalDisk :=
  revert 0 i (replay empty es.dropLast) (replay empty es)

/-- The last event is a write, and every file has a name of its own. -/
def WriteLast (es : List WalEvent) : Prop :=
  (es.getLast?.any fun | .write .. => true | _ => false) = true ∧
    ((replay empty es).dir.map Prod.fst).Nodup

instance (es : List WalEvent) : Decidable (WriteLast es) := inferInstanceAs (Decidable (_ ∧ _))

omit [Crc] [Codec] in
theorem lost_missed {es : List WalEvent} (h : WriteLast es) (i : ℕ) :
    Lost empty es (missed es i) := by
  obtain ⟨e, he, hw⟩ := (Option.any_eq_true _ _).mp h.1
  refine lost_revert (moment_dropLast he ?_) h.2 i
  rintro rfl
  cases hw

omit [Crc] [Codec] in
/-- An acknowledged entry survives, and the next one is lost with its id. -/
theorem acked_survive_power_loss_run : let := cksum
    let := plainCodec
    ∃ w0 ps w es set d, boot .least empty = .ok w0 ∧
      Run .least (Fit .least) w0 ps w ∧
      ps.map Prod.fst = [.append [(1, [5])]] ∧
      es = upTo .least (.append [(2, [6])]) 4 w ∧
      WalFileSet.recover .least (Dev.ofDisk (missed es 57)) = (.ok set, d) ∧
      acked es = [(1, [5])] ∧ ∀ e ∈ acked es, e ∈ set.stored d.disk := by
  intro _ _
  obtain ⟨w0, ps, w, h0, hrun, hfst, hT⟩ := of_trial .least
    (Fit .least) [.append [(1, [5])]]
    (fun _ _ w =>
      let es := upTo .least (.append [(2, [6])]) 4 w
      match WalFileSet.recover .least (Dev.ofDisk (missed es 57)) with
      | (.ok _, _) => decide (Fit .least w (.append [(2, [6])]) ∧
          WriteLast es ∧ acked es = [(1, [5])])
      | (.error _, _) => false) (by decide +kernel)
  simp only at hT
  split at hT
  · next set d hrec =>
    obtain ⟨hq, hes, hack⟩ := of_decide_eq_true hT
    exact ⟨w0, ps, w, _, set, d, h0, hrun, hfst, rfl, hrec, hack,
      acked_survive_power_loss (by decide) rfl h0 hrun hq rfl (lost_missed hes 57)
        (untorn_revert (by decide)) hrec⟩
  · exact absurd hT (by simp)

def decoy : Bytes := [0, 0, 0, 0, 0, 0, 0, 0, 0, 0, 0, 0, 0, 0, 0, 1, 5]

omit [Crc] [Codec] in
/-- **A torn header loses acknowledged entries.** The purge moves `data_start` from `0x20` to
`0x130`, and the loss leaves `0x30`, which is inside of the first record. -/
theorem torn_header_loses_acked : let := cksum
    let := plainCodec
    ∃ w0 ps w es set d, boot .least empty = .ok w0 ∧
      Run .least (Fit .least) w0 ps w ∧
      ps.map Prod.fst =
        [.append ((range 10).map fun i => (i + 1, decoy)), .purge 9 (some [9])] ∧
      es = upTo .least (.append [(11, [6])]) 2 w ∧
      Lost empty es (missed es 26) ∧
      WalFileSet.recover .least (Dev.ofDisk (missed es 26)) = (.ok set, d) ∧
      acked es = [(9, decoy), (10, decoy)] ∧ set.stored d.disk = [] := by
  intro _ _
  obtain ⟨w0, ps, w, h0, hrun, hfst, hT⟩ := of_trial .least
    (Fit .least)
    [.append ((range 10).map fun i => (i + 1, decoy)), .purge 9 (some [9])]
    (fun _ _ w =>
      let es := upTo .least (.append [(11, [6])]) 2 w
      match WalFileSet.recover .least (Dev.ofDisk (missed es 26)) with
      | (.ok set, d) => decide (WriteLast es ∧ acked es = [(9, decoy), (10, decoy)] ∧
          set.stored d.disk = [])
      | (.error _, _) => false) (by decide +kernel)
  simp only at hT
  split at hT
  · next set d hrec =>
    obtain ⟨hes, hack, hstored⟩ := of_decide_eq_true hT
    exact ⟨w0, ps, w, _, set, d, h0, hrun, hfst, rfl, lost_missed hes 26, hrec, hack, hstored⟩
  · exact absurd hT (by simp)

end Hiqlite.Wal
