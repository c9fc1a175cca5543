import Hiqlite.Wal.Lifetimes
import Hiqlite.Wal.Reader

/-!
# W31 — the log after a restart

What Raft reads when a node starts: the writer has taken over the files of an earlier process, and a
new reader is asked for the state of the log and for its entries (**`restart_reads_back`**).
-/

namespace Hiqlite.Wal

open List Exec WalFileSet

variable [Crc] {c : Cfg} {s : Store} {l : List Slot}

/-! ## New readers -/

section

omit [Crc]

theorem WalFile.openMmapMut_keeps (f : WalFile) :
    Keeps (fun s : WalFile × WalDev => s.1.cloneNoMmap = f.cloneNoMmap) openMmapMut :=
  Keeps.get_bind fun _ => (keeps_pure _).ite <| Keeps.bind
    (Keeps.bind (fun _ h => h) fun _ => Keeps.get_bind fun _ => keeps_unwrap _ _)
    fun _ => keeps_modify fun _ h => h

theorem WalFileSet.openMmapMut_keeps (set : WalFileSet) :
    Keeps (fun s : WalFileSet × WalDev => s.1.cloneNoMap = set.cloneNoMap)
      (onActive WalFile.openMmapMut) := by
  refine Keeps.get_bind fun _ => (keeps_unwrap _ _).bind fun i s hs => ?_
  rw [onFile]
  cases hi : s.1.files[i]? with
  | none => exact hs
  | some f =>
    obtain ⟨hlt, rfl⟩ := List.getElem?_eq_some_iff.mp hi
    rw [← hs, cloneNoMap, cloneNoMap, List.map_set, WalFile.openMmapMut_keeps _ (_, s.2) rfl,
      ← getElem_map WalFile.cloneNoMmap, set_getElem_self]
    simpa using hlt

theorem cloneFilesFromNoMmap_self (files : List WalFile) :
    cloneFilesFromNoMmap files files = .ok files := by
  have hkept : files.filter (fun f => files.any fun g => g.walNo = f.walNo) = files :=
    filter_eq_self.mpr fun f hf => any_eq_true.mpr ⟨f, hf, by simp⟩
  simp [cloneFilesFromNoMmap, hkept, zipWith_self, WalFile.cloneFromNoMmap]

theorem WalFileSet.cloneNoMap_idem (set : WalFileSet) : set.cloneNoMap.cloneNoMap = set.cloneNoMap := by
  simp [cloneNoMap, WalFile.cloneNoMmap]

theorem Reader.sync_new (set : WalFileSet) (d : WalDev) :
    sync set.cloneNoMap (new set.cloneNoMap d) = (.ok (), new set.cloneNoMap d) := by
  simp only [new, cloneNoMap_idem]
  rw [sync, get_bind, cloneFilesFromNoMmap_self]
  rfl

end

theorem start_locked [Codec] {d d' : WalDev} {w : Writer} (h : start c d = (.ok w, d')) :
    w.locked = w.wal.cloneNoMap := by
  rw [start, get_bind] at h
  obtain ⟨_, d1, -, h1⟩ := bind_eq_ok.mp h
  obtain ⟨_, d2, -, h2⟩ := bind_eq_ok.mp h1
  obtain ⟨set, d3, -, h3⟩ := bind_eq_ok.mp h2
  obtain ⟨m, d4, -, h4⟩ := bind_eq_ok.mp h3
  obtain ⟨set', d5, hopen, h5⟩ := bind_eq_ok.mp h4
  have hkeep := openMmapMut_keeps set (set, d4) rfl
  rw [exec] at hopen
  rcases hrun : onActive WalFile.openMmapMut (set, d4) with ⟨_ | _, t⟩
  · rw [hrun] at hopen
    cases hopen
  · rw [hrun] at hopen hkeep
    cases hopen
    cases h5
    exact hkeep.symm

/-! ## The files hold the log -/

theorem Alive.represents (h : Alive s l) (hn : Numbered l) :
    Represents s.writer.dev.disk s.writer.wal.cloneNoMap (l.map Slot.recs) ∧
      s.writer.dev.Reliable := by
  obtain ⟨v0, d0, r, hrel, hst⟩ := h.up
  obtain ⟨v, ht, rfl, -⟩ := hst.pos
  have hv := ht.ok
  have hfiles : s.writer.wal.cloneNoMap.files = v.slots.map fun a => a.file.cloneNoMmap := by
    rw [cloneNoMap, hst.shows.files, map_map]
    rfl
  refine ⟨⟨?_, ?_, ?_, ?_, ?_⟩, ht.reliable hrel⟩
  · rw [hfiles, ht.disk, List.forall₂_map_left_iff, List.forall₂_map_right_iff, List.forall₂_same]
    intro a ha
    have hok := hv.slots a ha
    exact ⟨⟨a.ino, hv.lookup ha, hok.len, hok.body, by simp [WalFile.cloneNoMmap]⟩,
      hok.lt_max.trans (by decide)⟩
  · rw [hfiles, isChain_map]
    exact (isChain_ids hv.chain hn).imp fun _ _ h => h.symm
  · intro x hx
    rw [← map_dropLast] at hx
    obtain ⟨a, ha, rfl⟩ := mem_map.mp hx
    obtain ⟨ss, z, hz⟩ := (eq_nil_or_concat' v.slots).resolve_left hst.shows.ne_nil
    rw [hz, dropLast_concat] at ha
    exact (hv.sealed hz ha).1
  · rw [hfiles, length_map]
    exact hst.shows.active
  · rw [hfiles, ne_eq, map_eq_nil_iff]
    exact hst.shows.ne_nil

/-- The reader answers from `log`: a stored range is sent entry by entry, and the state names the
last entry. -/
structure Reader.Serves (r : Reader) (locked : WalFileSet) (log : List Entry) : Prop where
  range : ∀ lo hi, (∃ e ∈ log, e.1 ≤ lo) → lo ≤ hi → (∃ e ∈ log, hi ≤ e.1) →
    ∃ r', ∃ es : List Entry, logs locked lo hi r = (.ok (), r') ∧
      r'.sent = r.sent ++ es.map (fun e => some (.ok e.2)) ++ [none] ∧
      es.map Prod.fst = range' lo (hi + 1 - lo) ∧ ∀ e ∈ es, e ∈ log
  state : ∀ metadata, ∃ r', logState locked metadata r =
    (.ok ⟨metadata.lastPurgedLogId, log.getLast?.map Prod.snd⟩, r')

theorem Represents.serves {r : Reader} {locked : WalFileSet} {recs : List (List Entry)}
    (h : Represents r.dev.disk r.wal recs) (hr : r.dev.Reliable) (hm : r.memo = none)
    (hsync : Reader.sync locked r = (.ok (), r)) : r.Serves locked recs.flatten := by
  have hminds : Reader.Minds r.memo r.wal.files recs := fun m hmem => by
    rw [hm] at hmem
    cases hmem
  constructor
  · rintro lo hi ⟨e, he, hle⟩ hlo hhi
    obtain ⟨files', r', es, hrun, hsent, hnum, hlen, hmem⟩ :=
      Reader.logsLoop_spec h.files h.chain h.full hr hminds (fun f hf =>
        ((numFrom_flatten h.files h.chain h.full f hf).mem_bounds he).1.trans hle) hlo hhi
    refine ⟨{ r' with wal := { r'.wal with files := files' }, sent := r'.sent ++ [none] }, es, ?_,
      by rw [← hsent], by rw [hnum.map_fst, hlen], hmem⟩
    rw [Reader.logs, bind_ok hsync, Reader.serveLogs, get_bind, bind_ok hrun]
    rfl
  · intro metadata
    rw [Reader.logState, bind_ok hsync]
    exact Reader.serveState_spec h hr hminds metadata

/-- **A restart reads the log back.** After any requests and graceful restarts, a reader of the next
process serves the log of these requests. -/
theorem restart_reads_back [Codec] {w0 : Writer} {ts : List Turn} {c' : Cfg}
    (hmin : minWalSize ≤ c.walSize) (h0 : boot c WalDisk.empty = .ok w0)
    (hrun : Lifetimes (fun s t => s.Fit t ∧ t.Graceful) ⟨c, w0⟩ (ts ++ [.restart c']) s) :
    (Reader.new s.writer.locked s.writer.dev).Serves s.writer.locked
      (logOf (ts.filterMap Turn.cmd)) := by
  obtain ⟨l, hl, hn, hlog⟩ := log_of_graceful hmin h0 hrun
  obtain ⟨hrep, hrel⟩ := hl.represents hn
  obtain ⟨_, -, hlast⟩ := hrun.of_append
  obtain ⟨_, ⟨-, hexec⟩, hend⟩ := hlast.of_cons
  obtain rfl := hend.of_nil
  have hlocked : s.writer.locked = s.writer.wal.cloneNoMap := by
    rw [Turn.exec] at hexec
    split at hexec
    · obtain ⟨-, d', hstart⟩ := reboot_eq_some hexec
      exact start_locked hstart
    · cases hexec
  rw [filterMap_append, show [Turn.restart c'].filterMap Turn.cmd = [] from rfl,
    append_nil] at hlog
  rw [← hlog, flatMap_def, hlocked]
  refine Represents.serves ?_ hrel rfl (Reader.sync_new _ _)
  rwa [Reader.new, cloneNoMap_idem]

omit [Crc] in
theorem restart_reads_back_run : let := cksum
    let := plainCodec
    ∃ w0 s, boot .least WalDisk.empty = .ok w0 ∧
      Lifetimes (fun s t => s.Fit t ∧ t.Graceful) ⟨.least, w0⟩
        ([.request (.append [(1, [5]), (2, [6])])] ++ [.restart .least]) s ∧
      (Reader.new s.writer.locked s.writer.dev).Serves s.writer.locked [(1, [5]), (2, [6])] := by
  intro _ _
  obtain ⟨w0, s, h0, hrun, -⟩ := Lifetimes.of_trial .least
    (fun s t => s.Fit t ∧ t.Graceful)
    ([.request (.append [(1, [5]), (2, [6])])] ++ [.restart .least]) (fun _ => true)
    (by decide +kernel)
  exact ⟨w0, s, h0, hrun, restart_reads_back (by decide) h0 hrun⟩

end Hiqlite.Wal
