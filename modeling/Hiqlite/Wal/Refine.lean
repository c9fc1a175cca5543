import Hiqlite.Wal.Run

/-!
# W14 — the writer refines a log

* **`run_stands`**, `run_fresh`: the writer stands at some files after every run;
* **`writer_refines_log`**: the records of the files are the log that the requests leave behind.
-/

namespace Hiqlite.Wal

open Writer WalDisk

def logOf (qs : List Cmd) : List Entry := qs.foldl (fun L q => q.apply L) []

variable [Crc]

variable {c : Cfg} {w0 w : Writer} {qs : List (Cmd × Reply)}

theorem run_stands {C : Writer → Cmd → Prop} {P : Label → Prop}
    {v0 : View} {d0 : WalDev} {l0 : List Slot} {r0 : ℕ × ℕ} (hst0 : w0.Stands c P v0 d0 l0 r0)
    (hrel : d0.Reliable) (hn0 : Numbered l0) (hrun : Run c C w0 qs w)
    (hC : ∀ w q, C w q → Fit c w q) (hP : ∀ q ∈ qs, q.1.Labels ≤ P) :
    (∀ q ∈ qs, q.2.ack = .ok ()) ∧ ∃ l r, w.Stands c P v0 d0 l r ∧ Numbered l ∧
      l.flatMap Slot.recs =
        (qs.map Prod.fst).foldl (fun L q => q.apply L) (l0.flatMap Slot.recs) := by
  revert hP
  apply hrun.invariant
  · exact fun _ => ⟨by simp, l0, r0, hst0, hn0, rfl⟩
  · intro qs w q w' ih hs hP
    obtain ⟨hack, l, r, hst, hn, hlog⟩ := ih fun q hq => hP q (by simp [hq])
    obtain ⟨hack', l', hl'⟩ := hs.after (X := fun e => ∃ p, e = .panic p) hst hrel
      (hP q (by simp)) ⟨_, rfl⟩ (by simp) (.inr fun p => ⟨p, rfl⟩) (hst.ok hn (hC _ _ hs.1))
    obtain ⟨r', hst'⟩ := hl'.stands
    refine ⟨fun p hp => ?_, l', r', hst', hl'.numbered hn, ?_⟩
    · rcases List.mem_append.mp hp with hp | hp
      · exact hack p hp
      · rw [List.mem_singleton.mp hp]
        exact hack'
    · rw [hl'.recs, hlog, List.map_append, List.foldl_append]
      rfl

variable [Codec]

theorem run_fresh (hmin : minWalSize ≤ c.walSize) {C : Writer → Cmd → Prop} {P : Label → Prop}
    (h0 : boot c empty = .ok w0) (hrun : Run c C w0 qs w)
    (hC : ∀ w q, C w q → Fit c w q) (hP0 : Label.Start ≤ P)
    (hP : ∀ q ∈ qs, q.1.Labels ≤ P) : (∀ q ∈ qs, q.2.ack = .ok ()) ∧ ∃ l r,
      w.Stands c P .blank (Dev.ofDisk empty) l r ∧ Numbered l ∧
      l.flatMap Slot.recs = logOf (qs.map Prod.fst) := by
  obtain ⟨w1, h1, ⟨ino, hst1⟩, -, -⟩ := start_fresh c hmin
  cases h0.symm.trans h1
  exact run_stands ⟨hst1.shows, hst1.mirror, hst1.pos.mono hP0⟩
    (Dev.reliable_ofDisk _) (by simp [Numbered]) hrun hC hP

theorem run_tracks (hmin : minWalSize ≤ c.walSize) (h0 : boot c empty = .ok w0)
    (hrun : Run c (Fit c) w0 qs w) {q : Cmd} (hq : Fit c w q) :
    ∃ v, Tracks c (fun _ => True) .blank (Dev.ofDisk empty) v
      (step c q.action w).2.dev := by
  obtain ⟨-, l, r, hst, hn, -⟩ := run_fresh hmin h0 hrun (fun _ _ h => h)
    (fun _ _ => trivial) (P := fun _ => True) (fun _ _ _ _ => trivial)
  refine Exec.wp_state (R := fun w' : Writer => ∃ v, Tracks c (fun _ => True) .blank
    (Dev.ofDisk empty) v w'.dev) (Exec.wp_mono (step_spec (q := q)
      (X := fun e => ∃ p, e = .panic p) hst (Dev.reliable_ofDisk _)
      (fun _ _ => trivial) ⟨_, rfl⟩ (by simp) (.inr fun p => ⟨p, rfl⟩) (hst.ok hn hq)) ?_
      fun e w' he => he.tracks)
  rintro reply w' ⟨-, l', ⟨r', hst'⟩, -⟩
  obtain ⟨v, ht, -⟩ := hst'.pos
  exact ⟨v, ht⟩

/-- **The writer refines a log.** After every run from the first start, all requests are
acknowledged, the records of the files are the log, and the header of each file describes its
records. -/
theorem writer_refines_log {c : Cfg} (hmin : minWalSize ≤ c.walSize) {w0 w : Writer}
    {qs : List (Cmd × Reply)} (h0 : boot c empty = .ok w0)
    (hrun : Run c (Fit c) w0 qs w) : (∀ q ∈ qs, q.2.ack = .ok ()) ∧
      w.wal.stored w.dev.disk = logOf (qs.map Prod.fst) ∧
      ∀ f ∈ w.wal.files, ∃ ino, w.dev.disk.lookup f.walNo = some ino ∧
        Body (w.dev.disk.inode ino).bytes f.lenMax f.toHeader (f.stored w.dev.disk) := by
  obtain ⟨hack, l, r, hst, -, hlog⟩ := run_fresh hmin h0 hrun (fun _ _ h => h)
    (fun _ _ => trivial) (P := fun _ => True) (fun _ _ _ _ => trivial)
  exact ⟨hack, by rw [hst.stored, hlog], fun f hf => hst.body hf⟩

omit [Crc] [Codec] in
/-- A run with an append, a truncation and a purge. -/
theorem writer_refines_log_run : let := cksum
    let := plainCodec
    ∃ w0 ps w, boot .least empty = .ok w0 ∧
      Run .least (Fit .least) w0 ps w ∧
      (∀ q ∈ ps, q.2.ack = .ok ()) ∧ w.wal.stored w.dev.disk = [(2, [6, 6]), (3, [4])] := by
  intro _ _
  obtain ⟨w0, ps, w, h0, hrun, hfst, -⟩ := of_trial .least
    (Fit .least)
    [.append [(1, [5]), (2, [6, 6]), (3, [7])], .truncate 3, .sync, .append [(3, [4])],
      .purge 2 none, .vote [1]] (fun _ _ _ => true) (by decide +kernel)
  obtain ⟨hack, hlog, -⟩ := writer_refines_log (by decide) h0 hrun
  refine ⟨w0, ps, w, h0, hrun, hack, ?_⟩
  rw [hlog, hfst]
  rfl

omit [Crc] [Codec] in
/-- The open end of a truncation is `u64::MAX`, which it does not remove. -/
theorem truncate_keeps_last_id : let := cksum
    let := plainCodec
    ∃ w0 ps w, boot .least empty = .ok w0 ∧
      Run .least (fun _ _ => True) w0 ps w ∧
      ps.map Prod.fst = [.append [(u64Max, [7])], .truncate u64Max] ∧
      (∀ q ∈ ps, q.2.ack = .ok ()) ∧
      w.wal.stored w.dev.disk = [(u64Max, [7])] ∧ logOf (ps.map Prod.fst) = [] := by
  intro _ _
  obtain ⟨w0, ps, w, h0, hrun, hfst, hT⟩ := of_trial .least
    (fun _ _ => True) [.append [(u64Max, [7])], .truncate u64Max]
    (fun _ ps w => (ps.all fun q => q.2.ack.isOk) &&
      decide (w.wal.stored w.dev.disk = [(u64Max, [7])])) (by decide +kernel)
  rw [Bool.and_eq_true, decide_eq_true_eq] at hT
  exact ⟨w0, ps, w, h0, hrun, hfst, acks_of_all hT.1, hT.2, by rw [hfst]; rfl⟩

end Hiqlite.Wal
